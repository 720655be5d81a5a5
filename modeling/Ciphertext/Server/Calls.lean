import Ciphertext.Server.Tables

/-!
# The calls a handler makes

One constructor of `Op` per method the router calls on its collaborators, and
one for each thing it does to a connection: `send`, and reading or setting its
`username`. `exec` says what each of them does to the `World`. A handler is then
a `Prog` over these calls (`Server/Router.lean`), atomic call by atomic call.

A call that writes to sqlite does all of it or nothing: one that raises leaves the world as
it was (`commit`). That the real methods are atomic in this sense, under the locks of
`Database` and of the registries, is not assumed but shown, in `Server/Locks.lean`. Ids,
clock readings and salts come from supplies in the world, of which a call takes the next.
-/

namespace Ciphertext

inductive Op where
  | newId
  | nowMs
  | send (s : Sid) (f : Frame)
  | getUsername (s : Sid)
  | setUsername (s : Sid) (u : Option Json)
  | sessionsLogin (u : Json) (s : Sid)
  | sessionsLogout (u : Json)
  | sessionsGet (u : Json)
  | sessionsUsernames
  | sessionsOthers (u : Json)
  | usersRegister (u : Str) (passHash pubkey : Json)
  | usersVerify (u passHash : Json)
  | usersExists (u : Str)
  | usersPubkey (u : Str)
  | roomsCreate (room : Str)
  | roomsJoin (room : Str) (u : Json)
  | roomsLeave (room : Str) (u : Json)
  | roomsMembers (room : Str)
  | roomsExists (room : Str)
  | roomsOf (u : Json)
  | messagesRecord (id : Json) (conversation : Str) (sender : Json) (recipient : Str)
      (body nonce : Json) (ts : Int)
  | messagesQueueFor (u : Str) (id : Json)
  | messagesMark (id state : Str) (now : Int)
  | messagesFlush (u : Json)
  | messagesHistory (conversation : Str) (before : Option Int) (limit : Int)
  | contactsAdd (owner contact : Json)
  | contactsRemove (owner contact : Json)
  | contactsOf (owner : Json)

namespace Op

/-- What each call answers. -/
@[reducible] def Ret : Op → Type
  | newId => Str
  | nowMs => Int
  | send _ _ => Unit
  | getUsername _ => Option Json
  | setUsername _ _ => Unit
  | sessionsLogin _ _ => Bool
  | sessionsLogout _ => Unit
  | sessionsGet _ => Option Sid
  | sessionsUsernames => List Json
  | sessionsOthers _ => List Sid
  | usersRegister _ _ _ => Bool
  | usersVerify _ _ => Bool
  | usersExists _ => Bool
  | usersPubkey _ => Option Str
  | roomsCreate _ => Bool
  | roomsJoin _ _ => Unit
  | roomsLeave _ _ => Unit
  | roomsMembers _ => List Str
  | roomsExists _ => Bool
  | roomsOf _ => List Str
  | messagesRecord _ _ _ _ _ _ _ => Unit
  | messagesQueueFor _ _ => Unit
  | messagesMark _ _ _ => Option Str
  | messagesFlush _ => List Row
  | messagesHistory _ _ _ => List Row
  | contactsAdd _ _ => Bool
  | contactsRemove _ _ => Unit
  | contactsOf _ => List Str

end Op

/-- The router's calls as a signature. -/
@[reducible] def routerSig : Signature := ⟨Op, Op.Ret⟩

/-- A handler. -/
abbrev RouterM := Prog routerSig PyErr

/-- A transaction: an exception rolls the world back. -/
def commit {α : Type} (w : World) : Except PyErr (α × World) → Except PyErr α × World
  | .ok (a, w') => (.ok a, w')
  | .error e => (.error e, w)

/-- A transaction that answers nothing. -/
def commit' (w : World) : Except PyErr World → Except PyErr Unit × World
  | .ok w' => (.ok (), w')
  | .error e => (.error e, w)

/-- Hand a frame to a connection's outbox. -/
def World.push (w : World) (s : Sid) (f : Frame) : World :=
  { w with sent := w.sent ++ [⟨s, w.username s, f⟩] }

variable [Runtime]

/-- What each call does. -/
def exec : (o : Op) → World → Except PyErr (Op.Ret o) × World
  | .newId, w => (.ok (w.uuid w.uuids), { w with uuids := w.uuids + 1 })
  | .nowMs, w => (.ok (w.clock w.reads), { w with reads := w.reads + 1 })
  | .send s f, w => (.ok (), w.push s f)
  | .getUsername s, w => (.ok (w.username s), w)
  | .setUsername s u, w => (.ok (), { w with username := Function.update w.username s u })
  | .sessionsLogin u s, w => ((.ok (SessionRegistry.login w u s).1), (SessionRegistry.login w u s).2)
  | .sessionsLogout u, w => (.ok (), SessionRegistry.logout w u)
  | .sessionsGet u, w => (.ok (SessionRegistry.get w u), w)
  | .sessionsUsernames, w => (SessionRegistry.usernames w, w)
  | .sessionsOthers u, w => (.ok (SessionRegistry.others w u), w)
  | .usersRegister u passHash pubkey, w => commit w (SqliteUsers.register w u passHash pubkey)
  | .usersVerify u passHash, w => (SqliteUsers.verify w u passHash, w)
  | .usersExists u, w => (SqliteUsers.exists' w u, w)
  | .usersPubkey u, w => (SqliteUsers.pubkey w u, w)
  | .roomsCreate room, w => commit w (SqliteRooms.create w room)
  | .roomsJoin room u, w => commit' w (SqliteRooms.join w room u)
  | .roomsLeave room u, w => commit' w (SqliteRooms.leave w room u)
  | .roomsMembers room, w => (SqliteRooms.members w room, w)
  | .roomsExists room, w => (SqliteRooms.exists' w room, w)
  | .roomsOf u, w => (SqliteRooms.roomsOf w u, w)
  | .messagesRecord id conversation sender recipient body nonce ts, w =>
    commit' w (MessageStore.record w id conversation sender recipient body nonce ts)
  | .messagesQueueFor u id, w => commit' w (MessageStore.queueFor w u id)
  | .messagesMark id state now, w => commit w (MessageStore.mark w id state now)
  | .messagesFlush u, w => commit w (MessageStore.flush w u)
  | .messagesHistory conversation before limit, w =>
    (MessageStore.history w conversation before limit, w)
  | .contactsAdd owner contact, w => commit w (SqliteContacts.add w owner contact)
  | .contactsRemove owner contact, w => commit' w (SqliteContacts.remove w owner contact)
  | .contactsOf owner, w => (SqliteContacts.of w owner, w)

/-- Run a handler alone. -/
abbrev RouterM.exec {α : Type} (p : RouterM α) (w : World) : Except PyErr α × World :=
  p.run Ciphertext.exec w

theorem RouterM.exec_call (o : Op) (w : World) :
    RouterM.exec (Prog.call (S := routerSig) o .pure) w = Ciphertext.exec o w :=
  Prog.run_call_pure (S := routerSig) o w

theorem RouterM.exec_bind {α β : Type} (p : RouterM α) (f : α → RouterM β) (w : World) :
    RouterM.exec (p >>= f) w =
      match RouterM.exec p w with
      | (.ok a, w') => RouterM.exec (f a) w'
      | (.error e, w') => (.error e, w') := by
  generalize hr : RouterM.exec p w = r
  obtain ⟨e | a, w'⟩ := r <;> simp only [RouterM.exec] at hr ⊢ <;> rw [Prog.run_bind, hr]

end Ciphertext
