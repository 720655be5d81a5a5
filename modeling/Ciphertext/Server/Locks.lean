import Ciphertext.Server.Transactions
import Ciphertext.Server.Interleaving

/-!
# What the locks are for

The rest of the server's development lets a handler make each of its calls in one
piece. The server does not: a method of a store is a number of statements under
the `Database`'s lock, a method of the `SessionRegistry` a number of dictionary
operations under its own, and between any two of them the other threads go on.
`monitors` is the server at that level, every thread with its own place in the
call it is in.

`server_atomic` is the licence: whatever the threads do, some run of theirs with
atomic calls answered them alike, and has everything in the state that nobody has
locked. `crash_prefix` is the same for the disk: at any moment, the tables that a
crash would leave behind are those after some calls made one at a time.

`quiet_iff` puts both directions together: what handlers with atomic calls can come to
is what the threads can come to whenever none of them is inside a call, answers and
remaining programs included. The step that has content is `whole_eq`, that a body run on
its own is the call of `Tables`; the rest is the rule for monitors in `Prog/Monitor`,
for any locks and any bodies.
-/

namespace Ciphertext

open Prog Sql

/-! ## The registry -/

/-- What is done to `_by_name` under the lock. -/
inductive DictStep where
  /-- `username in self._by_name` -/
  | contains (username : Json)
  /-- `self._by_name[username] = session` -/
  | setItem (username : Json) (session : Sid)
  /-- `self._by_name.pop(username, None)` -/
  | pop (username : Json)
  /-- `self._by_name.get(username)` -/
  | get (username : Json)
  /-- Iterating over it -/
  | items

namespace DictStep

@[reducible] def Ret : DictStep → Type
  | contains _ => Bool
  | setItem _ _ => Unit
  | pop _ => Unit
  | get _ => Option Sid
  | items => List (Json × Sid)

def exec : (m : DictStep) → List (Json × Sid) → m.Ret × List (Json × Sid)
  | contains u, d => (d.any fun e => u.pyEq e.1, d)
  | setItem u s, d =>
    ((), if d.any fun e => u.pyEq e.1 then d.map fun e => if u.pyEq e.1 then (e.1, s) else e
      else d ++ [(u, s)])
  | pop u, d => ((), d.filter fun e => !u.pyEq e.1)
  | get u, d => ((d.find? fun e => u.pyEq e.1).map Prod.snd, d)
  | items, d => (d, d)

end DictStep

@[reducible] def dictSteps : Signature := ⟨DictStep, DictStep.Ret⟩

abbrev DictM := Prog dictSteps PyErr

@[reducible] def onDict (m : DictStep) : DictM m.Ret := Prog.call (S := dictSteps) m .pure

namespace SessionRegistry

/-- Claim a username. False if somebody is already using it. -/
def loginSteps (username : Json) (session : Sid) : DictM Bool := do
  if ← onDict (.contains username) then .pure false
  else do
    onDict (.setItem username session)
    .pure true

/-- `sorted(self._by_name)`, which raises when it cannot be. -/
def usernamesSteps : DictM (List Json) := do
  let items ← onDict .items
  match Json.sortedNames (items.map Prod.fst) with
  | .ok names => .pure names
  | .error e => .raise e

/-- `[s for name, s in self._by_name.items() if name != username]`. -/
def othersSteps (username : Json) : DictM (List Sid) := do
  let items ← onDict .items
  .pure ((items.filter fun e => !username.pyEq e.1).map Prod.snd)

theorem loginSteps_run (w : World) (u : Json) (t : Sid) :
    (loginSteps u t).runSteps DictStep.exec w.online = (.ok (login w u t).1, (login w u t).2.online) := by
  have hrun : (loginSteps u t).runSteps DictStep.exec w.online =
      (if w.online.any fun e => u.pyEq e.1 then (Prog.pure false : DictM Bool)
        else onDict (.setItem u t) >>= fun _ => .pure true).runSteps DictStep.exec w.online := rfl
  rw [hrun]
  unfold login
  cases hany : w.online.any fun e => u.pyEq e.1 with
  | true => rfl
  | false =>
    have hset : (DictStep.setItem u t).exec w.online = ((), w.online ++ [(u, t)]) := by
      simp [DictStep.exec, hany]
    exact congrArg (fun r : Unit × List (Json × Sid) => ((.ok true : Except PyErr Bool), r.2)) hset

theorem usernamesSteps_run (w : World) :
    usernamesSteps.runSteps DictStep.exec w.online = (usernames w, w.online) := by
  unfold usernames usernamesSteps
  rw [runSteps_bind, runSteps_call]
  dsimp only [DictStep.exec, runSteps_pure]
  cases Json.sortedNames (w.online.map Prod.fst) <;> rfl

end SessionRegistry

/-! ## What has no lock -/

/-- The connections' usernames and outboxes, and where ids and times come from. -/
structure Own where
  username : Sid → Option Json
  sent : List Delivery
  uuid : Nat → Str
  uuids : Nat
  clock : Nat → Int
  reads : Nat

/-- One access each. -/
inductive OwnStep where
  | newId
  | nowMs
  | send (s : Sid) (f : Frame)
  | getUsername (s : Sid)
  | setUsername (s : Sid) (u : Option Json)

namespace OwnStep

@[reducible] def Ret : OwnStep → Type
  | newId => Str
  | nowMs => Int
  | send _ _ => Unit
  | getUsername _ => Option Json
  | setUsername _ _ => Unit

def exec : (m : OwnStep) → Own → m.Ret × Own
  | newId, w => (w.uuid w.uuids, { w with uuids := w.uuids + 1 })
  | nowMs, w => (w.clock w.reads, { w with reads := w.reads + 1 })
  | send s f, w => ((), { w with sent := w.sent ++ [⟨s, w.username s, f⟩] })
  | getUsername s, w => (w.username s, w)
  | setUsername s u, w => ((), { w with username := Function.update w.username s u })

end OwnStep

@[reducible] def ownSteps : Signature := ⟨OwnStep, OwnStep.Ret⟩

@[reducible] def onOwn (m : OwnStep) : Prog ownSteps PyErr m.Ret := Prog.call (S := ownSteps) m .pure

/-! ## The server -/

/-- `Database._lock`, `SessionRegistry._lock`, and for a single access none at all. -/
inductive Guard where
  | database
  | registry
  | single
deriving DecidableEq

namespace Guard

@[reducible] def Part : Guard → Type
  | database => Connection
  | registry => List (Json × Sid)
  | single => Own

@[reducible] def Steps : Guard → Signature
  | database => statements
  | registry => dictSteps
  | single => ownSteps

end Guard

/-- The lock a call takes. -/
@[reducible] def Op.guard : Op → Guard
  | newId => .single
  | nowMs => .single
  | send _ _ => .single
  | getUsername _ => .single
  | setUsername _ _ => .single
  | sessionsLogin _ _ => .registry
  | sessionsLogout _ => .registry
  | sessionsGet _ => .registry
  | sessionsUsernames => .registry
  | sessionsOthers _ => .registry
  | _ => .database

variable [Runtime]

def Guard.step : (l : Guard) → (m : l.Steps.Op) → l.Part → l.Steps.Ret m × l.Part
  | database => Connection.step
  | registry => DictStep.exec
  | single => OwnStep.exec

/-- What each call does under its lock. -/
def Op.body : (o : Op) → Prog o.guard.Steps PyErr o.Ret
  | newId => onOwn .newId
  | nowMs => onOwn .nowMs
  | send s f => onOwn (.send s f)
  | getUsername s => onOwn (.getUsername s)
  | setUsername s u => onOwn (.setUsername s u)
  | sessionsLogin u s => SessionRegistry.loginSteps u s
  | sessionsLogout u => onDict (.pop u)
  | sessionsGet u => onDict (.get u)
  | sessionsUsernames => SessionRegistry.usernamesSteps
  | sessionsOthers u => SessionRegistry.othersSteps u
  | usersRegister u passHash pubkey => Sql.SqliteUsers.register u passHash pubkey
  | usersVerify u passHash => Sql.SqliteUsers.verify u passHash
  | usersExists u => Sql.SqliteUsers.exists' u
  | usersPubkey u => Sql.SqliteUsers.pubkey u
  | roomsCreate room => Sql.SqliteRooms.create room
  | roomsJoin room u => Sql.SqliteRooms.join room u
  | roomsLeave room u => Sql.SqliteRooms.leave room u
  | roomsMembers room => Sql.SqliteRooms.members room
  | roomsExists room => Sql.SqliteRooms.exists' room
  | roomsOf u => Sql.SqliteRooms.roomsOf u
  | messagesRecord id conversation sender recipient body nonce ts =>
    Sql.MessageStore.record id conversation sender recipient body nonce ts
  | messagesQueueFor u id => Sql.MessageStore.queueFor u id
  | messagesMark id state now => Sql.MessageStore.mark id state now
  | messagesFlush u => Sql.MessageStore.flush u
  | messagesHistory conversation before limit => Sql.MessageStore.history conversation before limit
  | contactsAdd owner contact => Sql.SqliteContacts.add owner contact
  | contactsRemove owner contact => Sql.SqliteContacts.remove owner contact
  | contactsOf owner => Sql.SqliteContacts.of owner

/-- The server's calls as its threads carry them out. -/
@[reducible] def monitors : Monitors routerSig PyErr where
  Lock := Guard
  Part := Guard.Part
  Steps := Guard.Steps
  step := Guard.step
  guard := Op.guard
  body := Op.body

instance : DecidableEq monitors.Lock := inferInstanceAs (DecidableEq Guard)

/-- The parts of a world, with everything committed. -/
def partsOf (w : World) : monitors.State
  | .database => ⟨tablesOf w, tablesOf w, w.salt⟩
  | .registry => w.online
  | .single => ⟨w.username, w.sent, w.uuid, w.uuids, w.clock, w.reads⟩

/-- The world of some parts, as the connection sees the tables. -/
def worldOf (s : monitors.State) : World :=
  let c : Connection := s .database
  let own : Own := s .single
  { accounts := c.working.accounts, rooms := c.working.rooms, memberships := c.working.memberships
    messages := c.working.messages, pending := c.working.pending, contacts := c.working.contacts
    online := s .registry
    username := own.username, sent := own.sent
    uuid := own.uuid, uuids := own.uuids, clock := own.clock, reads := own.reads, salt := c.salt }

/-- No transaction is open. -/
def Committed (s : monitors.State) : Prop :=
  (s .database : Connection).working = (s .database : Connection).committed

theorem worldOf_partsOf (w : World) : worldOf (partsOf w) = w := rfl

theorem partsOf_worldOf {s : monitors.State} (h : Committed s) : partsOf (worldOf s) = s := by
  funext l
  cases l with
  | database =>
    have hsettled : (s .database : Connection).working = (s .database : Connection).committed := h
    show Connection.mk (s .database : Connection).working (s .database : Connection).working
      (s .database : Connection).salt = s .database
    generalize hc : (s .database : Connection) = c at hsettled
    obtain ⟨working, committed, salt⟩ := c
    exact congrArg (fun t => Connection.mk working t salt) hsettled
  | registry => rfl
  | single => rfl

theorem worldOf_database (s : monitors.State) (t committed : Tables) :
    worldOf (Function.update s Guard.database (⟨t, committed, (s .database : Connection).salt⟩ : Connection)) =
      t.on (worldOf s) := rfl

/-- A method of a store changes the world as its function does. -/
theorem carried {α : Type} {p : StoreM α} {f : World → Except PyErr (α × World)} (hp : Amounts p f)
    {s : monitors.State} (hs : Committed s) :
    Committed (Function.update s Guard.database (p.runAlone (s .database)).2) ∧
      commit (worldOf s) (f (worldOf s)) =
        ((p.runAlone (s .database)).1, worldOf (Function.update s Guard.database (p.runAlone (s .database)).2)) := by
  have hruns := hp.runs (worldOf s)
  have hdatabase : (s .database : Connection) = ⟨tablesOf (worldOf s), tablesOf (worldOf s), (worldOf s).salt⟩ :=
    (congrFun (partsOf_worldOf hs) Guard.database).symm
  have hsettled : ∀ t : Tables, Committed (Function.update s Guard.database (⟨t, t, (worldOf s).salt⟩ : Connection)) :=
    fun _ => rfl
  cases hf : f (worldOf s) with
  | error e =>
    rw [hf] at hruns
    have hrun : p.runAlone (s .database) = (.error e, s .database) := by
      rw [hdatabase]
      exact hruns
    rw [hrun]
    dsimp only
    rw [Function.update_eq_self]
    exact ⟨hs, rfl⟩
  | ok r =>
    obtain ⟨a, w'⟩ := r
    rw [hf] at hruns
    have hrun : p.runAlone (s .database) = (.ok a, ⟨tablesOf w', tablesOf w', (worldOf s).salt⟩) := by
      rw [hdatabase]
      exact hruns.2
    rw [hrun]
    refine ⟨hsettled _, ?_⟩
    show (_, w') = (_, _)
    rw [hruns.1]
    exact congrArg (Prod.mk _) (worldOf_database s _ _).symm

/-- **In one piece, the calls are those of the rest.** -/
theorem whole_eq (o : Op) {s : monitors.State} (hs : Committed s) :
    Committed (monitors.whole o s).2 ∧
      Ciphertext.exec o (worldOf s) = ((monitors.whole o s).1, worldOf (monitors.whole o s).2) := by
  -- a method that answers nothing, and one that changes nothing
  have hsilent : ∀ (w : World) (f : World → Except PyErr World), commit' w (f w) = commit w (silent f w) := by
    intro w f
    unfold silent
    cases f w <;> rfl
  have hstill : ∀ {α : Type} (w : World) (f : World → Except PyErr α), (f w, w) = commit w (still f w) := by
    intro α w f
    unfold still
    cases f w <;> rfl
  cases o with
  | newId => exact ⟨hs, rfl⟩
  | nowMs => exact ⟨hs, rfl⟩
  | send t f => exact ⟨hs, rfl⟩
  | getUsername t => exact ⟨hs, rfl⟩
  | setUsername t u => exact ⟨hs, rfl⟩
  | sessionsLogin u t =>
    refine ⟨hs, ?_⟩
    have hrun := SessionRegistry.loginSteps_run (worldOf s) u t
    have hfst : (monitors.whole (.sessionsLogin u t) s).1 = .ok (SessionRegistry.login (worldOf s) u t).1 :=
      congrArg Prod.fst hrun
    have hsnd : (monitors.whole (.sessionsLogin u t) s).2 =
        Function.update s Guard.registry (SessionRegistry.login (worldOf s) u t).2.online :=
      congrArg (Function.update s Guard.registry) (congrArg Prod.snd hrun)
    rw [hfst, hsnd]
    refine congrArg (Prod.mk _) ?_
    show (SessionRegistry.login (worldOf s) u t).2 = _
    unfold SessionRegistry.login
    split <;> rfl
  | sessionsLogout u => exact ⟨hs, rfl⟩
  | sessionsGet u => exact ⟨hs, rfl⟩
  | sessionsUsernames =>
    have hrun := SessionRegistry.usernamesSteps_run (worldOf s)
    have hfst : (monitors.whole .sessionsUsernames s).1 = SessionRegistry.usernames (worldOf s) :=
      congrArg Prod.fst hrun
    have hsnd : (monitors.whole .sessionsUsernames s).2 = s :=
      (congrArg (Function.update s Guard.registry) (congrArg Prod.snd hrun)).trans (Function.update_eq_self ..)
    rw [hfst, hsnd]
    exact ⟨hs, rfl⟩
  | sessionsOthers u => exact ⟨hs, rfl⟩
  | usersRegister u passHash pubkey => exact carried (Sql.SqliteUsers.register_amounts u passHash pubkey) hs
  | usersVerify u passHash =>
    have h := carried (Sql.SqliteUsers.verify_amounts u passHash) hs
    exact ⟨h.1, (hstill _ fun w => SqliteUsers.verify w u passHash).trans h.2⟩
  | usersExists u =>
    have h := carried (Sql.SqliteUsers.exists_amounts u) hs
    exact ⟨h.1, (hstill _ fun w => SqliteUsers.exists' w u).trans h.2⟩
  | usersPubkey u =>
    have h := carried (Sql.SqliteUsers.pubkey_amounts u) hs
    exact ⟨h.1, (hstill _ fun w => SqliteUsers.pubkey w u).trans h.2⟩
  | roomsCreate room => exact carried (Sql.SqliteRooms.create_amounts room) hs
  | roomsJoin room u =>
    have h := carried (Sql.SqliteRooms.join_amounts room u) hs
    exact ⟨h.1, (hsilent _ fun w => SqliteRooms.join w room u).trans h.2⟩
  | roomsLeave room u =>
    have h := carried (Sql.SqliteRooms.leave_amounts room u) hs
    exact ⟨h.1, (hsilent _ fun w => SqliteRooms.leave w room u).trans h.2⟩
  | roomsMembers room =>
    have h := carried (Sql.SqliteRooms.members_amounts room) hs
    exact ⟨h.1, (hstill _ fun w => SqliteRooms.members w room).trans h.2⟩
  | roomsExists room =>
    have h := carried (Sql.SqliteRooms.exists_amounts room) hs
    exact ⟨h.1, (hstill _ fun w => SqliteRooms.exists' w room).trans h.2⟩
  | roomsOf u =>
    have h := carried (Sql.SqliteRooms.roomsOf_amounts u) hs
    exact ⟨h.1, (hstill _ fun w => SqliteRooms.roomsOf w u).trans h.2⟩
  | messagesRecord id conversation sender recipient body nonce ts =>
    have h := carried (Sql.MessageStore.record_amounts id conversation sender recipient body nonce ts) hs
    exact ⟨h.1, (hsilent _ fun w =>
      MessageStore.record w id conversation sender recipient body nonce ts).trans h.2⟩
  | messagesQueueFor u id =>
    have h := carried (Sql.MessageStore.queueFor_amounts u id) hs
    exact ⟨h.1, (hsilent _ fun w => MessageStore.queueFor w u id).trans h.2⟩
  | messagesMark id state now => exact carried (Sql.MessageStore.mark_amounts id state now) hs
  | messagesFlush u => exact carried (Sql.MessageStore.flush_amounts u) hs
  | messagesHistory conversation before limit =>
    have h := carried (Sql.MessageStore.history_amounts conversation before limit) hs
    exact ⟨h.1, (hstill _ fun w => MessageStore.history w conversation before limit).trans h.2⟩
  | contactsAdd owner contact => exact carried (Sql.SqliteContacts.add_amounts owner contact) hs
  | contactsRemove owner contact =>
    have h := carried (Sql.SqliteContacts.remove_amounts owner contact) hs
    exact ⟨h.1, (hsilent _ fun w => SqliteContacts.remove w owner contact).trans h.2⟩
  | contactsOf owner =>
    have h := carried (Sql.SqliteContacts.of_amounts owner) hs
    exact ⟨h.1, (hstill _ fun w => SqliteContacts.of w owner).trans h.2⟩

/-! ## Whole runs -/

/-- The server's threads, each with its place in the call it is in. -/
abbrev Threads := Crew monitors Input

/-- What they can come to, from a world in which everything is committed. -/
abbrev Threads.Reach (cfg : Config) (w₀ : World) (c : Threads) : Prop :=
  Crew.Reach monitors (Input.prog cfg) (partsOf w₀) c

section Runs

variable {cfg : Config} {w₀ : World} {c : Threads}

/-- The interleaving behind some threads. -/
theorem Threads.Reach.behind (h : Threads.Reach cfg w₀ c) :
    ∃ a : Pool routerSig PyErr Input monitors.State,
      Committed a.state ∧ Interleaving cfg w₀ (a.mapState worldOf) ∧ Crew.Behind a c := by
  obtain ⟨a, ha, hb⟩ := Crew.Reach.atomic h
  have hstart : Committed (partsOf w₀) := rfl
  obtain ⟨hs, hmapped⟩ := ha.mapState (f := worldOf) hstart fun o s hs => whole_eq o hs
  exact ⟨a, hs, hmapped, hb⟩

/-- **Handlers may be taken to make their calls in one piece.** Whatever the threads have come to
statement by statement, some run of theirs with atomic calls answered the same calls alike in the
same order, has left of each handler what is left of it here, and agrees on every part of the
state that nobody has locked. -/
theorem server_atomic (h : Threads.Reach cfg w₀ c) :
    ∃ a, Interleaving cfg w₀ a ∧ a.log = c.log ∧
      a.threads = c.threads.map (fun x => (x.1, x.2.rest)) ∧
      ∀ l, c.Free l → partsOf a.state l = c.state l := by
  obtain ⟨a, hs, hmapped, hb⟩ := h.behind
  refine ⟨a.mapState worldOf, hmapped, hb.log, hb.threads, fun l hl => ?_⟩
  rw [← hb.free l hl]
  exact congrFun (partsOf_worldOf hs) l

/-- The threads of an interleaving, each of which carries every call through before another begins one. -/
theorem Interleaving.carriedOut {a : ServerPool} (h : Interleaving cfg w₀ a) :
    Threads.Reach cfg w₀ (Crew.ofPool (a.mapState partsOf)) := by
  have hstart : True := trivial
  refine Crew.reach_ofPool (h.mapState (I := fun _ => True) (f := partsOf) hstart fun o w _ => ⟨trivial, ?_⟩).2
  obtain ⟨hs, heq⟩ := whole_eq o (s := partsOf w) rfl
  rw [worldOf_partsOf] at heq
  rw [heq]
  exact Prod.ext rfl (partsOf_worldOf hs).symm

/-- **The two servers are one.** An interleaving of atomic calls is what the threads can come to
at a moment when none of them is inside a call: the same state, the same answers in the same
order, and the same left to do. -/
theorem quiet_iff {a : ServerPool} :
    Interleaving cfg w₀ a ↔ ∃ c : Threads, Threads.Reach cfg w₀ c ∧ c.Quiet ∧ c.state = partsOf a.state ∧
      c.log = a.log ∧ c.threads.map (fun x => (x.1, x.2.rest)) = a.threads := by
  constructor
  · intro h
    refine ⟨_, h.carriedOut, Crew.quiet_ofPool _, rfl, rfl, ?_⟩
    show (a.threads.map fun x => (x.1, Place.outside (M := monitors) x.2)).map _ = a.threads
    rw [List.map_map]
    exact List.map_id _
  · rintro ⟨c, h, hquiet, hstate, hlog, hthreads⟩
    obtain ⟨a', ha', hlog', hthreads', hparts⟩ := server_atomic h
    have hsame : partsOf a'.state = partsOf a.state := by
      rw [← hstate]
      exact funext fun l => hparts l (hquiet l)
    have ha : a' = a := by
      obtain ⟨state, threads, log⟩ := a'
      obtain rfl : state = a.state := congrArg worldOf hsame
      obtain rfl : log = a.log := hlog'.trans hlog
      obtain rfl : threads = a.threads := hthreads'.trans hthreads
      rfl
    exact ha ▸ ha'

/-! ## What a crash leaves -/

/-- The tables on the disk. -/
def Threads.onDisk (c : Threads) : Tables := (c.state .database : Connection).committed

/-- When nobody has the database, what is on the disk is what the calls so far have made of it. -/
theorem Threads.Reach.committed (h : Threads.Reach cfg w₀ c) (hfree : c.Free Guard.database) :
    ∃ a, Interleaving cfg w₀ a ∧ a.log = c.log ∧ tablesOf a.state = c.onDisk := by
  obtain ⟨a, ha, hlog, -, hparts⟩ := server_atomic h
  exact ⟨a, ha, hlog, congrArg Connection.committed (hparts .database hfree)⟩

/-- A body ends with its commit. -/
def Guard.Last {α : Type} : (l : Guard) → Prog l.Steps PyErr α → Prop
  | database, p => CommitsLast p
  | registry, _ => True
  | single, _ => True

/-- Nothing has been committed in between. -/
def Guard.Same : (l : Guard) → l.Part → l.Part → Prop
  | database, c, c' => c'.committed = c.committed
  | registry, _, _ => True
  | single, _, _ => True

theorem Op.body_last (o : Op) : o.guard.Last o.body := by
  cases o with
  | usersRegister u passHash pubkey => exact (Sql.SqliteUsers.register_amounts u passHash pubkey).last
  | usersVerify u passHash => exact (Sql.SqliteUsers.verify_amounts u passHash).last
  | usersExists u => exact (Sql.SqliteUsers.exists_amounts u).last
  | usersPubkey u => exact (Sql.SqliteUsers.pubkey_amounts u).last
  | roomsCreate room => exact (Sql.SqliteRooms.create_amounts room).last
  | roomsJoin room u => exact (Sql.SqliteRooms.join_amounts room u).last
  | roomsLeave room u => exact (Sql.SqliteRooms.leave_amounts room u).last
  | roomsMembers room => exact (Sql.SqliteRooms.members_amounts room).last
  | roomsExists room => exact (Sql.SqliteRooms.exists_amounts room).last
  | roomsOf u => exact (Sql.SqliteRooms.roomsOf_amounts u).last
  | messagesRecord id conversation sender recipient body nonce ts =>
    exact (Sql.MessageStore.record_amounts id conversation sender recipient body nonce ts).last
  | messagesQueueFor u id => exact (Sql.MessageStore.queueFor_amounts u id).last
  | messagesMark id state now => exact (Sql.MessageStore.mark_amounts id state now).last
  | messagesFlush u => exact (Sql.MessageStore.flush_amounts u).last
  | messagesHistory conversation before limit => exact (Sql.MessageStore.history_amounts conversation before limit).last
  | contactsAdd owner contact => exact (Sql.SqliteContacts.add_amounts owner contact).last
  | contactsRemove owner contact => exact (Sql.SqliteContacts.remove_amounts owner contact).last
  | contactsOf owner => exact (Sql.SqliteContacts.of_amounts owner).last
  | _ => trivial

/-- Only `COMMIT` writes to the disk. -/
theorem Connection.step_committed {m : Statement} (h : m ≠ .commit) (c : Connection) :
    (c.step m).2.committed = c.committed := by
  by_cases hwithin : m.within = true
  · rw [Connection.step_eq hwithin]
    cases m.effect c.salt c.working <;> rfl
  · cases m with
    | commit => exact absurd rfl h
    | rollback => rfl
    | _ => exact absurd rfl hwithin

/-- On its way a body has committed nothing, or it is done. -/
theorem Guard.midway {l : Guard} {α : Type} {p q : Prog l.Steps PyErr α} {s s' : l.Part}
    (h : Midway l.step p s q s') (hp : l.Last p) : (l.Last q ∧ l.Same s s') ∨ ∃ r, q = .pure r := by
  cases l with
  | registry => exact .inl ⟨trivial, trivial⟩
  | single => exact .inl ⟨trivial, trivial⟩
  | database =>
    refine h.inv (J := fun q (s' : Connection) =>
      (CommitsLast q ∧ s'.committed = (s : Connection).committed) ∨ ∃ r, q = .pure r) (.inl ⟨hp, rfl⟩) ?_
    rintro m k s₁ (⟨hk, hs⟩ | ⟨r, hr⟩)
    · by_cases hm : m = Statement.commit
      · subst hm
        exact .inr hk
      · exact .inl ⟨(commitsLast_call hm).mp hk _, (Connection.step_committed hm s₁).trans hs⟩
    · cases hr

/-- **A crash leaves what some calls made.** At any moment, in the middle of any transactions, the
tables on the disk are those after a run in which each call was made in one piece. That run made
every call that has been answered here, in that order, and at most one more. -/
theorem crash_prefix (h : Threads.Reach cfg w₀ c) :
    ∃ a, Interleaving cfg w₀ a ∧ tablesOf a.state = c.onDisk ∧
      (a.log = c.log ∨ ∃ e, a.log = c.log ++ [e]) := by
  by_cases hfree : c.Free Guard.database
  · obtain ⟨a, ha, hlog, htables⟩ := h.committed hfree
    exact ⟨a, ha, htables, .inl hlog⟩
  · -- somebody is inside a transaction
    unfold Crew.Free at hfree
    push Not at hfree
    obtain ⟨x, hx, hheld⟩ := hfree
    obtain ⟨l, place⟩ := x
    cases place with
    | outside p => exact hheld.elim
    | inside o k p =>
      have hguard : o.guard = Guard.database := hheld
      obtain ⟨a, hs, hmapped, hb⟩ := h.behind
      rcases Guard.midway (hb.busy _ hx o k p rfl) o.body_last with ⟨-, hsame⟩ | ⟨r, rfl⟩
      · -- and has not committed yet
        have hsame : Guard.database.Same (a.state .database) (c.state .database) := hguard ▸ hsame
        have hsettled : (a.state .database : Connection).working = (a.state .database : Connection).committed := hs
        exact ⟨a.mapState worldOf, hmapped, hsettled.trans hsame.symm, .inl hb.log⟩
      · -- and has: it need only give the lock back
        obtain ⟨t, ht⟩ := List.mem_iff_getElem?.mp hx
        have hleft := Crew.From.leave h ht
        have hfree : Crew.Free { c with
            threads := c.threads.set t (l, Place.outside (k r)), log := c.log ++ [(t, ⟨o, r⟩)] } Guard.database := by
          intro y hy hheld'
          rcases Crew.mem_set hy with rfl | ⟨u, hne, hu⟩
          · exact hheld'
          · exact (Crew.Reach.exclusive h).other ht hheld hu hne hheld'
        obtain ⟨a', ha', hlog', htables'⟩ := Threads.Reach.committed hleft hfree
        exact ⟨a', ha', htables', .inr ⟨_, hlog'⟩⟩

/-! ## What stays on the disk -/

variable {R : Tables → Tables → Prop}

/-- What is committed changes as `R` says. -/
def Guard.Lets (R : Tables → Tables → Prop) : (l : Guard) → l.Part → l.Part → Prop
  | database, c, c' => R c.committed c'.committed
  | registry, _, _ => True
  | single, _, _ => True

omit [Runtime] in
theorem Guard.Lets.refl (hrefl : ∀ t, R t t) (l : Guard) (s : l.Part) : l.Lets R s s := by
  cases l with
  | database => exact hrefl _
  | registry => trivial
  | single => trivial

/-- One statement of a body commits nothing, or all that the body does. -/
theorem Guard.step_lets (hrefl : ∀ t, R t t) {l : Guard} {α : Type} {p : Prog l.Steps PyErr α} {m : l.Steps.Op}
    {q : l.Steps.Ret m → Prog l.Steps PyErr α} {s s' : l.Part} (h : Midway l.step p s (.call m q) s')
    (hp : l.Last p) (hrun : l.Lets R s (p.runSteps l.step s).2) : l.Lets R s' (l.step m s').2 := by
  cases l with
  | registry => trivial
  | single => trivial
  | database =>
    have hbefore : (s' : Connection).committed = (s : Connection).committed := by
      rcases Guard.midway h hp with ⟨-, hsame⟩ | ⟨r, hr⟩
      · exact hsame
      · cases hr
    show R (s' : Connection).committed (Guard.database.step m s').2.committed
    rw [hbefore]
    rcases Guard.midway h.snoc hp with ⟨-, hsame⟩ | ⟨r, hr⟩
    · have hafter : (Guard.database.step m s').2.committed = (s : Connection).committed := hsame
      rw [hafter]
      exact hrefl _
    · -- this was the commit: what is there now is what the whole body makes of it
      have hend := h.snoc.run
      rw [hr, runSteps_pure] at hend
      rw [← hend] at hrun
      exact hrun

/-- A call in one piece. -/
theorem whole_lets (hexec : ∀ o w, R (tablesOf w) (tablesOf (Ciphertext.exec o w).2)) (o : Op) {s : monitors.State}
    (hs : Committed s) (l : Guard) : l.Lets R (s l) ((monitors.whole o s).2 l) := by
  cases l with
  | registry => trivial
  | single => trivial
  | database =>
    obtain ⟨hs', heq⟩ := whole_eq o hs
    have hbefore : (s .database : Connection).working = (s .database : Connection).committed := hs
    have hafter : ((monitors.whole o s).2 .database : Connection).working =
        ((monitors.whole o s).2 .database : Connection).committed := hs'
    have hcall := hexec o (worldOf s)
    rw [heq] at hcall
    show R (s .database : Connection).committed ((monitors.whole o s).2 .database : Connection).committed
    rw [← hbefore, ← hafter]
    exact hcall

/-- **What every call lets happen to the tables is all that happens on the disk**, between any two
moments of a life, in the middle of whatever transactions. -/
theorem Threads.Reach.disk_lets (hrefl : ∀ t, R t t) (htrans : ∀ t t' t'', R t t' → R t' t'' → R t t'')
    (hexec : ∀ o w, R (tablesOf w) (tablesOf (Ciphertext.exec o w).2)) (h : Threads.Reach cfg w₀ c) {c' : Threads}
    (h' : Crew.From monitors (Input.prog cfg) c c') : R c.onDisk c'.onDisk := by
  induction h' with
  | start => exact hrefl _
  | spawn _ _ ih => exact ih
  | enter _ _ _ ih => exact ih
  | leave _ _ ih => exact ih
  | throw _ _ ih => exact ih
  | @step d hd t i o k m q ht ih =>
    obtain ⟨a, hs, -, hb⟩ := Threads.Reach.behind (Crew.From.trans h hd)
    have hwhole : o.guard.Lets R (a.state o.guard) (o.body.runSteps o.guard.step (a.state o.guard)).2 := by
      have hself : (monitors.whole o a.state).2 o.guard =
          (o.body.runSteps o.guard.step (a.state o.guard)).2 := Function.update_self ..
      rw [← hself]
      exact whole_lets hexec o hs o.guard
    have hstep : o.guard.Lets R (d.state o.guard) (o.guard.step m (d.state o.guard)).2 :=
      Guard.step_lets hrefl (hb.busy _ (List.mem_of_getElem? ht) o k _ rfl) o.body_last hwhole
    -- the part that was stepped on, and all others
    have hall : ∀ l : Guard, l.Lets R (d.state l)
        (Function.update d.state o.guard (o.guard.step m (d.state o.guard)).2 l) := by
      intro l
      by_cases hl : l = o.guard
      · subst hl
        rw [Function.update_self]
        exact hstep
      · rw [Function.update_of_ne hl]
        exact Guard.Lets.refl hrefl l _
    exact htrans _ _ _ ih (hall .database)

end Runs

end Ciphertext
