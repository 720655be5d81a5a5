import Ciphertext.Prog.Logic
import Ciphertext.Server.Runs

/-!
# What each handler can do

For every handler, the calls it can make whatever the calls before them
answered: which frames it may send, and which tables it may write. Later files
read an invariant off these instead of walking the handlers again: a handler
that never records a message cannot change what is stored, one that sends no
MSG cannot forge one.

`Op.quiet` calls only read (or draw an id or a clock reading), and every handler
may make them.

`handle_uses` is the sum of it: every frame stays within the footprint of its type
(`typePrint`), whoever sends it. Footprints are written with the names of the handlers'
own frames and calls, so that a reader can hold each of them against its handler.
-/

namespace Ciphertext

open Prog MessageRouter

/-- Calls that change nothing but the supplies of ids and readings. -/
def Op.quiet : Op → Bool
  | .newId => true
  | .nowMs => true
  | .getUsername _ => true
  | .sessionsGet _ => true
  | .sessionsUsernames => true
  | .sessionsOthers _ => true
  | .usersVerify _ _ => true
  | .usersExists _ => true
  | .usersPubkey _ => true
  | .roomsMembers _ => true
  | .roomsExists _ => true
  | .roomsOf _ => true
  | .messagesHistory _ _ _ => true
  | .contactsOf _ => true
  | _ => false

/-- What a handler may do besides reading. -/
structure Footprint where
  sends : Sid → Frame → Prop
  writes : Op → Prop := fun _ => False

namespace Footprint

/-- The calls a footprint allows. -/
def allows (F : Footprint) (o : Op) : Prop :=
  o.quiet = true ∨ F.writes o ∨ ∃ s f, o = .send s f ∧ F.sends s f

variable {F G : Footprint} {α : Type}

/-- A frame that may be sent. -/
theorem send {s : Sid} {f : Frame} (h : F.sends s f) : F.allows (.send s f) :=
  .inr (.inr ⟨s, f, rfl, h⟩)

/-- A store call that may be made. -/
theorem write {o : Op} (h : F.writes o) : F.allows o := .inr (.inl h)

/-- A handler's footprint may be read as any larger one. -/
theorem weaken {p : RouterM α} (h : p.Uses F.allows) (hs : ∀ s f, F.sends s f → G.sends s f)
    (hw : ∀ o, F.writes o → G.writes o) : p.Uses G.allows :=
  h.mono fun o ho => by
    rcases ho with hq | hq | ⟨s, f, rfl, hq⟩
    · exact .inl hq
    · exact write (hw o hq)
    · exact send (hs s f hq)

/-- Building a frame draws an id and a reading; the rest sees the frame. -/
theorem frame_bind {t : MessageType} {sender target : Json} {data : Dict} {k : Frame → RouterM α}
    (h : ∀ id ts, (k { type := t, sender, target, data, id := .str id, ts }).Uses F.allows) :
    (frame t sender target data >>= k).Uses F.allows :=
  ⟨.inl rfl, fun id => ⟨.inl rfl, fun ts => h id ts⟩⟩

/-- Building a frame and sending it. -/
theorem send_frame {s : Sid} {t : MessageType} {sender target : Json} {data : Dict}
    (h : ∀ id ts, F.sends s { type := t, sender, target, data, id := .str id, ts }) :
    (frame t sender target data >>= fun g => MessageRouter.send s g).Uses F.allows :=
  frame_bind fun id ts => ⟨send (h id ts), fun _ => trivial⟩

/-- Refusing sends one ERROR. -/
theorem refuse {s : Sid} {code message : Str} (h : ∀ g, g.type = .error → F.sends s g) :
    (refuse s code message).Uses F.allows :=
  send_frame fun _ _ => h _ rfl

/-- What only computes calls nothing. -/
theorem lift {e : Except PyErr α} : (lift e).Uses F.allows := by
  cases e <;> trivial

/-- One call that only reads, then the rest. -/
theorem quiet_bind {o : Op} {k : Op.Ret o → RouterM α} (ho : o.quiet = true)
    (h : ∀ r, (k r).Uses F.allows) :
    ((Prog.call (S := routerSig) o .pure : RouterM (Op.Ret o)) >>= k).Uses F.allows :=
  ⟨.inl ho, h⟩

/-- One write, then the rest. -/
theorem write_bind {o : Op} {k : Op.Ret o → RouterM α} (ho : F.writes o)
    (h : ∀ r, (k r).Uses F.allows) :
    ((Prog.call (S := routerSig) o .pure : RouterM (Op.Ret o)) >>= k).Uses F.allows :=
  ⟨write ho, h⟩

end Footprint

section Handlers

variable {F : Footprint}

/-! ## Presence, contacts, accounts -/

/-- `_announce` sends PRESENCE, to anybody. -/
theorem announce_uses {username : Json} {state : Str}
    (h : ∀ s g, g.type = .presence → F.sends s g) : (announce username state).Uses F.allows := by
  unfold announce
  refine Footprint.frame_bind fun id ts => Footprint.quiet_bind rfl fun others => ?_
  exact uses_forEach fun other _ => ⟨Footprint.send (h _ _ rfl), fun _ => trivial⟩

/-- A hangup takes the session out of the registry and announces it. -/
theorem onDisconnect_uses (s : Sid) :
    (onDisconnect s).Uses (Footprint.allows
      { sends := fun _ g => g.type = .presence
        writes := fun o => (∃ u, o = .sessionsLogout u) ∨ o = .setUsername s none }) := by
  unfold onDisconnect
  refine Footprint.quiet_bind rfl fun u => ?_
  cases u with
  | none => trivial
  | some username =>
    refine Footprint.write_bind (.inl ⟨_, rfl⟩) fun _ => Footprint.write_bind (.inr rfl) fun _ => ?_
    exact announce_uses fun _ _ h => h

/-- Listing the contacts reads. -/
theorem contactStates_uses (cfg : Config) (username : Json) :
    (contactStates cfg username).Uses F.allows := by
  unfold contactStates
  split
  · trivial
  · exact Footprint.quiet_bind rfl fun _ => Footprint.quiet_bind rfl fun _ => trivial

/-- Sending the list is one CONTACTS frame, -/
theorem sendContacts_uses (cfg : Config) {s : Sid} (h : ∀ g, g.type = .contacts → F.sends s g) :
    (sendContacts cfg s).Uses F.allows := by
  unfold sendContacts
  refine Footprint.quiet_bind rfl fun _ => Footprint.quiet_bind rfl fun _ => ?_
  exact (contactStates_uses cfg _).bind fun _ => Footprint.send_frame fun _ _ => h _ rfl

/-- and noting a contact one more row before it. -/
theorem noteContact_uses (cfg : Config) {owner other : Json}
    (hs : ∀ s g, g.type = .contacts → F.sends s g) (hw : F.writes (.contactsAdd owner other)) :
    (noteContact cfg owner other).Uses F.allows := by
  unfold noteContact
  split
  · trivial
  · split
    · split
      · trivial
      · refine Footprint.write_bind hw fun added => ?_
        split
        · trivial
        · refine Footprint.quiet_bind rfl fun theirs => ?_
          cases theirs with
          | none => trivial
          | some theirs => exact sendContacts_uses cfg (hs theirs)
    · trivial

/-- Answers to the asker alone. -/
def answers (s : Sid) (types : List MessageType) : Sid → Frame → Prop :=
  fun t g => t = s ∧ g.type ∈ types

/-- An ERROR to the session itself is an answer. -/
theorem answers_error {s : Sid} {types : List MessageType} (h : .error ∈ types) (g : Frame)
    (hg : g.type = .error) : answers s types s g := ⟨rfl, hg ▸ h⟩

/-- ADD_CONTACT answers the session and writes its own list. -/
theorem addContact_uses (cfg : Config) (s : Sid) (me : Json) (f : Frame) :
    (addContact cfg s me f).Uses (Footprint.allows
      { sends := answers s [.error, .contacts]
        writes := fun o => ∃ a b, o = .contactsAdd a b }) := by
  have hr : ∀ g : Frame, g.type = .error → answers s [.error, .contacts] s g :=
    answers_error (by simp)
  unfold addContact
  split
  · exact Footprint.refuse hr
  · split
    · split
      · exact Footprint.refuse hr
      · split
        · exact Footprint.refuse hr
        · split
          · exact Footprint.refuse hr
          · refine Footprint.quiet_bind rfl fun known => ?_
            split
            · exact Footprint.refuse hr
            · refine Footprint.write_bind ⟨_, _, rfl⟩ fun _ => ?_
              exact sendContacts_uses cfg fun g hg => ⟨rfl, by simp [hg]⟩
    · exact Footprint.refuse hr

/-- So does REMOVE_CONTACT. -/
theorem removeContact_uses (cfg : Config) (s : Sid) (me : Json) (f : Frame) :
    (removeContact cfg s me f).Uses (Footprint.allows
      { sends := answers s [.contacts]
        writes := fun o => ∃ a b, o = .contactsRemove a b }) := by
  unfold removeContact
  split
  · trivial
  · refine Uses.bind ?_ fun _ => sendContacts_uses cfg fun g hg => ⟨rfl, by simp [hg]⟩
    unfold forgetContact
    split
    · split
      · trivial
      · exact ⟨Footprint.write ⟨_, _, rfl⟩, fun _ => trivial⟩
    · trivial

variable [Runtime]

/-- GET_KEY writes nothing. -/
theorem getKey_uses (s : Sid) (f : Frame) :
    (getKey s f).Uses (Footprint.allows { sends := answers s [.error, .key] }) := by
  have hr : ∀ g : Frame, g.type = .error → answers s [.error, .key] s g := answers_error (by simp)
  unfold getKey
  extract_lets user
  split
  · exact Footprint.refuse hr
  · refine Footprint.quiet_bind rfl fun pubkey => ?_
    cases pubkey with
    | none => exact Footprint.refuse hr
    | some pubkey => exact Footprint.send_frame fun _ _ => ⟨rfl, by simp⟩

omit [Runtime] in
/-- REGISTER writes one account. -/
theorem register_uses (s : Sid) (f : Frame) :
    (register s f).Uses (Footprint.allows
      { sends := answers s [.error, .ok]
        writes := fun o => ∃ u p k, o = .usersRegister u p k }) := by
  have hr : ∀ g : Frame, g.type = .error → answers s [.error, .ok] s g := answers_error (by simp)
  unfold register
  dsimp only
  split
  · exact Footprint.refuse hr
  · split
    · split
      · exact Footprint.refuse hr
      · refine Footprint.write_bind ⟨_, _, _, rfl⟩ fun created => ?_
        split
        · exact Footprint.refuse hr
        · exact Footprint.send_frame fun _ _ => ⟨rfl, by simp⟩
    · trivial

/-- Logging in is the one place that claims a name, sets a `username`, hands
over stored messages and empties a queue. -/
theorem flushPending_uses (cfg : Config) (s : Sid) (username : Json)
    (hs : ∀ g : Frame, g.type = .msg → F.sends s g) (hw : F.writes (.messagesFlush username)) :
    (flushPending cfg s username).Uses F.allows := by
  unfold flushPending
  split
  · trivial
  · refine Footprint.write_bind hw fun rows => uses_forEach fun row _ => ?_
    refine Uses.bind Footprint.lift fun entry => ?_
    cases entry with
    | none => trivial
    | some entry => exact ⟨Footprint.send (hs _ rfl), fun _ => trivial⟩

/-- The footprint of a LOGIN. -/
def loginPrint (s : Sid) (username : Json) : Footprint where
  sends t g := (t = s ∧ (g.type = .error ∨ g.type = .loginOk ∨ g.type = .msg)) ∨ g.type = .presence
  writes o := o = .sessionsLogin username s ∨ o = .setUsername s (some username) ∨
    o = .messagesFlush username

omit [Runtime] in
/-- The greeting is one LOGIN_OK. -/
theorem greet_uses (cfg : Config) (s : Sid) (username : Json)
    (h : ∀ g : Frame, g.type = .loginOk → F.sends s g) : (greet cfg s username).Uses F.allows := by
  unfold greet
  refine Footprint.quiet_bind rfl fun _ => (contactStates_uses cfg username).bind fun _ => ?_
  exact Footprint.quiet_bind rfl fun _ => Footprint.send_frame fun _ _ => h _ rfl

/-- What follows a login is part of what a login may do. -/
theorem welcome_uses (cfg : Config) (s : Sid) (username : Json) :
    (welcome cfg s username).Uses (loginPrint s username).allows := by
  unfold welcome
  refine Footprint.write_bind (.inr (.inl rfl)) fun _ => ?_
  refine Uses.bind (greet_uses cfg s username fun _ h => .inl ⟨rfl, .inr (.inl h)⟩) fun _ => ?_
  refine Uses.bind (announce_uses fun _ _ h => .inr h) fun _ => ?_
  exact flushPending_uses cfg s username (fun _ h => .inl ⟨rfl, .inr (.inr h)⟩) (.inr (.inr rfl))

/-- LOGIN writes the registry and the session's own name, and empties its own queue. -/
theorem login_uses (cfg : Config) (s : Sid) (f : Frame) :
    (login cfg s f).Uses (loginPrint s (f.get "user")).allows := by
  have hr : ∀ g : Frame, g.type = .error → (loginPrint s (f.get "user")).sends s g :=
    fun g hg => .inl ⟨rfl, .inl hg⟩
  unfold login
  refine Footprint.quiet_bind rfl fun current => ?_
  cases current with
  | some _ => exact Footprint.refuse hr
  | none =>
    dsimp only
    split
    · exact Footprint.refuse hr
    · refine Footprint.quiet_bind rfl fun verified => ?_
      split
      · exact Footprint.refuse hr
      · refine Footprint.write_bind (.inl rfl) fun claimed => ?_
        split
        · exact Footprint.refuse hr
        · exact welcome_uses cfg s (f.get "user")

/-! ## Rooms -/

/-- The footprint of the room handlers: refusals to the asker, ROOM_STATE to
anybody, and the writes each of them names. -/
def roomPrint (s : Sid) (writes : Op → Prop) : Footprint where
  sends t g := (t = s ∧ g.type = .error) ∨ g.type = .roomState
  writes := writes

omit [Runtime] in
/-- A handler goes on with the name of a room only if it is a valid one. -/
theorem roomName_bind {α : Type} {s : Sid} {f : Frame} {k : Option Str → RouterM α}
    (h : ∀ g : Frame, g.type = .error → F.sends s g) (hn : (k none).Uses F.allows)
    (hk : ∀ room, roomProblem (f.get "room") = .ok room → (k (some room)).Uses F.allows) :
    (roomName s f >>= k).Uses F.allows := by
  unfold roomName
  split
  · rw [bind_assoc']
    exact (Footprint.refuse h).bind fun _ => hn
  next room hr => exact hk room hr

omit [Runtime] in
/-- A room's state goes to its members. -/
theorem broadcastRoomState_uses (room : Str)
    (h : ∀ (s : Sid) (g : Frame), g.type = .roomState → F.sends s g) :
    (broadcastRoomState room).Uses F.allows := by
  unfold broadcastRoomState roomState
  refine Footprint.quiet_bind rfl fun members => Footprint.frame_bind fun id ts => ?_
  refine Footprint.quiet_bind rfl fun names => uses_forEach fun name _ => ?_
  refine Footprint.quiet_bind rfl fun member => ?_
  cases member with
  | none => trivial
  | some member => exact ⟨Footprint.send (h _ _ rfl), fun _ => trivial⟩

/-- Joining everyone named writes memberships, -/
theorem joinAll_uses (room : Str) (names : List Json)
    (h : ∀ name, F.writes (.roomsJoin room (.str name))) : (joinAll room names).Uses F.allows := by
  induction names with
  | nil => trivial
  | cons v rest ih =>
    unfold joinAll
    dsimp only
    split
    · refine Footprint.quiet_bind rfl fun known => ?_
      split
      · exact Footprint.write_bind (h _) fun _ => ih.bind fun _ => trivial
      · exact ih
    · exact ih

/-- the form of the list being no matter. -/
theorem addMembers_uses (room : Str) (members : Json)
    (h : ∀ name, F.writes (.roomsJoin room (.str name))) :
    (addMembers room members).Uses F.allows := by
  unfold addMembers
  split
  · exact joinAll_uses room _ h
  · trivial

/-- Looking for those who have no account reads. -/
theorem missingNames_uses (room : Str) (added : List Str) (names : List Json) :
    (missingNames room added names).Uses F.allows := by
  induction names with
  | nil => trivial
  | cons v rest ih =>
    unfold missingNames
    split
    · exact ih
    · refine Footprint.quiet_bind rfl fun members => ?_
      split
      · exact ih
      · exact ih.bind fun _ => trivial

omit [Runtime] in
/-- They are reported in one ERROR. -/
theorem reportMissing_uses (s : Sid) (missing : List Str)
    (h : ∀ g : Frame, g.type = .error → F.sends s g) : (reportMissing s missing).Uses F.allows := by
  unfold reportMissing
  split
  · trivial
  · exact Footprint.refuse h

/-- CREATE_ROOM writes the room and the memberships of those named. -/
theorem createRoom_uses (s : Sid) (me : Json) (f : Frame) :
    (createRoom s me f).Uses (roomPrint s fun o =>
      (∃ room, o = .roomsCreate room) ∨
        ∃ room u, o = .roomsJoin room u ∧ (u = me ∨ u.asStr.isSome) ∧
          roomProblem (f.get "room") = .ok room).allows := by
  unfold createRoom
  refine roomName_bind (fun _ h => .inl ⟨rfl, h⟩) trivial fun room hr => ?_
  refine Footprint.write_bind (.inl ⟨_, rfl⟩) fun created => ?_
  split
  · exact Footprint.refuse fun _ h => .inl ⟨rfl, h⟩
  · refine Footprint.write_bind (.inr ⟨_, _, rfl, .inl rfl, hr⟩) fun _ => ?_
    refine Uses.bind (addMembers_uses room _ fun _ => .inr ⟨_, _, rfl, .inr rfl, hr⟩) fun _ => ?_
    exact broadcastRoomState_uses room fun _ _ h => .inr h

/-- INVITE writes memberships. -/
theorem invite_uses (s : Sid) (me : Json) (f : Frame) :
    (invite s me f).Uses (roomPrint s fun o =>
      ∃ room u, o = .roomsJoin room u ∧ u.asStr.isSome ∧
        roomProblem (f.get "room") = .ok room).allows := by
  have hr : ∀ g : Frame, g.type = .error →
      (roomPrint s fun o => ∃ room u, o = .roomsJoin room u ∧ u.asStr.isSome ∧
        roomProblem (f.get "room") = .ok room).sends s g :=
    fun _ h => .inl ⟨rfl, h⟩
  unfold invite
  refine roomName_bind hr trivial fun room hroom => ?_
  refine Footprint.quiet_bind rfl fun known => ?_
  split
  · exact Footprint.refuse hr
  · refine Footprint.quiet_bind rfl fun members => ?_
    split
    · exact Footprint.refuse hr
    · refine Uses.bind (addMembers_uses room _ fun _ => ⟨_, _, rfl, rfl, hroom⟩) fun added => ?_
      refine Uses.bind (missingNames_uses room added _) fun missing => ?_
      refine Uses.bind (reportMissing_uses s missing hr) fun _ => ?_
      split
      · exact broadcastRoomState_uses room fun _ _ h => .inr h
      · trivial

omit [Runtime] in
/-- JOIN_ROOM writes one's own. -/
theorem join_uses (s : Sid) (me : Json) (f : Frame) :
    (join s me f).Uses (roomPrint s fun o => ∃ room, o = .roomsJoin room me ∧
      roomProblem (f.get "room") = .ok room).allows := by
  unfold join
  refine roomName_bind (fun _ h => .inl ⟨rfl, h⟩) trivial fun room hr => ?_
  refine Footprint.quiet_bind rfl fun known => ?_
  split
  · exact Footprint.refuse fun _ h => .inl ⟨rfl, h⟩
  · refine Footprint.write_bind ⟨_, rfl, hr⟩ fun _ => ?_
    exact broadcastRoomState_uses room fun _ _ h => .inr h

omit [Runtime] in
/-- LEAVE_ROOM removes it. -/
theorem leave_uses (s : Sid) (me : Json) (f : Frame) :
    (leave s me f).Uses (roomPrint s fun o => ∃ room, o = .roomsLeave room me).allows := by
  unfold leave
  refine roomName_bind (fun _ h => .inl ⟨rfl, h⟩) trivial fun room _ => ?_
  refine Footprint.quiet_bind rfl fun members => ?_
  split
  · exact Footprint.refuse fun _ h => .inl ⟨rfl, h⟩
  · refine Footprint.write_bind ⟨_, rfl⟩ fun _ => ?_
    refine Uses.bind (broadcastRoomState_uses room fun _ _ h => .inr h) fun _ => ?_
    unfold roomState
    exact Footprint.quiet_bind rfl fun _ => Footprint.send_frame fun _ _ => .inr rfl

/-! ## Delivery -/

/-- A MSG frame relayed for `f`: the session's name, and the submitted target,
id and timestamp. -/
structure Relayed (me : Json) (f g : Frame) : Prop where
  type : g.type = .msg
  sender : g.sender = me
  target : g.target = f.target
  id : g.id = f.id
  ts : g.ts = f.ts

/-- The write that stores a MSG: who, where to, under which id and when come
from the session and the frame; the content is the frame's own, or the whole
map of a room message with envelopes. -/
inductive Recorded (me : Json) (f : Frame) : Op → Prop
  | plain {conversation recipient : Str} (ht : f.target = .str recipient) :
      Recorded me f
        (.messagesRecord f.id conversation (orEmpty me) recipient f.body f.nonce f.ts)
  | envelopes {room : Str} {env : Dict} (ht : f.target = .str room)
      (hr : room.startsWith roomPrefix = true) (he : f.get "env" = .dict env) :
      Recorded me f
        (.messagesRecord f.id room (orEmpty me) room (.str (Runtime.dumps (.dict env)))
          (.str Ciphertext.envelopes) f.ts)

/-- The footprint of a MSG, whose answers to the sender are of the given types. -/
def relayPrint (types : List MessageType) (s : Sid) (me : Json) (f : Frame) : Footprint where
  sends t g := answers s types t g ∨ g.type = .contacts ∨ Relayed me f g
  writes o := Recorded me f o ∨ (∃ name, o = .messagesQueueFor name f.id) ∨
    ∃ a b, o = .contactsAdd a b

/-- Delivering a MSG answers its sender only to refuse it. -/
abbrev deliverPrint : Sid → Json → Frame → Footprint := relayPrint [.error]

/-- The ACK comes after. -/
abbrev messagePrint : Sid → Json → Frame → Footprint := relayPrint [.error, .ack]

omit [Runtime] in
/-- A message is sent, or queued under its id. -/
theorem handOver_uses (recipient : Option Sid) (name : Str) (g : Frame)
    (hs : ∀ s, F.sends s g) (hw : F.writes (.messagesQueueFor name g.id)) :
    (handOver recipient name g).Uses F.allows := by
  cases recipient with
  | none => exact ⟨Footprint.write hw, fun _ => trivial⟩
  | some s => exact ⟨Footprint.send (hs s), fun _ => trivial⟩

/-- What `addressedTo` keeps of the frame it splits. -/
theorem addressedTo_relayed {me : Json} {f g : Frame} {env : Option Dict} {name : Str}
    (h : addressedTo (outgoing me f) env name = some g) : Relayed me f g := by
  unfold addressedTo at h
  split at h
  · obtain rfl := Option.some.inj h
    exact ⟨rfl, rfl, rfl, rfl, rfl⟩
  · split at h
    · obtain rfl := Option.some.inj h
      exact ⟨rfl, rfl, rfl, rfl, rfl⟩
    · cases h

/-- Between two users it is stored, handed over, and each is noted as the other's contact.
-/
theorem toUser_uses (cfg : Config) (s : Sid) (me : Json) (f : Frame) {target : Str}
    (ht : f.target = .str target) :
    (toUser cfg s me target (outgoing me f)).Uses (deliverPrint s me f).allows := by
  unfold toUser
  refine Footprint.quiet_bind rfl fun recipient => Uses.bind ?_ fun ok => ?_
  · unfold reachable
    split
    · trivial
    · split
      · trivial
      · exact ⟨.inl rfl, fun _ => trivial⟩
  · split
    · refine Uses.bind (Footprint.refuse fun g hg => .inl ⟨rfl, by simp [hg]⟩) fun _ => trivial
    · refine Uses.bind Footprint.lift fun conversation => Uses.bind ?_ fun _ => ?_
      · unfold record
        split
        · trivial
        · exact ⟨Footprint.write (.inl (.plain ht)), fun _ => trivial⟩
      · refine Uses.bind ?_ fun _ => Uses.bind ?_ fun _ => Uses.bind ?_ fun _ => trivial
        · exact noteContact_uses cfg (fun _ _ hg => .inr (.inl hg)) (.inr (.inr ⟨_, _, rfl⟩))
        · exact noteContact_uses cfg (fun _ _ hg => .inr (.inl hg)) (.inr (.inr ⟨_, _, rfl⟩))
        · exact handOver_uses recipient target _
            (fun _ => .inr (.inr ⟨rfl, rfl, rfl, rfl, rfl⟩)) (.inr (.inl ⟨_, rfl⟩))

/-- The fan-out of a room message: it sends copies, queues for those away, and stores it once. -/
theorem toRoom_uses (cfg : Config) (s : Sid) (me : Json) (f : Frame) {room : Str}
    (ht : f.target = .str room) (hroom : room.startsWith roomPrefix = true)
    (hr : ∀ g : Frame, g.type = .error → F.sends s g) (hcopy : ∀ t g, Relayed me f g → F.sends t g)
    (hrec : ∀ o, Recorded me f o → F.writes o) (hqueue : ∀ name, F.writes (.messagesQueueFor name f.id)) :
    (toRoom cfg s me room (outgoing me f) (f.get "env").asDict).Uses F.allows := by
  unfold toRoom
  refine Footprint.quiet_bind rfl fun known => ?_
  split
  · exact Uses.bind (Footprint.refuse hr) fun _ => trivial
  · refine Footprint.quiet_bind rfl fun members => ?_
    split
    · exact Uses.bind (Footprint.refuse hr) fun _ => trivial
    · refine Uses.bind ?_ fun _ => Uses.bind (uses_forEach fun name _ => ?_) fun _ => trivial
      · unfold recordRoom recordEnvelopes record
        split
        next env he =>
          split
          · trivial
          · have he : f.get "env" = .dict env := by
              cases hj : f.get "env" <;> simp_all [Json.asDict]
            exact ⟨Footprint.write (hrec _ (.envelopes ht hroom he)), fun _ => trivial⟩
        next =>
          split
          · trivial
          · exact ⟨Footprint.write (hrec _ (.plain ht)), fun _ => trivial⟩
      · unfold deliverTo
        split
        · trivial
        · refine Footprint.quiet_bind rfl fun member => ?_
          split
          · trivial
          next addressed ha =>
            have hrel := addressedTo_relayed ha
            split
            · trivial
            · refine handOver_uses member name addressed (fun t => hcopy t _ hrel) ?_
              rw [hrel.id]
              exact hqueue name

/-- Both kinds of delivery stay within one print. -/
theorem deliver_uses (cfg : Config) (s : Sid) (me : Json) (f : Frame) {target : Str}
    (ht : f.target = .str target) :
    (deliver cfg s me target f).Uses (deliverPrint s me f).allows := by
  unfold deliver
  split
  next hroom =>
    exact toRoom_uses cfg s me f ht hroom (fun g hg => .inl ⟨rfl, by simp [hg]⟩) (fun _ _ h => .inr (.inr h))
      (fun _ h => .inl h) fun name => .inr (.inl ⟨name, rfl⟩)
  next => exact toUser_uses cfg s me f ht

/-- MSG answers with an ACK or an ERROR besides. -/
theorem message_uses (cfg : Config) (s : Sid) (me : Json) (f : Frame) :
    (message cfg s me f).Uses (messagePrint s me f).allows := by
  unfold message
  split
  · exact Footprint.refuse fun g hg => .inl ⟨rfl, by simp [hg]⟩
  · split
    next target ht =>
      refine Uses.bind (Footprint.weaken (deliver_uses cfg s me f ht) ?_ fun _ ho => ho) fun ok => ?_
      · intro t g hg
        rcases hg with ⟨rfl, hg⟩ | hg
        · exact .inl ⟨rfl, by simpa using .inl (List.mem_singleton.mp hg)⟩
        · exact .inr hg
      · split
        · exact Footprint.send_frame fun _ _ => .inl ⟨rfl, by simp⟩
        · trivial
    next => trivial

/-! ## Scrollback, receipts, typing -/

/-- HISTORY writes nothing. -/
theorem history_uses (cfg : Config) (s : Sid) (me : Json) (f : Frame) :
    (history cfg s me f).Uses (Footprint.allows
      { sends := answers s [.error, .historyResult] }) := by
  have hr : ∀ g : Frame, g.type = .error → answers s [.error, .historyResult] s g :=
    answers_error (by simp)
  unfold history
  split
  · exact Footprint.refuse hr
  · split
    · exact Footprint.refuse hr
    · refine Uses.bind ?_ fun conversation => ?_
      · unfold conversationOf
        split
        · refine Footprint.quiet_bind rfl fun members => ?_
          split
          · exact Uses.bind (Footprint.refuse hr) fun _ => trivial
          · trivial
        · exact Uses.bind Footprint.lift fun _ => trivial
      · cases conversation with
        | none => trivial
        | some conversation =>
          refine Uses.bind Footprint.lift fun before => Uses.bind Footprint.lift fun limit => ?_
          refine Footprint.quiet_bind rfl fun rows => Uses.bind Footprint.lift fun messages => ?_
          exact Footprint.send_frame fun _ _ => ⟨rfl, by simp⟩

/-- RECEIPT stamps a message and passes the frame on under the session's name. -/
theorem receipt_uses (cfg : Config) (s : Sid) (me : Json) (f : Frame) :
    (receipt cfg s me f).Uses (Footprint.allows
      { sends := fun t g => answers s [.error] t g ∨ (g.type = .receipt ∧ g.sender = me)
        writes := fun o => ∃ id state now, o = .messagesMark id state now }) := by
  unfold receipt
  dsimp only
  split
  · trivial
  · split
    · exact Footprint.refuse fun g hg => .inl (answers_error (by simp) g hg)
    · refine Footprint.quiet_bind rfl fun now => Footprint.write_bind ⟨_, _, _, rfl⟩ fun sender => ?_
      cases sender with
      | none => trivial
      | some sender =>
        dsimp only
        split
        · trivial
        · refine Footprint.quiet_bind rfl fun recipient => ?_
          cases recipient with
          | none => trivial
          | some recipient => exact Footprint.send_frame fun _ _ => .inr ⟨rfl, rfl⟩

omit [Runtime] in
/-- TYPING writes nothing. -/
theorem typing_uses (me : Json) (f : Frame) :
    (typing me f).Uses (Footprint.allows
      { sends := fun _ g => g.type = .typing ∧ g.sender = me }) := by
  unfold typing
  split
  · trivial
  · refine Footprint.frame_bind fun id ts => ?_
    split
    · refine Uses.bind ?_ fun recipients => uses_forEach fun name _ => ?_
      · unfold typingTo
        split
        · refine Footprint.quiet_bind rfl fun members => ?_
          split <;> trivial
        · trivial
      · refine Footprint.quiet_bind rfl fun recipient => ?_
        cases recipient with
        | none => trivial
        | some recipient => exact ⟨Footprint.send ⟨rfl, rfl⟩, fun _ => trivial⟩
    · trivial

/-! ## All handlers at once -/

end Handlers

/-- The writes a request of each type may lead to. -/
def MessageType.writes : MessageType → Op → Bool
  | .register, .usersRegister _ _ _ => true
  | .login, .sessionsLogin _ _ => true
  | .login, .setUsername _ (some _) => true
  | .login, .messagesFlush _ => true
  | .msg, .messagesRecord _ _ _ _ _ _ _ => true
  | .msg, .messagesQueueFor _ _ => true
  | .msg, .contactsAdd _ _ => true
  | .createRoom, .roomsCreate _ => true
  | .createRoom, .roomsJoin _ _ => true
  | .invite, .roomsJoin _ _ => true
  | .join, .roomsJoin _ _ => true
  | .leave, .roomsLeave _ _ => true
  | .addContact, .contactsAdd _ _ => true
  | .removeContact, .contactsRemove _ _ => true
  | .receipt, .messagesMark _ _ _ => true
  | _, _ => false

/-- The frames a request of each type may put in anybody's outbox, apart from
an ERROR. -/
def MessageType.yields : MessageType → List MessageType
  | .ping => [.pong]
  | .register => [.ok]
  | .login => [.loginOk, .presence, .msg]
  | .msg => [.ack, .contacts, .msg]
  | .createRoom => [.roomState]
  | .invite => [.roomState]
  | .join => [.roomState]
  | .leave => [.roomState]
  | .addContact => [.contacts]
  | .removeContact => [.contacts]
  | .typing => [.typing]
  | .receipt => [.receipt]
  | .history => [.historyResult]
  | .getKey => [.key]
  | _ => []

/-- What a request may do, by its type alone. -/
def typePrint (t : MessageType) : Footprint where
  sends _ g := g.type ∈ .error :: t.yields
  writes o := t.writes o = true

variable [Runtime]

/-- Every handler stays within the print of its frame type. -/
theorem dispatch_uses (cfg : Config) (s : Sid) (me : Json) (f : Frame) :
    (dispatch cfg s me f).Uses (typePrint f.type).allows := by
  have hr : ∀ g : Frame, g.type = .error → (typePrint f.type).sends s g := fun g hg => by
    simp [typePrint, hg]
  unfold dispatch
  split
  next h =>
    rw [h]
    refine Footprint.weaken (message_uses cfg s me f) ?_ ?_
    · rintro t g (⟨-, hg⟩ | hg | hg)
      · simp only [List.mem_cons, List.not_mem_nil, or_false] at hg
        rcases hg with hg | hg <;> simp [typePrint, hg, MessageType.yields]
      · simp [typePrint, hg, MessageType.yields]
      · simp [typePrint, hg.type, MessageType.yields]
    · rintro o (ho | ⟨_, rfl⟩ | ⟨_, _, rfl⟩)
      · cases ho <;> rfl
      · rfl
      · rfl
  next h =>
    rw [h]
    refine Footprint.weaken (createRoom_uses s me f) ?_ ?_
    · rintro t g (⟨-, hg⟩ | hg) <;> simp [typePrint, hg, MessageType.yields]
    · rintro o (⟨_, rfl⟩ | ⟨_, _, rfl, -⟩) <;> rfl
  next h =>
    rw [h]
    refine Footprint.weaken (join_uses s me f) ?_ ?_
    · rintro t g (⟨-, hg⟩ | hg) <;> simp [typePrint, hg, MessageType.yields]
    · rintro o ⟨_, rfl, -⟩; rfl
  next h =>
    rw [h]
    refine Footprint.weaken (leave_uses s me f) ?_ ?_
    · rintro t g (⟨-, hg⟩ | hg) <;> simp [typePrint, hg, MessageType.yields]
    · rintro o ⟨_, rfl⟩; rfl
  next h =>
    rw [h]
    refine Footprint.weaken (invite_uses s me f) ?_ ?_
    · rintro t g (⟨-, hg⟩ | hg) <;> simp [typePrint, hg, MessageType.yields]
    · rintro o ⟨_, _, rfl, -⟩; rfl
  next h =>
    rw [h]
    refine Footprint.weaken (addContact_uses cfg s me f) ?_ ?_
    · rintro t g ⟨-, hg⟩; simpa [typePrint, MessageType.yields] using hg
    · rintro o ⟨_, _, rfl⟩; rfl
  next h =>
    rw [h]
    refine Footprint.weaken (removeContact_uses cfg s me f) ?_ ?_
    · rintro t g ⟨-, hg⟩; exact List.mem_cons_of_mem _ hg
    · rintro o ⟨_, _, rfl⟩; rfl
  next h =>
    rw [h]
    refine Footprint.weaken (typing_uses me f) ?_ fun o ho => ho.elim
    rintro t g ⟨hg, -⟩; simp [typePrint, hg, MessageType.yields]
  next h =>
    rw [h]
    refine Footprint.weaken (receipt_uses cfg s me f) ?_ ?_
    · rintro t g (⟨-, hg⟩ | ⟨hg, -⟩)
      · simp only [List.mem_cons, List.not_mem_nil, or_false] at hg
        simp [typePrint, hg]
      · simp [typePrint, hg, MessageType.yields]
    · rintro o ⟨_, _, _, rfl⟩; rfl
  next h =>
    rw [h]
    refine Footprint.weaken (history_uses cfg s me f) ?_ fun o ho => ho.elim
    rintro t g ⟨-, hg⟩; exact hg
  next h =>
    rw [h]
    refine Footprint.weaken (getKey_uses s f) ?_ fun o ho => ho.elim
    rintro t g ⟨-, hg⟩; exact hg
  next => exact Footprint.refuse hr

/-- So does `handle`, the check of the login included. -/
theorem handle_uses (cfg : Config) (s : Sid) (f : Frame) :
    (handle cfg s f).Uses (typePrint f.type).allows := by
  unfold handle
  split
  next h => exact h ▸ Footprint.send_frame fun _ _ => by simp [typePrint, MessageType.yields]
  next h =>
    rw [h]
    refine Footprint.weaken (register_uses s f) ?_ ?_
    · rintro t g ⟨-, hg⟩; exact hg
    · rintro o ⟨_, _, _, rfl⟩; rfl
  next h =>
    rw [h]
    refine Footprint.weaken (login_uses cfg s f) ?_ ?_
    · rintro t g (⟨-, hg | hg | hg⟩ | hg) <;> simp [typePrint, hg, MessageType.yields]
    · rintro o (rfl | rfl | rfl) <;> rfl
  next =>
    refine Footprint.quiet_bind rfl fun me => ?_
    cases me with
    | none => exact Footprint.refuse fun g hg => by simp [typePrint, hg]
    | some me => exact dispatch_uses cfg s me f

end Ciphertext
