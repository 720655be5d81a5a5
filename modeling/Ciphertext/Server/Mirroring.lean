import Ciphertext.Server.Views

/-!
# Handlers that look at no message

Most handlers ask and change only what twins have in common: the accounts, the rooms,
the contacts and the connections. On two twins they make the same calls and get the
same answers, and what they send is the same frame, up to the id and the time it is
given. `Mirrors r` is the judgement, handler by handler, and each of them has one lemma
under its own name: presence and hangups, contacts and keys, registering, the rooms
(`createRoom_mirrors`, `invite_mirrors`, `join_mirrors`, `leave_mirrors`), receipts
and typing.

Those that read or write messages (LOGIN, HISTORY and MSG) are not among them. Their
two runs may do different things on the way, one of them store a longer text or
hand over something to another user, and `Isolation` compares where they end.
-/

namespace Ciphertext

open Prog MessageRouter

section Runs

variable [Runtime] {r : Str} {cfg : Config} {s : Sid} {me : Json}

/-! ## Handlers on the part that is the same -/

/-- Presence goes to the same connections. -/
theorem announce_mirrors (username : Json) (state : Str) :
    Mirrors r (fun _ _ => True) (announce username state) (announce username state) := by
  unfold announce
  refine Mirrors.bind (mirrors_frame (by simp) _ _ _) fun g g' hg => ?_
  refine Mirrors.bind_eq (mirrors_core rfl) fun others => ?_
  exact mirrors_forEach fun other _ => mirrors_send hg

/-- A hangup is announced in both, or in neither. -/
theorem onDisconnect_mirrors (s : Sid) :
    Mirrors r (fun _ _ => True) (onDisconnect s) (onDisconnect s) := by
  unfold onDisconnect
  refine Mirrors.bind_eq (mirrors_core rfl) fun u => ?_
  cases u with
  | none => exact mirrors_pure trivial
  | some u =>
    refine Mirrors.bind_eq (mirrors_core rfl) fun _ => ?_
    refine Mirrors.bind_eq (mirrors_core rfl) fun _ => ?_
    exact announce_mirrors _ _

omit [Runtime] in
/-- A call on the part that is the same, and a program of such calls behind it. -/
theorem core_bind {α : Type} {o : Op} {k : Op.Ret o → RouterM α} (ho : o.isCore = true)
    (h : ∀ a, (k a).Uses fun o : Op => o.isCore = true) :
    (Prog.call (S := routerSig) o .pure >>= k).Uses fun o : Op => o.isCore = true :=
  Uses.bind ⟨ho, fun _ => trivial⟩ h

omit [Runtime] in
/-- The contact list with its states is read from that part, -/
theorem contactStates_core (cfg : Config) (u : Json) :
    (contactStates cfg u).Uses fun o : Op => o.isCore = true := by
  unfold contactStates
  split
  · trivial
  · exact core_bind rfl fun _ => core_bind rfl fun _ => trivial

/-- and sent to the same connection. -/
theorem sendContacts_mirrors (cfg : Config) (s : Sid) :
    Mirrors r (fun _ _ => True) (sendContacts cfg s) (sendContacts cfg s) := by
  unfold sendContacts
  refine Mirrors.bind_eq (mirrors_core rfl) fun _ => ?_
  refine Mirrors.bind_eq (mirrors_core rfl) fun _ => ?_
  refine Mirrors.bind_eq (mirrors_uses (contactStates_core _ _)) fun _ => ?_
  exact mirrors_say (by simp) _ _ _ _

/-- A contact is noted once, and its owner told if online. -/
theorem noteContact_mirrors (cfg : Config) (owner other : Json) :
    Mirrors r (fun _ _ => True) (noteContact cfg owner other) (noteContact cfg owner other) := by
  unfold noteContact
  split
  · exact mirrors_pure trivial
  split
  · split
    · exact mirrors_pure trivial
    refine Mirrors.bind_eq (mirrors_core rfl) fun added => ?_
    split
    · exact mirrors_pure trivial
    refine Mirrors.bind_eq (mirrors_core rfl) fun theirs => ?_
    cases theirs with
    | none => exact mirrors_pure trivial
    | some t => exact sendContacts_mirrors cfg t
  · exact sim_raise _ _

/-- `_add_contact` is refused in both, or done in both. -/
theorem addContact_mirrors (cfg : Config) (s : Sid) (me : Json) (f : Frame) :
    Mirrors r (fun _ _ => True) (addContact cfg s me f) (addContact cfg s me f) := by
  unfold addContact
  split
  · exact mirrors_refuse _ _ _
  split
  · split
    · exact mirrors_refuse _ _ _
    split
    · exact mirrors_refuse _ _ _
    split
    · exact mirrors_refuse _ _ _
    refine Mirrors.bind_eq (mirrors_core rfl) fun known => ?_
    split
    · exact mirrors_refuse _ _ _
    refine Mirrors.bind_eq (mirrors_core rfl) fun _ => ?_
    exact sendContacts_mirrors cfg s
  · exact mirrors_refuse _ _ _

/-- So is `_remove_contact`. -/
theorem removeContact_mirrors (cfg : Config) (s : Sid) (me : Json) (f : Frame) :
    Mirrors r (fun _ _ => True) (removeContact cfg s me f) (removeContact cfg s me f) := by
  unfold removeContact
  split
  · exact mirrors_pure trivial
  refine Mirrors.bind_eq (mirrors_uses ?_) fun _ => sendContacts_mirrors cfg s
  unfold forgetContact
  split
  · split
    · trivial
    · exact ⟨rfl, fun _ => trivial⟩
  · trivial

/-- `_get_key` answers with the same key. -/
theorem getKey_mirrors (s : Sid) (f : Frame) :
    Mirrors r (fun _ _ => True) (getKey s f) (getKey s f) := by
  unfold getKey
  dsimp only
  split
  · exact mirrors_refuse _ _ _
  refine Mirrors.bind_eq (mirrors_core rfl) fun key => ?_
  cases key with
  | none => exact mirrors_refuse _ _ _
  | some key => exact mirrors_say (by simp) _ _ _ _

/-- `_register` answers the same, with the same salt drawn. -/
theorem register_mirrors (s : Sid) (f : Frame) :
    Mirrors r (fun _ _ => True) (register s f) (register s f) := by
  unfold register
  dsimp only
  split
  · exact mirrors_refuse _ _ _
  split
  · split
    · exact mirrors_refuse _ _ _
    refine Mirrors.bind_eq (mirrors_core rfl) fun stored => ?_
    split
    · exact mirrors_refuse _ _ _
    · exact mirrors_say (by simp) _ _ _ _
  · exact sim_raise _ _

/-! ## Rooms -/

/-- A room's name is lawful in both, or refused in both. -/
theorem roomName_mirrors (s : Sid) (f : Frame) :
    Mirrors r (· = ·) (roomName s f) (roomName s f) := by
  unfold roomName
  split
  · exact Mirrors.bind (mirrors_refuse _ _ _) fun _ _ _ => mirrors_pure rfl
  · exact mirrors_pure rfl

/-- A ROOM_STATE lists the same members; only its id and time are its own. -/
theorem roomState_mirrors (room : Str) :
    Mirrors r (fun g g' : Frame => g.erased = g'.erased) (roomState room) (roomState room) := by
  unfold roomState
  refine Mirrors.bind_eq (mirrors_core rfl) fun members => ?_
  exact mirrors_frame (by simp) _ _ _

/-- It goes to the same members' connections. -/
theorem broadcastRoomState_mirrors (room : Str) :
    Mirrors r (fun _ _ => True) (broadcastRoomState room) (broadcastRoomState room) := by
  unfold broadcastRoomState
  refine Mirrors.bind (roomState_mirrors room) fun g g' hg => ?_
  refine Mirrors.bind_eq (mirrors_core rfl) fun names => ?_
  refine mirrors_forEach fun name _ => ?_
  refine Mirrors.bind_eq (mirrors_core rfl) fun member => ?_
  cases member with
  | none => exact mirrors_pure trivial
  | some t => exact mirrors_send hg

/-- Joining people is about rooms and accounts only, -/
theorem joinAll_core (room : Str) (names : List Json) :
    (joinAll room names).Uses fun o : Op => o.isCore = true := by
  induction names with
  | nil => trivial
  | cons v rest ih =>
    unfold joinAll
    dsimp only
    split
    · refine core_bind rfl fun known => ?_
      split
      · exact core_bind rfl fun _ => ih.bind fun _ => trivial
      · exact ih
    · exact ih

/-- whoever was named, -/
theorem addMembers_core (room : Str) (members : Json) :
    (addMembers room members).Uses fun o : Op => o.isCore = true := by
  unfold addMembers
  split
  · exact joinAll_core room _
  · trivial

/-- and so is finding those who were not joined. -/
theorem missingNames_core (room : Str) (added : List Str) (names : List Json) :
    (missingNames room added names).Uses fun o : Op => o.isCore = true := by
  induction names with
  | nil => trivial
  | cons v rest ih =>
    unfold missingNames
    split
    · exact ih
    · refine core_bind rfl fun members => ?_
      split
      · exact ih
      · exact ih.bind fun _ => trivial

/-- `_create_room` creates, joins and tells the same. -/
theorem createRoom_mirrors (s : Sid) (me : Json) (f : Frame) :
    Mirrors r (fun _ _ => True) (createRoom s me f) (createRoom s me f) := by
  unfold createRoom
  refine Mirrors.bind_eq (roomName_mirrors s f) fun room => ?_
  cases room with
  | none => exact mirrors_pure trivial
  | some room =>
    refine Mirrors.bind_eq (mirrors_core rfl) fun created => ?_
    split
    · exact mirrors_refuse _ _ _
    refine Mirrors.bind_eq (mirrors_core rfl) fun _ => ?_
    refine Mirrors.bind_eq (mirrors_uses (addMembers_core _ _)) fun _ => ?_
    exact broadcastRoomState_mirrors room

/-- `_invite` does, and reports the same names as missing. -/
theorem invite_mirrors (s : Sid) (me : Json) (f : Frame) :
    Mirrors r (fun _ _ => True) (invite s me f) (invite s me f) := by
  unfold invite
  refine Mirrors.bind_eq (roomName_mirrors s f) fun room => ?_
  cases room with
  | none => exact mirrors_pure trivial
  | some room =>
    refine Mirrors.bind_eq (mirrors_core rfl) fun known => ?_
    split
    · exact mirrors_refuse _ _ _
    refine Mirrors.bind_eq (mirrors_core rfl) fun members => ?_
    split
    · exact mirrors_refuse _ _ _
    refine Mirrors.bind_eq (mirrors_uses (addMembers_core _ _)) fun added => ?_
    refine Mirrors.bind_eq (mirrors_uses (missingNames_core _ _ _)) fun missing => ?_
    refine Mirrors.bind (A := fun _ _ => True) ?_ fun _ _ _ => ?_
    · unfold reportMissing
      split
      · exact mirrors_pure trivial
      · exact mirrors_refuse _ _ _
    · split
      · exact broadcastRoomState_mirrors room
      · exact mirrors_pure trivial

/-- `_join` adds to the same room, -/
theorem join_mirrors (s : Sid) (me : Json) (f : Frame) :
    Mirrors r (fun _ _ => True) (join s me f) (join s me f) := by
  unfold join
  refine Mirrors.bind_eq (roomName_mirrors s f) fun room => ?_
  cases room with
  | none => exact mirrors_pure trivial
  | some room =>
    refine Mirrors.bind_eq (mirrors_core rfl) fun known => ?_
    split
    · exact mirrors_refuse _ _ _
    refine Mirrors.bind_eq (mirrors_core rfl) fun _ => ?_
    exact broadcastRoomState_mirrors room

/-- and `_leave` removes from it. -/
theorem leave_mirrors (s : Sid) (me : Json) (f : Frame) :
    Mirrors r (fun _ _ => True) (leave s me f) (leave s me f) := by
  unfold leave
  refine Mirrors.bind_eq (roomName_mirrors s f) fun room => ?_
  cases room with
  | none => exact mirrors_pure trivial
  | some room =>
    refine Mirrors.bind_eq (mirrors_core rfl) fun members => ?_
    split
    · exact mirrors_refuse _ _ _
    refine Mirrors.bind_eq (mirrors_core rfl) fun _ => ?_
    refine Mirrors.bind (broadcastRoomState_mirrors room) fun _ _ _ => ?_
    exact Mirrors.bind (roomState_mirrors room) fun _ _ hg => mirrors_send hg

/-! ## Receipts and typing -/

/-- A RECEIPT marks the message of that id in both, and is passed on to its sender in both.
-/
theorem receipt_mirrors (cfg : Config) (s : Sid) (me : Json) (f : Frame) :
    Mirrors r (fun _ _ => True) (receipt cfg s me f) (receipt cfg s me f) := by
  unfold receipt
  dsimp only
  split
  · exact mirrors_pure trivial
  split
  · exact mirrors_refuse _ _ _
  refine Mirrors.bind mirrors_nowMs fun now now' hnow => ?_
  refine Mirrors.bind_eq (mirrors_mark _ _ hnow.1 hnow.2) fun sender => ?_
  cases sender with
  | none => exact mirrors_pure trivial
  | some sender =>
    dsimp only
    split
    · exact mirrors_pure trivial
    refine Mirrors.bind_eq (mirrors_core rfl) fun recipient => ?_
    cases recipient with
    | none => exact mirrors_pure trivial
    | some t => exact mirrors_say (by simp) _ _ _ _

/-- TYPING is passed on to the same members, or the same user. -/
theorem typing_mirrors (me : Json) (f : Frame) :
    Mirrors r (fun _ _ => True) (typing me f) (typing me f) := by
  unfold typing
  split
  · exact mirrors_pure trivial
  refine Mirrors.bind (mirrors_frame (by simp) _ _ _) fun g g' hg => ?_
  split
  next target _ =>
    refine Mirrors.bind_eq (mirrors_uses ?_) fun names => mirrors_forEach fun name _ => ?_
    · unfold typingTo
      split
      · refine core_bind rfl fun members => ?_
        split <;> trivial
      · trivial
    · refine Mirrors.bind_eq (mirrors_core rfl) fun recipient => ?_
      cases recipient with
      | none => exact mirrors_pure trivial
      | some t => exact mirrors_send hg
  · exact sim_raise _ _

end Runs

end Ciphertext
