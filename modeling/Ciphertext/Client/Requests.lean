import Ciphertext.Client.ReadReports

/-!
# Open requests

`open_conversation` and `open_room` ask the server first and open what it confirms. A reply
says nothing of the request it answers, and the controller has one slot for a person and one
for a room: what is asked for next takes the slot, and whatever is refused clears it.

`Dialogue` is a controller and its server: requests on their way, and replies on the way
back, in the order of the requests. `kept_iff` says in which runs a refusal is only taken
for the request it answers, and `serial_refusalsMatch` that those in which requests do not
overlap are such runs.

`RefusalsMatch` is a condition on the slots before each refusal comes in: ROOM_EXISTS
finds the room that was to be created, and a refusal that clears a slot does not find in
it what another request, still to be confirmed, has put there. `joins_iff` is where it
matters most: ROOM_EXISTS makes the controller join the room in the slot, whichever room
the server was asked to create.
-/

namespace Ciphertext

open Act

/-- The calls that ask for a conversation, or let somebody into one. -/
def Call.asks : Call → Bool
  | .addContact _ => true
  | .createRoom _ _ => true
  | .join _ => true
  | .invite _ _ => true
  | _ => false

/-- What has been asked of the server. The number tells it from another one that is alike. -/
structure Request where
  call : Call
  number : Nat
deriving DecidableEq

/-- Why the server refuses. -/
def Frame.refusal [Runtime] (f : Frame) : Option Str :=
  if f.type = .error then some (Json.getD f.data "code" (.str "ERROR")).pyStr else none

namespace ChatController

/-- The requests among these entries that got through, in order. -/
def asking (es : List Entry) : List Call :=
  es.filterMap fun e =>
    match e with
    | .called x true => if x.asks then some x else none
    | _ => none

/-- The controller is going to open what was asked for. -/
def Pursues (c : ChatController) : Call → Prop
  | .addContact user => c.pendingUser = some user
  | .createRoom room _ => c.pendingRoom.map Prod.fst = some room
  | .join room => c.pendingRoom.map Prod.fst = some room
  | _ => False

/-- The conversation that was asked for. -/
def sought : Call → Option Str
  | .addContact user => some user
  | .createRoom room _ => some room
  | .join room => some room
  | _ => none

variable [Runtime]

/-- The frame has the members of the room, and we are among them. -/
def Admits (c : ChatController) (f : Frame) (room : Str) : Prop :=
  f.type = .roomState ∧ ((f.get "room").orElse f.target).truthy = true ∧
    ((f.get "room").orElse f.target).pyStr = room ∧
      ((c.membersAfter f room).any fun m => (m.roomMembers room).any fun n => some n = m.username) = true

/-- The frame brings what was asked for: a contact list with the person in it, or the room. -/
def Confirms (c : ChatController) (f : Frame) : Call → Prop
  | .addContact user => f.type = .contacts ∧ ((c.contactsAfter f).any fun m => PyDict.has m.contacts user) = true
  | .createRoom room _ => c.Admits f room
  | .join room => c.Admits f room
  | _ => False

variable {c : ChatController} {f : Frame}

/-- **A confirmed request is opened** exactly if the controller still pursues it. -/
theorem opens_of_confirms {x : Call} (h : c.Confirms f x) : c.opens (.frame f) = sought x ↔ c.Pursues x := by
  have hroom : ∀ room, c.Admits f room → (c.opens (.frame f) = some room ↔ c.pendingRoom.map Prod.fst = some room) := by
    intro room hadmits
    obtain ⟨htype, htruthy, rfl, hin⟩ := hadmits
    unfold opens
    dsimp only
    rw [htype]
    dsimp only
    rw [htruthy, hin]
    cases c.pendingRoom with
    | none => simp
    | some p => simp
  cases x with
  | addContact user =>
    obtain ⟨htype, hnamed⟩ := h
    unfold opens Pursues
    dsimp only
    rw [htype]
    cases c.pendingUser with
    | none => simp [sought]
    | some user' =>
      show (some user').filter _ = some user ↔ some user' = some user
      constructor
      · exact fun h => (Option.filter_eq_some_iff.mp h).1
      · intro h
        obtain rfl := Option.some.inj h
        rw [Option.filter_some, if_pos (by simpa using hnamed)]
  | createRoom room members => exact hroom room h
  | join room => exact hroom room h
  | _ => exact h.elim

end ChatController

/-! ## The controller and its server -/

/-- A controller, and what is on the way between it and the server. -/
structure Dialogue where
  controller : ChatController
  /-- What the server has not taken up yet, oldest first -/
  asked : List Request := []
  /-- Its replies, oldest first, each with the request it answers -/
  replies : List (Request × Frame) := []
  /-- How many requests there have been -/
  sent : Nat := 0

namespace Dialogue

/-- What can happen next: the user asks for something, the server answers, or a reply
arrives. -/
inductive Move where
  | openConversation (user : Str)
  | openRoom (room : Str) (members : List Str)
  | invite (room : Str) (members : List Str)
  /-- the server takes up the oldest request, and these are its replies -/
  | answer (frames : List Frame)
  /-- the oldest reply arrives -/
  | deliver

/-- Whether it is the user who asks. -/
def Move.asks : Move → Bool
  | .answer _ => false
  | .deliver => false
  | _ => true

variable [Runtime] [Crypto]

/-- The controller handles an input, and what it asks for is on its way. -/
def input (d : Dialogue) (g : ChatController.Gesture) : Dialogue :=
  let c := d.controller.step g
  let calls := ChatController.asking (c.trace.drop d.controller.trace.length)
  { d with
    controller := c
    asked := d.asked ++ (calls.zipIdx d.sent).map fun x => ⟨x.1, x.2⟩
    sent := d.sent + calls.length }

/-- The dialogue after it. -/
def step (d : Dialogue) : Move → Dialogue
  | .openConversation user => d.input (.openConversation user)
  | .openRoom room members => d.input (.openRoom room members)
  | .invite room members => d.input (.invite room members)
  | .answer frames =>
    match d.asked with
    | [] => d
    | x :: asked => { d with asked, replies := d.replies ++ frames.map fun f => (x, f) }
  | .deliver =>
    match d.replies with
    | [] => d
    | (_, f) :: replies => { d with replies }.input (.frame f)

/-- The request is confirmed in the course of these moves. -/
def Confirmed (y : Request) : Dialogue → List Move → Prop
  | _, [] => False
  | d, m :: ms =>
    (∃ f replies, m = .deliver ∧ d.replies = (y, f) :: replies ∧ d.controller.Confirms f y.call) ∨
      Confirmed y (d.step m) ms

/-- The requests that are under way beside the one that is answered. -/
def Others (d : Dialogue) (x y : Request) : Prop :=
  y.number ≠ x.number ∧ (y ∈ d.asked ∨ ∃ f, (y, f) ∈ d.replies)

/-- `connection.join` is called for the room. -/
def Joins (d d' : Dialogue) (room : Str) : Prop :=
  ∃ up, .called (.join room) up ∈ d'.controller.trace.drop d.controller.trace.length

/-- **Requests are not confused**: a room that exists already is joined when its creation is
refused, and no refusal ends the pursuit of another request that the server goes on to
confirm. -/
def Unconfused : Dialogue → List Move → Prop
  | _, [] => True
  | d, m :: ms =>
    (m = .deliver → ∀ x f replies code, d.replies = (x, f) :: replies → f.refusal = some code →
      (code = "ROOM_EXISTS" → ∀ room members, x.call = .createRoom room members → d.Joins (d.step m) room) ∧
      ∀ y, d.Others x y → Confirmed y (d.step m) ms → d.controller.Pursues y.call →
        (d.step m).controller.Pursues y.call) ∧
    Unconfused (d.step m) ms

/-- The condition on each refusal that arrives. -/
def RefusalsMatch : Dialogue → List Move → Prop
  | _, [] => True
  | d, m :: ms =>
    (m = .deliver → ∀ x f replies code, d.replies = (x, f) :: replies → f.refusal = some code →
      (code = "ROOM_EXISTS" → ∀ room members, x.call = .createRoom room members →
        d.controller.pendingRoom.map Prod.fst = some room) ∧
      (code = "NO_SUCH_USER" → ∀ y, d.Others x y → Confirmed y (d.step m) ms → ∀ user, y.call = .addContact user →
        d.controller.pendingUser ≠ some user) ∧
      (code = "NO_SUCH_ROOM" ∨ code = "BAD_ROOM" → ∀ y, d.Others x y → Confirmed y (d.step m) ms → ∀ room,
        (y.call = .join room ∨ ∃ members, y.call = .createRoom room members) →
        d.controller.pendingRoom.map Prod.fst ≠ some room)) ∧
    RefusalsMatch (d.step m) ms

end Dialogue

/-! ## A refusal arrives -/

namespace ChatController

variable {c : ChatController} {f : Frame}

/-- A call whose answer is dropped. -/
theorem exec_call_unit (x : Call) (c : ChatController) : (exec (do let _ ← call x : ClientM Unit) c).2 = c.afterCall x := by
  rw [exec_bind, exec_call]
  cases c.connection c.trace.length with
  | none => rfl
  | some stamp => rfl

/-- JOIN is called, and nothing else but an INVITE after it. -/
theorem exec_joinAndInvite (room : Str) (members : List Str) (c : ChatController) : ∃ (up : Bool) (rest : List (Call × Bool)),
    (exec (joinAndInvite room members) c).2 = { c with trace := c.trace ++ callEntries ((.join room, up) :: rest) } ∧
      ∀ x ∈ rest, x.1 = .invite room members := by
  have hjoined := exec_call_unit (.join room) c
  unfold joinAndInvite join invite
  rw [exec_bind]
  rcases hrun : exec (do let _ ← call (.join room) : ClientM Unit) c with ⟨e | u, b⟩
  · rw [hrun] at hjoined
    exact ⟨_, [], hjoined, nofun⟩
  · rw [hrun] at hjoined
    obtain rfl : b = c.afterCall (.join room) := hjoined
    dsimp only
    by_cases hmembers : (!members.isEmpty) = true
    · rw [if_pos hmembers, exec_call_unit]
      refine ⟨(c.connection c.trace.length).isSome, [(.invite room members,
        ((c.afterCall (.join room)).connection (c.afterCall (.join room)).trace.length).isSome)], ?_, fun x hx => ?_⟩
      · simp [afterCall, callEntries]
      · rw [List.mem_singleton.mp hx]
    · rw [if_neg hmembers]
      exact ⟨_, [], rfl, nofun⟩

variable [Runtime] [Crypto]

/-- **What a refusal does**: it clears a slot, or what is in the other is joined. -/
structure Refused (code : Str) (c c' : ChatController) : Prop where
  pendingUser : c'.pendingUser = if code = "NO_SUCH_USER" then none else c.pendingUser
  pendingRoom : c'.pendingRoom = if code = "NO_SUCH_ROOM" ∨ code = "BAD_ROOM" then none else c.pendingRoom
  quiet : code ≠ "ROOM_EXISTS" ∨ c.pendingRoom = none → c'.trace = c.trace
  joined : code = "ROOM_EXISTS" → ∀ p, c.pendingRoom = some p → ∃ (up : Bool) (rest : List (Call × Bool)),
    c'.trace = c.trace ++ callEntries ((.join p.1, up) :: rest) ∧ ∀ x ∈ rest, x.1 = .invite p.1 p.2

theorem step_refused {code : Str} (h : f.refusal = some code) : Refused code (c.receiving f) (c.step (.frame f)) := by
  obtain ⟨htype, hcode⟩ : f.type = .error ∧ (Json.getD f.data "code" (.str "ERROR")).pyStr = code := by
    unfold Frame.refusal at h
    split at h
    · next htype => exact ⟨htype, Option.some.inj h⟩
    · cases h
  rw [step_error c htype, hcode]
  generalize c.receiving f = b
  unfold onError
  -- the branches of `_on_error`, in its order
  by_cases huser : code = "NO_SUCH_USER"
  · subst huser
    exact ⟨rfl, rfl, fun _ => rfl, fun h => absurd h (by decide)⟩
  rw [if_neg huser]
  by_cases hexists : code = "ROOM_EXISTS"
  · subst hexists
    rw [if_pos rfl, exec_bind, exec_get]
    dsimp only
    cases hpending : b.pendingRoom with
    | none =>
      -- nothing to correct
      refine ⟨rfl, (if_neg (by decide)).symm, fun _ => rfl, fun _ p hp => ?_⟩
      rw [hpending] at hp
      cases hp
    | some p =>
      obtain ⟨up, rest, hexec, hinvites⟩ := exec_joinAndInvite p.1 p.2 b
      dsimp only
      rw [hexec]
      refine ⟨rfl, (if_neg (by decide)).symm, fun h => ?_, fun _ p' hp' => ?_⟩
      · rcases h with h | h
        · exact absurd rfl h
        · rw [hpending] at h
          cases h
      · obtain rfl := Option.some.inj (hpending.symm.trans hp')
        exact ⟨up, rest, rfl, hinvites⟩
  rw [if_neg hexists]
  by_cases hroom : code = "NO_SUCH_ROOM" ∨ code = "BAD_ROOM"
  · rw [if_pos (by simpa using hroom)]
    exact ⟨(if_neg huser).symm, (if_pos hroom).symm, fun _ => rfl, fun h => absurd h hexists⟩
  · rw [if_neg (by simpa using hroom)]
    exact ⟨(if_neg huser).symm, (if_neg hroom).symm, fun _ => rfl, fun h => absurd h hexists⟩

end ChatController

namespace Dialogue

variable [Runtime] [Crypto] {d : Dialogue} {x : Request} {f : Frame} {replies : List (Request × Frame)} {code : Str}

theorem step_deliver (h : d.replies = (x, f) :: replies) : d.step .deliver = { d with replies }.input (.frame f) := by
  unfold step
  rw [h]

theorem controller_deliver (h : d.replies = (x, f) :: replies) :
    (d.step .deliver).controller = d.controller.step (.frame f) := by
  rw [step_deliver h]
  rfl

/-- **ROOM_EXISTS joins the room in the slot**, whichever room was to be created. -/
theorem joins_iff (h : d.replies = (x, f) :: replies) (hf : f.refusal = some code) (room : Str) :
    d.Joins (d.step .deliver) room ↔ code = "ROOM_EXISTS" ∧ d.controller.pendingRoom.map Prod.fst = some room := by
  have hrefused := ChatController.step_refused (c := d.controller) hf
  have hnew : ∀ es, (d.controller.step (.frame f)).trace = (d.controller.receiving f).trace ++ es →
      (d.Joins (d.step .deliver) room ↔ ∃ up, .called (.join room) up ∈ es) := by
    intro es htrace
    have hdrop : (d.controller.step (.frame f)).trace.drop d.controller.trace.length = .received f :: es := by
      rw [htrace]
      show List.drop _ ((d.controller.trace ++ [.received f]) ++ es) = _
      rw [List.append_assoc, List.drop_left]
      rfl
    unfold Joins
    rw [controller_deliver h, hdrop]
    refine exists_congr fun up => ?_
    rw [List.mem_cons, or_iff_right nofun]
  by_cases hquiet : code ≠ "ROOM_EXISTS" ∨ d.controller.pendingRoom = none
  · rw [hnew [] ((hrefused.quiet hquiet).trans (List.append_nil _).symm)]
    refine iff_of_false (fun h => ?_) fun h => ?_
    · obtain ⟨up, hup⟩ := h
      cases hup
    · rcases hquiet with hno | hno
      · exact hno h.1
      · rw [hno] at h
        cases h.2
  · rw [not_or, not_not] at hquiet
    obtain ⟨p, hp⟩ := Option.ne_none_iff_exists'.mp hquiet.2
    obtain ⟨up, rest, htrace, hinvites⟩ := hrefused.joined hquiet.1 p hp
    rw [hnew _ htrace, hp]
    unfold ChatController.callEntries
    constructor
    · intro h
      obtain ⟨up', hmem⟩ := h
      refine ⟨hquiet.1, ?_⟩
      rcases List.mem_cons.mp hmem with heq | hmem
      · cases heq
        rfl
      · obtain ⟨⟨y, up''⟩, hy, heq⟩ := List.mem_map.mp hmem
        cases heq
        cases hinvites _ hy
    · intro h
      obtain rfl : p.1 = room := Option.some.inj h.2
      exact ⟨up, List.mem_cons_self ..⟩

/-- What a refusal leaves of a pursuit. -/
theorem pursues_iff (h : d.replies = (x, f) :: replies) (hf : f.refusal = some code) {y : Call}
    (hbefore : d.controller.Pursues y) : (d.step .deliver).controller.Pursues y ↔
      (code = "NO_SUCH_USER" → ∀ user, y = .addContact user → d.controller.pendingUser ≠ some user) ∧
      (code = "NO_SUCH_ROOM" ∨ code = "BAD_ROOM" → ∀ room, (y = .join room ∨ ∃ members, y = .createRoom room members) →
        d.controller.pendingRoom.map Prod.fst ≠ some room) := by
  have hrefused := ChatController.step_refused (c := d.controller) hf
  have huser : (d.step .deliver).controller.pendingUser = if code = "NO_SUCH_USER" then none else d.controller.pendingUser := by
    rw [controller_deliver h]
    exact hrefused.pendingUser
  have hroom : (d.step .deliver).controller.pendingRoom =
      if code = "NO_SUCH_ROOM" ∨ code = "BAD_ROOM" then none else d.controller.pendingRoom := by
    rw [controller_deliver h]
    exact hrefused.pendingRoom
  have hrooms : ∀ room, d.controller.pendingRoom.map Prod.fst = some room →
      ((d.step .deliver).controller.pendingRoom.map Prod.fst = some room ↔ ¬ (code = "NO_SUCH_ROOM" ∨ code = "BAD_ROOM")) := by
    intro room hroom'
    rw [hroom]
    by_cases hcode : code = "NO_SUCH_ROOM" ∨ code = "BAD_ROOM"
    · rw [if_pos hcode]
      exact iff_of_false nofun (not_not_intro hcode)
    · rw [if_neg hcode]
      exact iff_of_true hroom' hcode
  cases y with
  | addContact user =>
    have hb : d.controller.pendingUser = some user := hbefore
    show (d.step .deliver).controller.pendingUser = some user ↔ _
    rw [huser]
    by_cases hcode : code = "NO_SUCH_USER"
    · rw [if_pos hcode]
      exact iff_of_false nofun fun h => h.1 hcode user rfl hb
    · rw [if_neg hcode]
      refine iff_of_true hb ⟨fun h => absurd h hcode, fun _ room h => ?_⟩
      rcases h with h | ⟨members, h⟩ <;> cases h
  | createRoom room members =>
    refine (hrooms room hbefore).trans ?_
    constructor
    · exact fun hcode => ⟨fun _ _ h => (nomatch h), fun h => absurd h hcode⟩
    · exact fun h hcode => h.2 hcode room (.inr ⟨members, rfl⟩) hbefore
  | join room =>
    refine (hrooms room hbefore).trans ?_
    constructor
    · exact fun hcode => ⟨fun _ _ h => (nomatch h), fun h => absurd h hcode⟩
    · exact fun h hcode => h.2 hcode room (.inl rfl) hbefore
  | _ => exact hbefore.elim

/-- **Overlapping requests are not confused** in a run, exactly where every refusal finds the
slots in order. -/
theorem kept_iff (ms : List Move) : ∀ d : Dialogue, Unconfused d ms ↔ RefusalsMatch d ms := by
  induction ms with
  | nil => exact fun _ => Iff.rfl
  | cons m ms ih =>
    intro d
    -- a move at a time: what the property asks of a refusal, and what the slots must hold
    refine and_congr ?_ (ih _)
    refine forall_congr' fun hm => forall_congr' fun x => forall_congr' fun f => forall_congr' fun replies =>
      forall_congr' fun code => forall_congr' fun hreplies => forall_congr' fun hf => ?_
    subst hm
    refine and_congr ?_ ?_
    · refine forall_congr' fun hcode => forall_congr' fun room => forall_congr' fun members => forall_congr' fun _ => ?_
      rw [joins_iff hreplies hf]
      exact and_iff_right hcode
    · constructor
      · intro h
        refine ⟨fun hcode y hy hconf user hcall hslot => ?_, fun hcode y hy hconf room hcall hslot => ?_⟩
        · have hbefore : d.controller.Pursues y.call := by
            rw [hcall]
            exact hslot
          exact ((pursues_iff hreplies hf hbefore).mp (h y hy hconf hbefore)).1 hcode user hcall hslot
        · have hbefore : d.controller.Pursues y.call := by
            rcases hcall with hcall | ⟨members, hcall⟩ <;> rw [hcall] <;> exact hslot
          exact ((pursues_iff hreplies hf hbefore).mp (h y hy hconf hbefore)).2 hcode room hcall hslot
      · intro h y hy hconf hbefore
        exact (pursues_iff hreplies hf hbefore).mpr ⟨fun hcode => h.1 hcode y hy hconf, fun hcode => h.2 hcode y hy hconf⟩

end Dialogue

/-! ## One request at a time -/

/-- Why the server refuses such a request. -/
def Call.refusals : Call → List Str
  | .addContact _ => ["UNSUPPORTED", "NO_RECIPIENT", "BAD_CONTACT", "NO_SUCH_USER"]
  | .createRoom _ _ => ["BAD_ROOM", "ROOM_EXISTS"]
  | .join _ => ["BAD_ROOM", "NO_SUCH_ROOM"]
  | .invite _ _ => ["BAD_ROOM", "NO_SUCH_ROOM", "NOT_A_MEMBER", "NO_SUCH_USER"]
  | _ => []

def Call.isInvite : Call → Bool
  | .invite _ _ => true
  | _ => false

def Call.isCreation : Call → Bool
  | .createRoom _ _ => true
  | _ => false

theorem Call.eq_createRoom {x : Call} (h : x.isCreation = true) : ∃ room members, x = .createRoom room members := by
  cases x with
  | createRoom room members => exact ⟨room, members, rfl⟩
  | _ => cases h

/-- Only a creation is refused because the room is there. -/
theorem Call.isCreation_of_exists {x : Call} (h : ("ROOM_EXISTS" : Str) ∈ x.refusals) : x.isCreation = true := by
  cases x with
  | createRoom room members => rfl
  | addContact user => exact absurd (List.elem_eq_true_of_mem h) nofun
  | join room => exact absurd (List.elem_eq_true_of_mem h) nofun
  | invite room members => exact absurd (List.elem_eq_true_of_mem h) nofun
  | _ => cases h

section Replies

variable [Runtime]

/-- One reply of the server to the request. -/
def Call.Replied (x : Call) (f : Frame) : Prop :=
  f.type = .contacts ∨ f.type = .roomState ∨ ∃ code ∈ x.refusals, f.refusal = some code

/-- All of them: exactly one, but to an INVITE. -/
def Call.Answered (x : Call) (frames : List Frame) : Prop :=
  (∀ f ∈ frames, x.Replied f) ∧ (x.isInvite = true ∨ ∃ f, frames = [f])

end Replies

namespace ChatController

theorem asking_append (es es' : List Entry) : asking (es ++ es') = asking es ++ asking es' := List.filterMap_append

/-- What is asked for was called. -/
theorem mem_asking {xs : List (Call × Bool)} {x : Call} (h : x ∈ asking (callEntries xs)) :
    x.asks = true ∧ ∃ up, (x, up) ∈ xs := by
  unfold asking callEntries at h
  obtain ⟨e, he, hx⟩ := List.mem_filterMap.mp h
  obtain ⟨⟨y, up⟩, hmem, rfl⟩ := List.mem_map.mp he
  cases up with
  | false => cases hx
  | true =>
    dsimp only at hx
    split at hx
    · next hasks =>
      obtain rfl := Option.some.inj hx
      exact ⟨hasks, true, hmem⟩
    · cases hx

/-- The first call counts or it does not. -/
theorem asking_cons (x : Call) (up : Bool) (xs : List (Call × Bool)) :
    asking (callEntries ((x, up) :: xs)) = asking (callEntries xs) ∨
      asking (callEntries ((x, up) :: xs)) = x :: asking (callEntries xs) := by
  unfold asking callEntries
  rw [List.map_cons, List.filterMap_cons]
  cases up with
  | false => exact .inl rfl
  | true =>
    dsimp only
    split
    · next h => exact .inl rfl
    · next y h =>
      split at h
      · obtain rfl := Option.some.inj h
        exact .inr rfl
      · cases h

/-- Requests that go out together: one, and invitations after it. A room is created alone, and
is in the slot. -/
structure Tidy (c : ChatController) (calls : List Call) : Prop where
  invites : ∀ x ∈ calls.tail, x.isInvite = true
  creation : ∀ room members, .createRoom room members ∈ calls →
    calls = [.createRoom room members] ∧ c.pendingRoom.map Prod.fst = some room

/-- What is asked for in between is tidy. -/
def Orders (c c' : ChatController) : Prop := ∃ es, c'.trace = c.trace ++ es ∧ Tidy c' (asking es)

variable {c c' : ChatController}

/-- Asking for nothing is tidy. -/
theorem tidy_nil (c : ChatController) : Tidy c [] := ⟨nofun, nofun⟩

/-- Invitations create nothing. -/
theorem tidy_invites {calls : List Call} (h : ∀ x ∈ calls, x.isInvite = true) : Tidy c calls :=
  ⟨fun x hx => h x (List.mem_of_mem_tail hx), fun _ _ hmem => nomatch h _ hmem⟩

/-- A request gives way to its replies. -/
theorem tidy_answer {before after : List Call} {x : Call} (xs : List Call)
    (h : Tidy c (before ++ x :: after)) (hxs : ∀ y ∈ xs, y = x) (hx : x.isInvite = true ∨ xs = [x]) :
    Tidy c (before ++ (xs ++ after)) := by
  rcases hx with hinvite | rfl
  · have hall : ∀ y ∈ xs ++ after, y.isInvite = true := by
      intro y hy
      rcases List.mem_append.mp hy with hy | hy
      · rw [hxs y hy]
        exact hinvite
      · refine h.invites y ?_
        cases before with
        | nil => exact hy
        | cons b before => exact List.mem_append_right _ (List.mem_cons_of_mem _ hy)
    refine ⟨?_, fun room members hmem => ?_⟩
    · cases before with
      | nil => exact fun y hy => hall y (List.mem_of_mem_tail hy)
      | cons b before =>
        intro y hy
        rcases List.mem_append.mp hy with hy | hy
        · exact h.invites y (List.mem_append_left _ hy)
        · exact hall y hy
    · -- a creation would be alone, and there is the invitation
      rcases List.mem_append.mp hmem with hmem | hmem
      · obtain ⟨halone, -⟩ := h.creation room members (List.mem_append_left _ hmem)
        have hx : x ∈ before ++ x :: after := List.mem_append_right _ (List.mem_cons_self ..)
        rw [halone] at hx
        rw [List.mem_singleton.mp hx] at hinvite
        cases hinvite
      · cases hall _ hmem
  · exact h

/-- So is what asks for nothing, -/
theorem orders_nothing {es : List Entry} (h : c'.trace = c.trace ++ es) (hes : asking es = []) : Orders c c' :=
  ⟨es, h, hes ▸ tidy_nil c'⟩

/-- and a single request, if a room that it creates is in the slot. -/
theorem orders_one {x : Call} (up : Bool) (h : c'.trace = c.trace ++ callEntries [(x, up)])
    (hx : ∀ room members, x = .createRoom room members → c'.pendingRoom.map Prod.fst = some room) : Orders c c' := by
  refine ⟨_, h, ?_⟩
  rcases asking_cons x up [] with he | he
  · rw [he]
    exact tidy_nil c'
  · rw [he]
    refine ⟨nofun, fun room members hmem => ?_⟩
    obtain rfl := List.mem_singleton.mp hmem
    exact ⟨rfl, hx room members rfl⟩

/-- JOIN goes out, and invitations after it. -/
theorem orders_join {room : Str} {members : List Str} {up : Bool} {rest : List (Call × Bool)}
    (h : c'.trace = c.trace ++ callEntries ((.join room, up) :: rest)) (hinvites : ∀ x ∈ rest, x.1 = .invite room members) :
    Orders c c' := by
  have hrest : ∀ x ∈ asking (callEntries rest), x = .invite room members := fun x hx => by
    obtain ⟨-, up, hmem⟩ := mem_asking hx
    exact hinvites _ hmem
  refine ⟨_, h, ?_, fun room' members' hmem => ?_⟩
  · intro x hx
    have hmem : x ∈ asking (callEntries rest) := by
      rcases asking_cons (.join room) up rest with he | he <;> rw [he] at hx
      · exact List.mem_of_mem_tail hx
      · exact hx
    rw [hrest x hmem]
    rfl
  · -- no room is created
    obtain ⟨-, up', hmem⟩ := mem_asking hmem
    rcases List.mem_cons.mp hmem with heq | hmem
    · cases heq
    · cases hinvites _ hmem

/-- Opening a room creates it, or joins it and invites. -/
theorem openRoom_orders (room : Str) (members : List Str) (c : ChatController) :
    Orders c (exec (openRoom room members) c).2 := by
  unfold openRoom
  rw [exec_bind, exec_modify]
  dsimp only
  rw [exec_bind, exec_get]
  dsimp only
  split
  · obtain ⟨up, rest, hexec, hinvites⟩ := exec_joinAndInvite room members { c with pendingRoom := some (room, members) }
    rw [hexec]
    exact orders_join rfl hinvites
  · unfold createRoom
    rw [exec_call_unit]
    refine orders_one (x := .createRoom room members) _ rfl fun room' members' h => ?_
    cases h
    rfl

/-- Code that asks for nothing. -/
def Unasking (c c' : ChatController) : Prop := ∃ es, c'.trace = c.trace ++ es ∧ asking es = []

theorem Unasking.refl (c : ChatController) : Unasking c c := ⟨[], (List.append_nil _).symm, rfl⟩

theorem Unasking.trans (a b c : ChatController) (h : Unasking a b) (h' : Unasking b c) : Unasking a c := by
  obtain ⟨es, hes, hnone⟩ := h
  obtain ⟨es', hes', hnone'⟩ := h'
  exact ⟨es ++ es', by rw [hes', hes, List.append_assoc], by rw [asking_append, hnone, hnone']; rfl⟩

theorem unasking_of_trace (h : c'.trace = c.trace) : Unasking c c' := ⟨[], h.trans (List.append_nil _).symm, rfl⟩

/-- The only calls that selecting makes are receipts. -/
theorem select_unasking (key : Str) : Steps Unasking (select key) := by
  intro c
  obtain ⟨xs, hselect, hcalls, -⟩ := exec_select key c
  rw [hselect]
  refine ⟨_, rfl, List.eq_nil_iff_forall_not_mem.mpr fun x hx => ?_⟩
  obtain ⟨hasks, up, hmem⟩ := mem_asking hx
  have hreceipt : x ∈ (c.reported key).map fun m => .receipt m.sender m.id "READ" :=
    hcalls ▸ List.mem_map.mpr ⟨_, hmem, rfl⟩
  obtain ⟨m, -, rfl⟩ := List.mem_map.mp hreceipt
  cases hasks

/-- Opening a conversation asks for a contact, for a room, or for nothing. -/
theorem openConversation_orders (user : Str) (c : ChatController) : Orders c (exec (openConversation user) c).2 := by
  have hquiet : ∀ b, Unasking c b → Orders c b := fun b h => by
    obtain ⟨es, hes, hnone⟩ := h
    exact orders_nothing hes hnone
  unfold openConversation
  rw [exec_bind, exec_get]
  dsimp only
  generalize user.strip = user
  split
  · exact hquiet _ (.refl c)
  · split
    · exact openRoom_orders user [] c
    · split
      · exact hquiet _ (.refl c)
      · split
        · exact hquiet _ (select_unasking user c)
        · unfold addContact
          rw [exec_bind, exec_modify]
          dsimp only
          rw [exec_call_unit]
          refine orders_one (x := .addContact user) _ rfl ?_
          intro _ _ h
          cases h

theorem lift_unasking {α : Type} (r : Except PyErr α) : Steps Unasking (lift r) := by
  cases r with
  | ok a => exact steps_pure Unasking.refl a
  | error e => exact steps_throw Unasking.refl _

variable [Runtime]

/-- A contact list is looked at, and asks for nothing. -/
theorem contacts_unasking (contacts : Json) : Steps Unasking (do
    replaceContacts contacts
    openPendingUser : ClientM Unit) := by
  have hmodel : ∀ g : ChatModel → ChatModel, Steps Unasking (onModel g) := fun g =>
    steps_modify fun c => unasking_of_trace rfl
  refine Steps.bind Unasking.trans ?_ fun _ => steps_get fun c => ?_
  · exact Steps.bind Unasking.trans (lift_unasking _) fun entries => steps_get fun c =>
      Steps.bind Unasking.trans (lift_unasking _) (fun m => hmodel _) c
  · cases c.pendingUser with
    | none => exact .refl c
    | some user =>
      dsimp only
      split
      · rw [exec_bind, exec_modify]
        exact Unasking.trans c { c with pendingUser := none } _ (unasking_of_trace rfl) (select_unasking user _)
      · exact .refl c

theorem roomState_unasking (f : Frame) : Steps Unasking (roomState f) := by
  refine steps_ite (steps_pure Unasking.refl _) (Steps.bind Unasking.trans (lift_unasking _) fun members => ?_)
  refine Steps.bind Unasking.trans (steps_modify fun c => unasking_of_trace rfl) fun _ => steps_get fun c => ?_
  cases c.pendingRoom with
  | none => exact .refl c
  | some p =>
    dsimp only
    split
    · rw [exec_bind, exec_modify]
      exact Unasking.trans c { c with pendingRoom := none } _ (unasking_of_trace rfl) (select_unasking _ _)
    · exact .refl c

variable [Crypto]

/-- **A reply** leads to no request, unless a room that was to be created is there already. -/
theorem reply_orders {x : Call} {f : Frame} (hx : x.Replied f) :
    Orders c (c.step (.frame f)) ∧ (x.isCreation = false → Unasking c (c.step (.frame f))) := by
  have hreceived : Unasking c (c.receiving f) := ⟨[.received f], rfl, rfl⟩
  have hquiet : Unasking (c.receiving f) (c.step (.frame f)) →
      Orders c (c.step (.frame f)) ∧ (x.isCreation = false → Unasking c (c.step (.frame f))) := by
    intro h
    have hall := hreceived.trans _ _ _ h
    obtain ⟨es, hes, hnone⟩ := hall
    exact ⟨orders_nothing hes hnone, fun _ => ⟨es, hes, hnone⟩⟩
  rcases hx with htype | htype | ⟨code, hcode, hrefusal⟩
  · rw [step_contacts c htype] at hquiet ⊢
    exact hquiet (contacts_unasking _ _)
  · rw [step_roomState c htype] at hquiet ⊢
    exact hquiet (roomState_unasking f _)
  · have hrefused := step_refused (c := c) hrefusal
    by_cases hcode' : code ≠ "ROOM_EXISTS" ∨ c.pendingRoom = none
    · exact hquiet (unasking_of_trace (hrefused.quiet hcode'))
    · rw [not_or, not_not] at hcode'
      obtain ⟨p, hp⟩ := Option.ne_none_iff_exists'.mp hcode'.2
      obtain ⟨up, rest, htrace, hinvites⟩ := hrefused.joined hcode'.1 p hp
      refine ⟨?_, fun hcreation => ?_⟩
      · obtain ⟨es, hes, htidy⟩ := orders_join (c := c.receiving f) htrace hinvites
        exact ⟨.received f :: es, by rw [hes]; exact List.append_assoc _ [_] es, htidy⟩
      · rw [Call.isCreation_of_exists (hcode'.1 ▸ hcode)] at hcreation
        cases hcreation

end ChatController

namespace Dialogue

/-- Everything that is under way, in the order of the replies. -/
def underway (d : Dialogue) : List Request := d.replies.map Prod.fst ++ d.asked

theorem mem_underway {d : Dialogue} {x y : Request} (h : d.Others x y) : y ∈ d.underway := by
  rcases h.2 with hasked | ⟨f, hmem⟩
  · exact List.mem_append_right _ hasked
  · exact List.mem_append_left _ (List.mem_map.mpr ⟨_, hmem, rfl⟩)

theorem underway_cons {d : Dialogue} {x : Request} {f : Frame} {replies : List (Request × Frame)}
    (h : d.replies = (x, f) :: replies) : d.underway = x :: (replies.map Prod.fst ++ d.asked) := by
  unfold underway
  rw [h]
  rfl

theorem replies_of_idle {d : Dialogue} (h : d.underway = []) : d.replies = [] :=
  List.map_eq_nil_iff.mp (List.append_eq_nil_iff.mp h).1

variable [Runtime]

/-- The server answers as it should. -/
def Lawful [Crypto] : Dialogue → List Move → Prop
  | _, [] => True
  | d, m :: ms =>
    (∀ frames x asked, m = .answer frames → d.asked = x :: asked → x.call.Answered frames) ∧ Lawful (d.step m) ms

/-- Nothing is asked for while something is under way. -/
def Serial [Crypto] : Dialogue → List Move → Prop
  | _, [] => True
  | d, m :: ms => (m.asks = true → d.underway = []) ∧ Serial (d.step m) ms

/-- One request is under way, but for the invitations after it. -/
structure Single (d : Dialogue) : Prop where
  tidy : ChatController.Tidy d.controller (d.underway.map Request.call)
  replied : ∀ p ∈ d.replies, p.1.call.Replied p.2

/-- With nothing under way there is nothing to confuse. -/
theorem single_of_idle {d : Dialogue} (h : d.underway = []) : d.Single := by
  refine ⟨?_, fun p hp => ?_⟩
  · rw [h]
    exact ChatController.tidy_nil _
  · rw [replies_of_idle h] at hp
    cases hp

section Reply

variable {d : Dialogue} {x y : Request} {f : Frame} {replies : List (Request × Frame)}

/-- The requests that follow the one that is answered are invitations. -/
theorem Single.others (hd : d.Single) (h : d.replies = (x, f) :: replies) (hy : d.Others x y) :
    y.call.isInvite = true := by
  have hmem := mem_underway hy
  refine hd.tidy.invites y.call ?_
  rw [underway_cons h] at hmem ⊢
  rcases List.mem_cons.mp hmem with rfl | hmem
  · exact absurd rfl hy.1
  · exact List.mem_map.mpr ⟨y, hmem, rfl⟩

end Reply

variable [Crypto] {d : Dialogue}

/-- What goes out joins what is under way. -/
theorem underway_input {es : List Entry} {g : ChatController.Gesture}
    (h : (d.controller.step g).trace = d.controller.trace ++ es) :
    (d.input g).underway.map Request.call = d.underway.map Request.call ++ ChatController.asking es := by
  have hdrop : (d.controller.step g).trace.drop d.controller.trace.length = es := by
    rw [h, List.drop_left]
  unfold underway input
  dsimp only
  rw [hdrop, ← List.append_assoc, List.map_append]
  congr 1
  calc ((((ChatController.asking es).zipIdx d.sent).map fun x => (⟨x.1, x.2⟩ : Request)).map Request.call)
      = ((ChatController.asking es).zipIdx d.sent).map Prod.fst := List.map_map
    _ = ChatController.asking es := List.zipIdx_map_fst ..

/-- Where nothing is under way, what is asked for is. -/
theorem single_input (hd : d.underway = []) {g : ChatController.Gesture}
    (h : ChatController.Orders d.controller (d.controller.step g)) : (d.input g).Single := by
  obtain ⟨es, hes, htidy⟩ := h
  refine ⟨?_, fun p hp => ?_⟩
  · rw [underway_input hes, hd]
    exact htidy
  · change p ∈ d.replies at hp
    rw [replies_of_idle hd] at hp
    cases hp

theorem single_gesture (hd : d.underway = []) {m : Move} (hm : m.asks = true) : (d.step m).Single := by
  cases m with
  | openConversation user => exact single_input hd (ChatController.openConversation_orders user _)
  | openRoom room members => exact single_input hd (ChatController.openRoom_orders room members _)
  | invite room members =>
    refine single_input hd ?_
    have hinvite : d.controller.step (.invite room members) = d.controller.afterCall (.invite room members) :=
      ChatController.exec_call_unit _ _
    rw [hinvite]
    exact ChatController.orders_one (x := .invite room members) _ rfl fun _ _ h => (nomatch h)
  | answer frames => cases hm
  | deliver => cases hm

theorem single_answer (hd : d.Single) {frames : List Frame}
    (h : ∀ x asked, d.asked = x :: asked → x.call.Answered frames) : (d.step (.answer frames)).Single := by
  unfold step
  dsimp only
  cases hasked : d.asked with
  | nil => exact hd
  | cons x asked =>
    obtain ⟨hreplied, hone⟩ := h x asked hasked
    have htidy := hd.tidy
    unfold underway at htidy
    rw [hasked, List.map_append, List.map_cons] at htidy
    refine ⟨?_, fun p hp => ?_⟩
    · have hanswered := ChatController.tidy_answer (frames.map fun _ => x.call) htidy (fun y hy => ?_) ?_
      · unfold underway
        simpa [Function.comp_def] using hanswered
      · obtain ⟨f, -, rfl⟩ := List.mem_map.mp hy
        rfl
      · rcases hone with hone | ⟨f, rfl⟩
        · exact .inl hone
        · exact .inr rfl
    · rcases List.mem_append.mp hp with hp | hp
      · exact hd.replied p hp
      · obtain ⟨f, hf, rfl⟩ := List.mem_map.mp hp
        exact hreplied f hf

theorem single_deliver (hd : d.Single) : (d.step .deliver).Single := by
  cases hreplies : d.replies with
  | nil =>
    unfold step
    rw [hreplies]
    exact hd
  | cons p replies =>
    obtain ⟨x, f⟩ := p
    rw [step_deliver hreplies]
    have htidy := hd.tidy
    rw [underway_cons hreplies] at htidy
    have hafter : ∀ y ∈ replies.map Prod.fst ++ d.asked, y.call.isInvite = true := fun y hy =>
      htidy.invites y.call (List.mem_map.mpr ⟨y, hy, rfl⟩)
    obtain ⟨horders, hunasking⟩ :=
      ChatController.reply_orders (c := d.controller) (hd.replied (x, f) (hreplies ▸ List.mem_cons_self ..))
    cases hx : x.call.isCreation with
    | false =>
      -- nothing new, and what is left under way are invitations
      obtain ⟨es, hes, hnone⟩ := hunasking hx
      refine ⟨?_, fun p hp => hd.replied p (hreplies ▸ List.mem_cons_of_mem _ hp)⟩
      rw [underway_input (d := { d with replies }) hes, hnone, List.append_nil]
      refine ChatController.tidy_invites fun y hy => ?_
      obtain ⟨z, hz, rfl⟩ := List.mem_map.mp hy
      exact hafter z hz
    | true =>
      -- the creation is alone, and nothing is under way now
      obtain ⟨room, members, hcall⟩ := Call.eq_createRoom hx
      obtain ⟨halone, -⟩ := htidy.creation room members (hcall ▸ List.mem_cons_self ..)
      have hidle : ({ d with replies } : Dialogue).underway = [] := List.map_eq_nil_iff.mp (List.cons_eq_cons.mp halone).2
      exact single_input hidle horders

/-- **Requests that do not overlap** are not confused. -/
theorem refusalsMatch_of_serial (ms : List Move) : ∀ d : Dialogue, d.Single → Lawful d ms → Serial d ms → RefusalsMatch d ms := by
  induction ms with
  | nil => exact fun _ _ _ _ => trivial
  | cons m ms ih =>
    intro d hd hlawful hserial
    -- beside the request that is refused there are invitations only
    refine ⟨?_, ih _ ?_ hlawful.2 hserial.2⟩
    · intro _ x f replies code hreplies _
      have hothers : ∀ y, d.Others x y → y.call.isInvite = true := fun y hy => hd.others hreplies hy
      refine ⟨fun _ room members hcall => ?_, fun _ y hy _ user hcall => ?_, fun _ y hy _ room hcall => ?_⟩
      · have hmem : Call.createRoom room members ∈ d.underway.map Request.call := by
          rw [underway_cons hreplies, ← hcall]
          exact List.mem_cons_self ..
        exact (hd.tidy.creation room members hmem).2
      · have hinvite := hothers y hy
        rw [hcall] at hinvite
        cases hinvite
      · have hinvite := hothers y hy
        rcases hcall with hcall | ⟨members, hcall⟩ <;> rw [hcall] at hinvite <;> cases hinvite
    · cases hm : m.asks with
      | true => exact single_gesture (hserial.1 hm) hm
      | false =>
        cases m with
        | answer frames => exact single_answer hd fun x asked hasked => hlawful.1 frames x asked rfl hasked
        | deliver => exact single_deliver hd
        | _ => cases hm

/-- **Where requests do not overlap**, every refusal finds its own request: nothing is under way at
the start, the server answers as it does, and nothing is asked for while an answer is awaited. -/
theorem serial_refusalsMatch (d : Dialogue) (ms : List Move) (hidle : d.underway = []) (hlawful : Lawful d ms)
    (hserial : Serial d ms) : RefusalsMatch d ms :=
  refusalsMatch_of_serial ms d (single_of_idle hidle) hlawful hserial

end Dialogue

/-! ## Two requests at once -/

namespace Sample

/-- An ERROR with this code. -/
def refusalOf (code : Str) : Frame where
  type := .error
  data := [("code", .str code)]
  id := .str "e"
  ts := 1

/-- A contact list that names one user. -/
def contactsWith (user : Str) : Frame where
  type := .contacts
  data := [("contacts", .list [.dict [("user", .str user), ("online", .bool true)]])]
  id := .str "c"
  ts := 1

/-- Two rooms are to be made, and there is one of the first name. -/
def twoRooms : List Dialogue.Move :=
  [.openRoom "#a" [], .openRoom "#b" [], .answer [refusalOf "ROOM_EXISTS"], .deliver]

/-- Two people are to be written to, and the first has no account. -/
def twoPeople : List Dialogue.Move :=
  [.openConversation "u", .openConversation "v", .answer [refusalOf "NO_SUCH_USER"], .answer [contactsWith "v"],
    .deliver, .deliver]

end Sample

section Concrete

open Dialogue Sample

attribute [local instance] exchangeCrypto sampleRuntime

/-- The second room is joined instead of the first. And when the second person turns out to
have an account, nothing is opened. -/
theorem two_confused : ¬ Unconfused ⟨startedClient, [], [], 0⟩ twoRooms ∧ ¬ Unconfused ⟨startedClient, [], [], 0⟩ twoPeople := by
  constructor
  · intro h
    obtain ⟨hjoin, -⟩ := h.2.2.2.1 rfl ⟨.createRoom "#a" [], 0⟩ (refusalOf "ROOM_EXISTS") [] "ROOM_EXISTS"
      (by decide +kernel) (by decide +kernel)
    obtain ⟨up, hmem⟩ := hjoin rfl "#a" [] rfl
    revert up
    decide +kernel
  · intro h
    obtain ⟨-, hkeep⟩ := h.2.2.2.2.1 rfl ⟨.addContact "u", 0⟩ (refusalOf "NO_SUCH_USER")
      [(⟨.addContact "v", 1⟩, contactsWith "v")] "NO_SUCH_USER" (by decide +kernel) (by decide +kernel)
    have hstill := hkeep ⟨.addContact "v", 1⟩ ⟨by decide, .inr ⟨contactsWith "v", ?_⟩⟩ (.inl ?_) ?_
    · revert hstill
      show ¬ _ = _
      decide +kernel
    · decide +kernel
    · refine ⟨contactsWith "v", [], rfl, by decide +kernel, rfl, by decide +kernel⟩
    · show _ = _
      decide +kernel

end Concrete

end Ciphertext
