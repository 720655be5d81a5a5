import Mathlib.Logic.Relation
import Ciphertext.Client.Releasing
import Ciphertext.Client.DerivedKeys

/-!
# What each input may do

Every method of the controller comes down to a few small changes, one after the
other: a method of the model, a method of the keyring, a call on the connection, one
of its own fields. `Change` names the model's methods by kind and `Micro` lists the
small changes; `step_walk` says of every gesture and every frame which of them it is
made of, however it ends. An invariant is then a fact about each small change, and
holds of an input because of `Walk.lift`, or `step_lift` if it is about the model alone.

Two of them are not so small. `select` reports what it marks as read, and a frame that
goes into the model is noted; both are taken whole. A method that looks at the state to
decide what to do next (`send`, `_release`, a KEY frame) is walked through in the state
it has reached, so the walk of the keyring's part is about the very keyring it is called
on. What is called on the keyring over a whole run is therefore a sequence of its own
methods, of which `remember` is only ever called with what a KEY frame said
(`run_calls`).

`Ticks`, `OwnRows`, `Unread`, `Typing`, `Screen` and `Commands` get their invariants from here.
-/

namespace Ciphertext

open Act

/-- The kinds of changes of a `ChatModel`. -/
inductive Kind where
  | identity
  | connection
  | roster
  | presence
  | contacts
  | typing
  | message
  | filing
  | history
  | receipt
  | selection
  | deselection
  /-- `active` is put aside, and put back -/
  | borrowing
  | members
deriving DecidableEq

/-- A change of the model alone; the two others are of the controller, too. -/
def Kind.plain : Kind → Bool
  | .selection => false
  | .filing => false
  | _ => true

variable [Runtime] [Crypto]

omit [Crypto] in
/-- A change of the kind. -/
inductive Change : Kind → ChatModel → ChatModel → Prop
  | identity (m : ChatModel) (username : Str) : Change .identity m (m.setIdentity username)
  | connection (m : ChatModel) (state : Str) : Change .connection m (m.setConnectionState state)
  | roster (m : ChatModel) (users : List Str) : Change .roster m (m.replaceRoster users)
  | presence (m : ChatModel) (user : Str) (online : Bool) : Change .presence m (m.setPresence user online)
  | contacts {m m' : ChatModel} {entries : List Json} (h : m.replaceContacts entries = .ok m') :
      Change .contacts m m'
  | typing (m : ChatModel) (key : Str) (user : Json) (on : Bool) : Change .typing m (m.setTyping key user on).1
  | message (m : ChatModel) (key : Str) {message : Message} (h : message.mine = true) :
      Change .message m (m.addMessage key message).1
  | filing (m : ChatModel) (key : Str) {message : Message} (h : message.mine = false) :
      Change .filing m (m.addMessage key message).1
  | history (m : ChatModel) (key : Str) (messages : List Message) : Change .history m (m.loadHistory key messages)
  | receipt (m : ChatModel) (key id state : Str) : Change .receipt m (m.setReceipt key id state)
  | selection (m : ChatModel) (key : Str) : Change .selection m (m.select key)
  | deselection (m : ChatModel) : Change .deselection m m.conversationNone.selectNone
  | borrowing (m : ChatModel) (active : Option Str) : Change .borrowing m { m with active }
  | members (m : ChatModel) (room : Str) (names : List Str) : Change .members m (m.setRoomMembers room names)

/-- A keyring method as the controller calls it: it seals under its own name, remembers
what a KEY frame says and forgets nothing. -/
def Keyring.KeyringCall.By (me : Str) (pairs : List (Str × Str)) : Keyring.KeyringCall → Prop
  | .remember user pubkey => (user, pubkey) ∈ pairs
  | .forget _ => False
  | .seal' _ _ sender => sender = me
  | .sealForMembers _ _ sender => sender = me
  | .open' .. => True

/-- The public key a frame brings. -/
def Frame.published (f : Frame) : List (Str × Str) :=
  if f.type = .key then [((f.get "user").pyStr, (f.get "pubkey").pyStr)] else []

/-- Says that a message was read. -/
def Call.isRead : Call → Bool
  | .receipt _ _ state => state = "READ"
  | _ => false

namespace ChatController

/-! ## `select` -/

/-- What `select` reports. -/
def reported (c : ChatController) (key : Str) : List Message :=
  if key.isRoom then []
  else (c.model.conversation key).messages.filter fun m => !m.mine && (c.model.conversation key).unread ≠ 0

omit [Runtime] [Crypto] in
/-- A receipt that cannot be sent is on the trace all the same, and raises nothing. -/
theorem exec_tryReceipt (target ref : Json) (state : Str) (c : ChatController) :
    exec (tryReceipt target ref state) c = (.ok (), c.afterCall (.receipt target ref state)) := by
  unfold tryReceipt
  rw [exec_tryCatch, exec_bind, exec_call]
  cases c.connection c.trace.length with
  | none => rfl
  | some stamp => rfl

omit [Runtime] [Crypto] in
/-- The receipts go on the trace, whether they get through or not. -/
theorem exec_receipts (ms : List Message) (state : Str) : ∀ c : ChatController, ∃ xs : List (Call × Bool),
    exec (ms.forM fun m => tryReceipt m.sender m.id state) c =
        (.ok ⟨⟩, { c with trace := c.trace ++ callEntries xs }) ∧
      xs.map Prod.fst = (ms.map fun m => .receipt m.sender m.id state) ∧
        ((∀ n, (c.connection n).isSome = true) → ∀ x ∈ xs, x.2 = true) := by
  induction ms with
  | nil =>
    intro c
    exact ⟨[], by rw [callEntries, List.map_nil, List.append_nil]; rfl, rfl, fun _ => nofun⟩
  | cons m ms ih =>
    intro c
    obtain ⟨xs, hrest, hxs, hthrough⟩ := ih (c.afterCall (.receipt m.sender m.id state))
    refine ⟨(.receipt m.sender m.id state, (c.connection c.trace.length).isSome) :: xs, ?_, ?_, fun hup x hx => ?_⟩
    · show exec (tryReceipt m.sender m.id state >>= fun _ => ms.forM fun m => tryReceipt m.sender m.id state) c = _
      rw [exec_bind, exec_tryReceipt]
      dsimp only
      rw [hrest]
      show (Except.ok PUnit.unit, { c with trace := (c.trace ++ [_]) ++ callEntries xs }) = _
      rw [List.append_assoc]
      rfl
    · rw [List.map_cons, hxs, List.map_cons]
    · rcases List.mem_cons.mp hx with hx | hx
      · rw [hx]
        exact hup _
      · exact hthrough hup x hx

omit [Runtime] [Crypto] in
/-- **`select`**: the conversation is active and read, and that is reported. -/
theorem exec_select (key : Str) (c : ChatController) : ∃ xs : List (Call × Bool),
    exec (select key) c =
        (.ok ⟨⟩, { c with model := c.model.select key, trace := c.trace ++ callEntries xs }) ∧
      xs.map Prod.fst = ((c.reported key).map fun m => .receipt m.sender m.id "READ") ∧
        ((∀ n, (c.connection n).isSome = true) → ∀ x ∈ xs, x.2 = true) := by
  unfold select reported
  rw [exec_bind, exec_get]
  dsimp only
  rw [exec_bind]
  show ∃ xs, exec (if key.isRoom = true then pure () else _) { c with model := c.model.select key } = _ ∧ _
  by_cases hroom : key.isRoom = true
  · rw [if_pos hroom, if_pos hroom]
    exact ⟨[], by rw [callEntries, List.map_nil, List.append_nil]; rfl, rfl, fun _ => nofun⟩
  · rw [if_neg hroom, if_neg hroom]
    exact exec_receipts _ "READ" _

omit [Runtime] [Crypto] in
/-- The controller has the changed model, whether the change raises or not. -/
theorem exec_onModel' (f : ChatModel → ChatModel × Except PyErr Unit) (c : ChatController) :
    (exec (onModel' f) c).2 = { c with model := (f c.model).1 } := by
  unfold onModel'
  rw [exec_bind, exec_get]
  dsimp only
  rw [exec_bind]
  cases (f c.model).2 with
  | ok u => rfl
  | error e => rfl

omit [Runtime] [Crypto] in
/-- A frame goes into the model and is noted with the conversation it went to. -/
theorem exec_addFrame (f : Frame) (key : Str) (body : Json) (ts : Int) (c : ChatController) :
    (exec (addFrame f key body ts) c).2 =
      { c with
        filed := c.filed ++ [(key, f)]
        model := (c.model.addMessage key { id := f.id, sender := f.sender.orElse (.str "?"), body, ts }).1 } := by
  unfold addFrame
  rw [exec_bind, exec_modify]
  exact exec_onModel' _ _

/-! ## Small changes -/

/-- What the controller has been handed, in order. -/
def received (c : ChatController) : List Frame :=
  c.trace.filterMap fun e =>
    match e with
    | .received f => some f
    | .called _ _ => none

omit [Runtime] [Crypto] in
/-- Calls bring no frames. -/
theorem received_callEntries (xs : List (Call × Bool)) :
    (callEntries xs).filterMap (fun e => match e with | .received f => some f | .called _ _ => none) =
      ([] : List Frame) := by
  unfold callEntries
  rw [List.filterMap_map, List.filterMap_eq_nil_iff]
  exact fun _ _ => rfl

/-- The controller as it handles the frame. -/
def receiving (c : ChatController) (f : Frame) : ChatController := { c with trace := c.trace ++ [.received f] }

omit [Runtime] [Crypto] in
/-- The frame is the last that came in. -/
@[simp] theorem received_receiving (c : ChatController) (f : Frame) : (c.receiving f).received = c.received ++ [f] := by
  simp [received, receiving]

section Handlers

variable {f : Frame}

/-- A frame is recorded, and its handler does the rest. -/
theorem step_frame (c : ChatController) {act : ClientM Unit}
    (h : onFrame f = do
      modify fun c => c.receiving f
      act) : c.step (.frame f) = (exec act (c.receiving f)).2 := by
  show (exec (onFrame f) c).2 = _
  rw [h, exec_bind, exec_modify]

/-- An MSG frame goes to `_incoming_message`, -/
theorem step_msg (c : ChatController) (h : f.type = .msg) :
    c.step (.frame f) = (exec (incomingMessage f) (c.receiving f)).2 := by
  refine step_frame c ?_
  unfold onFrame
  rw [h]
  rfl

/-- a KEY frame to `_key`, -/
theorem step_key (c : ChatController) (h : f.type = .key) : c.step (.frame f) = (exec (key f) (c.receiving f)).2 := by
  refine step_frame c ?_
  unfold onFrame
  rw [h]
  rfl

/-- a HISTORY_RESULT to `_history_result`, -/
theorem step_historyResult (c : ChatController) (h : f.type = .historyResult) :
    c.step (.frame f) = (exec (historyResult f) (c.receiving f)).2 := by
  refine step_frame c ?_
  unfold onFrame
  rw [h]
  rfl

/-- CONTACTS to the contact list, and then to the conversation that was asked for, -/
theorem step_contacts (c : ChatController) (h : f.type = .contacts) :
    c.step (.frame f) = (exec (do replaceContacts (f.get "contacts"); openPendingUser) (c.receiving f)).2 := by
  refine step_frame c ?_
  unfold onFrame
  rw [h]
  rfl

/-- a ROOM_STATE to `_room_state`, -/
theorem step_roomState (c : ChatController) (h : f.type = .roomState) :
    c.step (.frame f) = (exec (roomState f) (c.receiving f)).2 := by
  refine step_frame c ?_
  unfold onFrame
  rw [h]
  rfl

/-- a LOGIN_OK to `_logged_in`, -/
theorem step_loginOk (c : ChatController) (h : f.type = .loginOk) :
    c.step (.frame f) = (exec (loggedIn f) (c.receiving f)).2 := by
  refine step_frame c ?_
  unfold onFrame
  rw [h]
  rfl

/-- and an ERROR to `_on_error`, with its code as a string. -/
theorem step_error (c : ChatController) (h : f.type = .error) :
    c.step (.frame f) = (exec (onError (Json.getD f.data "code" (.str "ERROR")).pyStr) (c.receiving f)).2 := by
  refine step_frame c ?_
  unfold onFrame
  rw [h]
  rfl

end Handlers

/-- One small change. `kinds` are the changes of the model and `pairs` the public keys
that there may be. -/
inductive Micro (kinds : List Kind) (pairs : List (Str × Str)) : ChatController → ChatController → Prop
  | model {c : ChatController} {k : Kind} {m : ChatModel} (hk : k ∈ kinds) (hp : k.plain = true)
      (h : Change k c.model m) : Micro kinds pairs c { c with model := m }
  | selected (hk : .selection ∈ kinds) (c : ChatController) (key : Str) :
      Micro kinds pairs c (exec (select key) c).2
  | filed (hk : .filing ∈ kinds) (c : ChatController) (f : Frame) (key : Str) (body : Json) (ts : Int) :
      Micro kinds pairs c (exec (addFrame f key body ts) c).2
  | keyring {c : ChatController} {k : Keyring} {x : Keyring.KeyringCall} (hk : c.keyring = some k)
      (hx : x.By c.me pairs) : Micro kinds pairs c { c with keyring := some (k.apply x) }
  | called (c : ChatController) {x : Call} (hx : x.isRead = false) : Micro kinds pairs c (c.afterCall x)
  | held (c : ChatController) (held : List (Str × List Str)) : Micro kinds pairs c { c with held }
  | awaiting (hk : .filing ∈ kinds) (c : ChatController) (awaiting : List (Json × List Frame)) :
      Micro kinds pairs c { c with awaiting }
  | pendingUser (c : ChatController) (pendingUser : Option Str) : Micro kinds pairs c { c with pendingUser }
  | pendingRoom (c : ChatController) (pendingRoom : Option (Str × List Str)) : Micro kinds pairs c { c with pendingRoom }

/-- Small changes, one after the other. -/
abbrev Walk (kinds : List Kind) (pairs : List (Str × Str)) (c c' : ChatController) : Prop :=
  Relation.ReflTransGen (Micro kinds pairs) c c'

/-- What every small change preserves, all of them do. -/
theorem Walk.lift {kinds : List Kind} {pairs : List (Str × Str)} {c c' : ChatController} (h : Walk kinds pairs c c')
    {R : ChatController → ChatController → Prop} (hr : ∀ c, R c c) (ht : ∀ a b c, R a b → R b c → R a c)
    (hR : ∀ c c', Micro kinds pairs c c' → R c c') : R c c' := by
  induction h with
  | refl => exact hr _
  | tail _ hstep ih => exact ht _ _ _ ih (hR _ _ hstep)

/-- The model has been changed by changes of these kinds, and no frame has come in. -/
structure Moved (kinds : List Kind) (c c' : ChatController) : Prop where
  model : Relation.ReflTransGen (fun m m' => ∃ k ∈ kinds, Change k m m') c.model c'.model
  received : c'.received = c.received

/-- What a walk does to the model it does by changes of its kinds. -/
theorem Walk.moved {kinds : List Kind} {pairs : List (Str × Str)} {c c' : ChatController} (h : Walk kinds pairs c c') :
    Moved kinds c c' := by
  refine h.lift (fun c => ⟨.refl, rfl⟩)
    (fun a b c h h' => ⟨h.model.trans h'.model, h'.received.trans h.received⟩) fun c c' h => ?_
  cases h with
  | model hk hp h => exact ⟨.single ⟨_, hk, h⟩, rfl⟩
  | selected hk c key =>
    obtain ⟨xs, hselect, -⟩ := exec_select key c
    rw [hselect]
    refine ⟨.single ⟨_, hk, .selection c.model key⟩, ?_⟩
    show (c.trace ++ callEntries xs).filterMap _ = _
    rw [List.filterMap_append, received_callEntries, List.append_nil]
    rfl
  | filed hk c f key body ts =>
    rw [exec_addFrame]
    exact ⟨.single ⟨_, hk, .filing c.model key rfl⟩, rfl⟩
  | called c hx => exact ⟨.refl, by simp [received, afterCall]⟩
  | _ => exact ⟨.refl, rfl⟩

omit [Crypto] in
/-- What every change of the kinds preserves, all of them do. -/
theorem Moved.lift {kinds : List Kind} {c c' : ChatController} (h : Moved kinds c c') {R : ChatModel → ChatModel → Prop}
    (hr : ∀ m, R m m) (ht : ∀ a b c, R a b → R b c → R a c) (hR : ∀ k ∈ kinds, ∀ m m', Change k m m' → R m m') :
    R c.model c'.model := by
  have hmodel := h.model
  generalize c'.model = m' at hmodel
  induction hmodel with
  | refl => exact hr _
  | tail _ hstep ih =>
    obtain ⟨k, hk, hchange⟩ := hstep
    exact ht _ _ _ ih (hR k hk _ _ hchange)

omit [Crypto] in
/-- Without any kind the model is what it was. -/
theorem Moved.eq_of_nil {c c' : ChatController} (h : Moved [] c c') : c'.model = c.model :=
  h.lift (R := fun m m' => m' = m) (fun _ => rfl) (fun _ _ _ h h' => h'.trans h) nofun

omit [Crypto] in
/-- Who types is changed by these two kinds only. -/
theorem changed_typing {k : Kind} {m m' : ChatModel} (h : Change k m m') (ht : k ≠ .typing) (hf : k ≠ .filing) :
    m'.typing = m.typing := by
  cases h with
  | typing => exact absurd rfl ht
  | filing => exact absurd rfl hf
  | contacts h =>
    obtain ⟨contacts, roster, es, rfl, -⟩ := ChatModel.replaceContacts_cases h
    rfl
  | message _ key hmine => rw [ChatModel.addMessage_mine _ key hmine]; rfl
  | receipt _ key id state =>
    unfold ChatModel.setReceipt
    split
    · rfl
    · rfl
  | members _ room names =>
    obtain ⟨rooms, conversations, es, hset, -⟩ := ChatModel.setRoomMembers_eq m room names
    rw [hset]
    rfl
  | _ => rfl

omit [Crypto] in
/-- Only TYPING frames and filed messages change who is typing. -/
theorem Moved.typing {kinds : List Kind} {c c' : ChatController} (h : Moved kinds c c') (ht : .typing ∉ kinds)
    (hf : .filing ∉ kinds) : c'.model.typing = c.model.typing :=
  h.lift (R := fun m m' => m'.typing = m.typing) (fun _ => rfl) (fun _ _ _ h h' => h'.trans h) fun _ hk _ _ hchange =>
    changed_typing hchange (fun he => ht (he ▸ hk)) fun he => hf (he ▸ hk)

/-- Code made of such changes. -/
abbrev Moves {α : Type} (kinds : List Kind) (pairs : List (Str × Str)) (m : ClientM α) : Prop := Steps (Walk kinds pairs) m

variable {kinds : List Kind} {pairs : List (Str × Str)} {α β : Type} {c c' : ChatController}

/-- A result changes nothing. -/
theorem moves_pure (a : α) : Moves kinds pairs (pure a : ClientM α) := steps_pure (fun _ => .refl) a

/-- Neither does an exception. -/
theorem moves_throw (e : ClientErr) : Moves kinds pairs (throw e : ClientM α) := steps_throw (fun _ => .refl) e

/-- One after the other, and not the second where the first raises. -/
theorem moves_bind {m : ClientM α} {f : α → ClientM β} (hm : Moves kinds pairs m) (hf : ∀ a, Moves kinds pairs (f a)) :
    Moves kinds pairs (m >>= f) := Steps.bind (fun _ _ _ h h' => h.trans h') hm hf

/-- What is read is of no concern. -/
theorem moves_get {f : ChatController → ClientM α} (hf : ∀ c, Moves kinds pairs (f c)) : Moves kinds pairs (get >>= f) :=
  steps_get fun c => hf c c

/-- A loop is as many of them as it has turns. -/
theorem moves_forM {xs : List β} {f : β → ClientM PUnit} (hf : ∀ x, Moves kinds pairs (f x)) :
    Moves kinds pairs (xs.forM f) := steps_forM (fun _ => .refl) (fun _ _ _ h h' => h.trans h') hf

/-- The handler goes on where the block has stopped. -/
theorem moves_tryCatch {m : ClientM α} {h : ClientErr → ClientM α} (hm : Moves kinds pairs m)
    (hh : ∀ e, Moves kinds pairs (h e)) : Moves kinds pairs (tryCatch m h) :=
  Steps.tryCatch (fun _ _ _ h h' => h.trans h') hm hh

/-- One small change. -/
theorem moves_modify {f : ChatController → ChatController} (h : ∀ c, Micro kinds pairs c (f c)) :
    Moves kinds pairs (modify f : ClientM PUnit) := steps_modify fun c => .single (h c)

/-- A method of the model, of one of these kinds. -/
theorem onModel_moves {f : ChatModel → ChatModel} {k : Kind} (hk : k ∈ kinds) (hp : k.plain = true)
    (hf : ∀ m, Change k m (f m)) : Moves kinds pairs (onModel f) := moves_modify fun c => .model hk hp (hf c.model)

/-- The same, if it may raise: what it has done by then stays done. -/
theorem onModel'_moves {f : ChatModel → ChatModel × Except PyErr Unit} {k : Kind} (hk : k ∈ kinds)
    (hp : k.plain = true) (hf : ∀ m, Change k m (f m).1) : Moves kinds pairs (onModel' f) := by
  refine steps_get fun c => ?_
  have hmodel : Walk kinds pairs c (exec (onModel fun _ => (f c.model).1) c).2 :=
    .single (.model hk hp (hf c.model))
  rw [exec_bind]
  cases (f c.model).2 with
  | ok u => exact hmodel
  | error e => exact hmodel

/-- A computation without effects changes nothing, whether it raises or not. -/
theorem lift_moves (r : Except PyErr α) : Moves kinds pairs (lift r) := by
  cases r with
  | ok a => exact moves_pure a
  | error e => exact moves_throw _

/-- A call on the connection, READ reports apart. -/
theorem call_moves {x : Call} (hx : x.isRead = false) : Moves kinds pairs (call x) := by
  intro c
  rw [exec_call]
  exact .single (.called c hx)

/-- The same, with its result dropped. -/
theorem call_unit_moves {x : Call} (hx : x.isRead = false) :
    Moves kinds pairs (do let _ ← call x : ClientM Unit) := moves_bind (call_moves hx) fun _ => moves_pure _

/-- A DELIVERED report that may fail is such a call. -/
theorem delivered_moves (target ref : Json) : Moves kinds pairs (tryReceipt target ref "DELIVERED") :=
  moves_tryCatch (call_unit_moves rfl) fun _ => moves_pure _

/-- A keyring method, on the keyring the controller has. -/
theorem onKeyring_moves {c : ChatController} {k : Keyring} (hk : c.keyring = some k) {m : Keyring.KeyringM α}
    {x : Keyring.KeyringCall} (hx : x.By c.me pairs) (hm : (exec m k).2 = k.apply x) :
    Walk kinds pairs c (exec (onKeyring k m) c).2 := by
  have hcall : Walk kinds pairs c { c with keyring := some (exec m k).2 } := hm ▸ .single (.keyring hk hx)
  unfold onKeyring
  rw [exec_bind, exec_modify]
  cases (exec m k).1 with
  | ok a => exact hcall
  | error e => exact hcall

/-- The same, and what follows. -/
theorem onKeyring_bind_moves {c : ChatController} {k : Keyring} (hk : c.keyring = some k) {m : Keyring.KeyringM α}
    {x : Keyring.KeyringCall} (hx : x.By c.me pairs) (hm : (exec m k).2 = k.apply x) {f : α → ClientM β}
    (hf : ∀ a, Moves kinds pairs (f a)) : Walk kinds pairs c (exec (onKeyring k m >>= f) c).2 :=
  steps_bind_at (fun _ _ _ h h' => h.trans h') (onKeyring_moves hk hx hm) hf

/-- Looking at the first character of a name changes nothing. -/
theorem startsRoom_moves (v : Json) : Moves kinds pairs (startsRoom v) := by
  cases v with
  | str s => exact moves_pure _
  | _ => exact moves_throw _

/-- A timestamp is taken from the frame or the clock. -/
theorem timeOf_moves (ts : Int) : Moves kinds pairs (timeOf ts) :=
  steps_ite (moves_pure _) (moves_get fun _ => moves_pure _)

/-! ## Gestures -/

/-- `_hold` keeps the text and asks for keys. -/
theorem hold_moves (target text : Str) (fetch : List Str) : Moves kinds pairs (hold target text fetch) := by
  refine moves_get fun c => moves_bind (moves_modify fun c => .held c _) fun _ => ?_
  exact steps_ite (moves_forM fun user => call_unit_moves rfl) (moves_pure _)

/-- `select` is taken whole. -/
theorem select_moves (h : .selection ∈ kinds) (key : Str) : Moves kinds pairs (select key) :=
  fun c => .single (.selected h c key)

/-- Two calls. -/
theorem joinAndInvite_moves (room : Str) (members : List Str) : Moves kinds pairs (joinAndInvite room members) :=
  moves_bind (call_unit_moves rfl) fun _ => steps_ite (call_unit_moves rfl) (moves_pure _)

/-- `open_room` notes whom to invite, and joins the room or creates it. -/
theorem openRoom_moves (room : Str) (members : List Str) : Moves kinds pairs (openRoom room members) :=
  moves_bind (moves_modify fun c => .pendingRoom c _) fun _ => moves_get fun _ =>
    steps_ite (joinAndInvite_moves room members) (call_unit_moves rfl)

/-- `open_conversation` selects, opens a room, or asks for a key. -/
theorem openConversation_moves (h : .selection ∈ kinds) (user : Str) : Moves kinds pairs (openConversation user) := by
  refine moves_get fun c => steps_ite (moves_pure _) (steps_ite (openRoom_moves _ _) (steps_ite (moves_pure _)
    (steps_ite (select_moves h _) ?_)))
  exact moves_bind (moves_modify fun c => .pendingUser c _) fun _ => call_unit_moves rfl

/-- `_send_to_room` seals for everyone and sends, or holds the text. -/
theorem sendToRoom_moves {c : ChatController} {k : Keyring} (hk : c.keyring = some k) (room text : Str) :
    Walk kinds pairs c (exec (sendToRoom k room text c.me) c).2 := by
  unfold sendToRoom
  rw [exec_bind, exec_get]
  dsimp only
  split
  · have hhold : Moves kinds pairs (do
        hold room text (k.missingKeys ((c.model.roomMembers room).filter fun name => name ≠ c.me))
        return none : ClientM (Option (Str × Int))) := moves_bind (hold_moves _ _ _) fun _ => moves_pure _
    exact hhold c
  · have hby : (Keyring.KeyringCall.sealForMembers (c.model.roomMembers room) text c.me).By c.me pairs := rfl
    refine onKeyring_bind_moves hk hby rfl fun envelopes => ?_
    cases envelopes with
    | none => exact moves_bind (hold_moves _ _ _) fun _ => moves_pure _
    | some envelopes => exact moves_bind (call_moves rfl) fun _ => moves_pure _

/-- What `send` does before it shows the text: to a room, sealed for one user, plain, or
held. -/
theorem transmit_moves (target text : Str) (c : ChatController) :
    Walk kinds pairs c (exec (transmit target text c.me) c).2 := by
  unfold transmit
  rw [exec_bind, exec_get]
  dsimp only
  cases hk : c.keyring with
  | none =>
    have hcall : Moves kinds pairs (do return some (← call (.message target text none [])) :
        ClientM (Option (Str × Int))) := moves_bind (call_moves rfl) fun _ => moves_pure _
    exact hcall c
  | some k =>
    dsimp only
    split
    · exact sendToRoom_moves hk target text
    · have hby : (Keyring.KeyringCall.seal' target text c.me).By c.me pairs := rfl
      refine onKeyring_bind_moves hk hby rfl fun sealed => ?_
      cases sealed with
      | none => exact moves_bind (hold_moves _ _ _) fun _ => moves_pure _
      | some sealed => exact moves_bind (call_moves rfl) fun _ => moves_pure _

/-- `send` transmits the text, and shows it as a message of one's own if it went out. -/
theorem send_moves (h : .message ∈ kinds) (text : Str) : Moves kinds pairs (send text) := by
  refine moves_get fun c => ?_
  cases c.model.active with
  | none => exact moves_pure _
  | some target =>
    refine steps_ite (moves_pure _) (steps_get fun c => ?_)
    -- what goes out is sealed in the state in which the name was looked up
    refine steps_bind_at (fun _ _ _ h h' => h.trans h') (transmit_moves target text c) fun stamp => ?_
    cases stamp with
    | none => exact moves_pure _
    | some stamp => exact onModel'_moves h rfl fun m => .message m target rfl

/-- `_release` sends the texts with `active` put aside, and puts it back, also when it
raises. -/
theorem release_moves (hm : .message ∈ kinds) (hb : .borrowing ∈ kinds) (user : Str) :
    Moves kinds pairs (release user) := by
  refine moves_get fun c => moves_bind (moves_modify fun c => .held c _) fun _ => steps_ite (moves_pure _) ?_
  refine moves_bind (onModel_moves hb rfl fun m => .borrowing m _) fun _ => moves_bind ?_ fun _ =>
    onModel_moves hb rfl fun m => .borrowing m _
  exact moves_tryCatch (moves_forM fun text => send_moves hm text) fun e =>
    moves_bind (onModel_moves hb rfl fun m => .borrowing m _) fun _ => moves_throw e

/-! ## Frames -/

/-- Opening a body under the keyring remembers a secret in it, at most. -/
theorem opening_moves (shown marker peer body nonce author : Json) :
    Moves kinds pairs (opening shown marker (Keyring.open' peer body nonce author)) := by
  refine steps_get fun c => ?_
  cases hk : c.keyring with
  | none => exact .refl
  | some k =>
    dsimp only
    split
    · exact .refl
    · have hby : (Keyring.KeyringCall.open' peer body nonce author).By c.me pairs := trivial
      refine onKeyring_bind_moves hk hby rfl fun text => ?_
      cases text with
      | none => exact moves_pure _
      | some text => exact moves_pure _

/-- `_plaintext` opens the body with the peer's key, -/
theorem plaintext_moves (f : Frame) (peer : Json) : Moves kinds pairs (plaintext f peer) := by
  rw [plaintext_eq]
  exact opening_moves _ _ _ _ _ _

/-- `_file` reports a direct message as delivered first, -/
theorem reportDelivery_moves (f : Frame) (key : Json) : Moves kinds pairs (reportDelivery f key) :=
  steps_ite (moves_bind (startsRoom_moves key) fun _ => steps_ite (delivered_moves _ _) (moves_pure _))
    (moves_pure _)

/-- and puts what was opened into the conversation last. -/
theorem file_moves (h : .filing ∈ kinds) (f : Frame) (key : Json) : Moves kinds pairs (file f key) := by
  refine moves_bind (reportDelivery_moves f key) fun _ => moves_bind (plaintext_moves f _) fun body =>
    moves_bind (timeOf_moves f.ts) fun ts => ?_
  cases key with
  | str key => exact fun c => .single (.filed h c f key body ts)
  | _ => exact moves_throw _

/-- A frame whose key is missing is put behind the others that wait for it. -/
theorem keepAwaiting_moves (h : .filing ∈ kinds) (f : Frame) (peer : Json) : Moves kinds pairs (keepAwaiting f peer) :=
  moves_get fun _ => moves_bind (moves_modify fun c => .awaiting h c _) fun _ =>
    steps_ite (call_unit_moves rfl) (moves_pure _)

/-- `_incoming_message` does one or the other, or raises at a recipient that is no string.
-/
theorem incomingMessage_moves (h : .filing ∈ kinds) (f : Frame) : Moves kinds pairs (incomingMessage f) := by
  refine moves_bind (startsRoom_moves _) fun room => ?_
  dsimp only
  refine steps_ite (moves_pure _) (moves_get fun c => ?_)
  split
  · exact moves_throw _
  · exact keepAwaiting_moves h f _
  · exact file_moves h f _

/-- `_deliver_awaiting` takes the list and files frame by frame. -/
theorem deliverAwaiting_moves (h : .filing ∈ kinds) (user : Str) : Moves kinds pairs (deliverAwaiting user) :=
  moves_get fun _ => moves_bind (moves_modify fun c => .awaiting h c _) fun _ => moves_forM fun f =>
    moves_bind (startsRoom_moves _) fun _ => file_moves h f _

/-- A room is released if this was its last missing key. -/
theorem releaseRoom_moves (hm : .message ∈ kinds) (hb : .borrowing ∈ kinds) (room : Str) :
    Moves kinds pairs (releaseRoom room) := by
  refine moves_get fun c => ?_
  cases c.keyring with
  | none => exact moves_pure _
  | some k => exact steps_ite (release_moves hm hb room) (moves_pure _)

/-- `_key` remembers the key, releases the user's texts, files what waited, and releases
rooms. -/
theorem key_moves (hm : .message ∈ kinds) (hf : .filing ∈ kinds) (hb : .borrowing ∈ kinds) (f : Frame)
    (hp : ((f.get "user").pyStr, (f.get "pubkey").pyStr) ∈ pairs) : Moves kinds pairs (ChatController.key f) := by
  refine steps_get fun c => ?_
  cases hk : c.keyring with
  | none => exact .refl
  | some k =>
    dsimp only
    split
    · exact .refl
    · have hremember : Walk kinds pairs c
          { c with keyring := some (k.remember (f.get "user").pyStr (f.get "pubkey").pyStr) } :=
        .single (.keyring hk (show (Keyring.KeyringCall.remember _ _).By c.me pairs from hp))
      have hrest : Moves kinds pairs (do
          release (f.get "user").pyStr
          deliverAwaiting (f.get "user").pyStr
          let rooms := ((← get).held.map Prod.fst).filter Str.isRoom
          rooms.forM releaseRoom : ClientM Unit) :=
        moves_bind (release_moves hm hb _) fun _ => moves_bind (deliverAwaiting_moves hf _) fun _ =>
          moves_get fun _ => moves_forM fun room => releaseRoom_moves hm hb room
      exact hremember.trans (hrest _)

/-- `_receipt` sets a tick, -/
theorem receipt_moves (h : .receipt ∈ kinds) (f : Frame) : Moves kinds pairs (receipt f) :=
  steps_ite (onModel_moves h rfl fun m => .receipt m _ _ _) (moves_pure _)

/-- `_presence` a name's state, -/
theorem presence_moves (h : .presence ∈ kinds) (f : Frame) : Moves kinds pairs (presence f) :=
  steps_ite (onModel_moves h rfl fun m => .presence m _ _) (moves_pure _)

/-- and `_typing` who is typing, in a room or alone. -/
theorem incomingTyping_moves (h : .typing ∈ kinds) (f : Frame) : Moves kinds pairs (incomingTyping f) := by
  refine steps_ite (moves_pure _) (moves_bind (startsRoom_moves _) fun room => ?_)
  dsimp only
  split
  · exact onModel'_moves h rfl fun m => .typing m _ _ _
  · exact steps_ite (moves_pure _) (moves_throw _)

/-- `_stored_plaintext` opens a row of the history. -/
theorem storedPlaintext_moves (row : Dict) (key me : Str) : Moves kinds pairs (storedPlaintext row key me) := by
  obtain ⟨body, peer, author, heq⟩ := storedPlaintext_eq row key me
  rw [heq]
  exact opening_moves _ _ _ _ _ _

/-- The rows of a page are made into messages, one by one. -/
theorem storedMessages_moves (key : Str) (username : Option Str) (rows : List Json) :
    Moves kinds pairs (storedMessages key username rows) := by
  induction rows with
  | nil => exact moves_pure _
  | cons row rows ih =>
    refine moves_bind ?_ fun m => moves_bind ih fun ms => moves_pure _
    cases row with
    | dict row =>
      exact moves_bind (storedPlaintext_moves row key _) fun body => moves_bind (timeOf_moves 0) fun now =>
        moves_bind (lift_moves _) fun ts => moves_pure _
    | _ => exact moves_throw _

/-- `_history_result` loads them into the conversation. -/
theorem historyResult_moves (h : .history ∈ kinds) (f : Frame) : Moves kinds pairs (historyResult f) :=
  steps_ite (moves_pure _) (moves_get fun _ => moves_bind (lift_moves _) fun rows =>
    moves_bind (storedMessages_moves _ _ rows) fun ms => onModel_moves h rfl fun m => .history m _ ms)

/-- The contact list is replaced, or refused for a contact without a name. -/
theorem replaceContacts_moves (h : .contacts ∈ kinds) (contacts : Json) :
    Moves kinds pairs (replaceContacts contacts) := by
  refine moves_bind (lift_moves _) fun entries => steps_get fun c => ?_
  cases hr : c.model.replaceContacts entries with
  | error e => exact .refl
  | ok m => exact .single (.model h rfl (.contacts hr))

/-- The conversation that was asked for is selected once its user is a contact. -/
theorem openPendingUser_moves (h : .selection ∈ kinds) : Moves kinds pairs openPendingUser := by
  refine moves_get fun c => ?_
  cases c.pendingUser with
  | none => exact moves_pure _
  | some user =>
    exact steps_ite (moves_bind (moves_modify fun c => .pendingUser c _) fun _ => select_moves h user) (moves_pure _)

/-- `_room_state` sets the members, and selects the room if it was asked for. -/
theorem roomState_moves (hm : .members ∈ kinds) (hs : .selection ∈ kinds) (f : Frame) :
    Moves kinds pairs (ChatController.roomState f) := by
  refine steps_ite (moves_pure _) (moves_bind (lift_moves _) fun members => ?_)
  refine moves_bind (onModel_moves hm rfl fun m => .members m _ _) fun _ => moves_get fun c => ?_
  cases c.pendingRoom with
  | none => exact moves_pure _
  | some p =>
    exact steps_ite (moves_bind (moves_modify fun c => .pendingRoom c _) fun _ => select_moves hs _) (moves_pure _)

/-- `_on_error` gives up what was asked for, or joins the room that exists. -/
theorem onError_moves (code : Str) : Moves kinds pairs (onError code) := by
  refine steps_ite (moves_modify fun c => .pendingUser c _) (steps_ite (moves_get fun c => ?_)
    (steps_ite (moves_modify fun c => .pendingRoom c _) (moves_pure _)))
  cases c.pendingRoom with
  | none => exact moves_pure _
  | some p => exact joinAndInvite_moves p.1 p.2

/-- `_logged_in` takes over the name, the roster and the contacts, and may raise in between.
-/
theorem loggedIn_moves (hi : .identity ∈ kinds) (hr : .roster ∈ kinds) (hc : .contacts ∈ kinds) (f : Frame) :
    Moves kinds pairs (loggedIn f) := by
  have hrest : Moves kinds pairs (do
      let roster ← lift (iter ((f.get "roster").orElse (.list [])))
      onModel fun m => m.replaceRoster (roster.map Json.pyStr)
      replaceContacts (f.get "contacts") : ClientM Unit) :=
    moves_bind (lift_moves _) fun roster => moves_bind (onModel_moves hr rfl fun m => .roster m _) fun _ =>
      replaceContacts_moves hc _
  exact steps_ite (moves_bind (onModel_moves hi rfl fun m => .identity m _) fun _ => hrest) hrest

/-! ## Inputs -/

/-- The kinds of changes a frame may lead to. -/
def frameKinds : MessageType → List Kind
  | .msg => [.filing]
  | .presence => [.presence]
  | .typing => [.typing]
  | .receipt => [.receipt]
  | .key => [.message, .filing, .borrowing]
  | .historyResult => [.history]
  | .contacts => [.contacts, .selection]
  | .roomState => [.members, .selection]
  | .loginOk => [.identity, .roster, .contacts]
  | _ => []

/-- Those any input may lead to. -/
def Gesture.mayChange : Gesture → List Kind
  | .send _ => [.message]
  | .select _ => [.selection]
  | .selectNone => [.deselection]
  | .openConversation _ => [.selection]
  | .frame f => frameKinds f.type
  | .state _ => [.connection]
  | _ => []

omit [Runtime] [Crypto] in
/-- The other kinds come with frames. -/
theorem mayChange_frame {k : Kind} {g : Gesture} (h : k ∈ g.mayChange)
    (hk : k ∉ [Kind.message, .selection, .deselection, .connection]) :
    ∃ f, g = .frame f ∧ k ∈ frameKinds f.type := by
  have hown : (∀ f, g ≠ .frame f) → g.mayChange ⊆ [Kind.message, .selection, .deselection, .connection] := by
    intro hg
    cases g with
    | frame f => exact absurd rfl (hg f)
    | _ => simp [Gesture.mayChange]
  by_contra hno
  apply hk
  apply hown _ h
  intro f hf
  subst hf
  exact hno ⟨f, rfl, h⟩

/-- The public keys it may bring. -/
def Gesture.published : Gesture → List (Str × Str)
  | .frame f => f.published
  | _ => []

/-- What handling a frame comes to, from where the frame is on the trace. -/
theorem onFrame_walk (c : ChatController) (f : Frame) :
    Walk (frameKinds f.type) f.published (c.receiving f) (exec (onFrame f) c).2 := by
  unfold onFrame
  rw [exec_bind, exec_modify]
  dsimp only
  cases ht : f.type with
  | msg => exact incomingMessage_moves (by simp [frameKinds]) f _
  | presence => exact presence_moves (by simp [frameKinds]) f _
  | typing => exact incomingTyping_moves (by simp [frameKinds]) f _
  | receipt => exact receipt_moves (by simp [frameKinds]) f _
  | key =>
    exact key_moves (by simp [frameKinds]) (by simp [frameKinds]) (by simp [frameKinds]) f (by simp [Frame.published, ht]) _
  | historyResult => exact historyResult_moves (by simp [frameKinds]) f _
  | contacts =>
    refine moves_bind (replaceContacts_moves (by simp [frameKinds]) _) (fun _ => ?_) _
    exact openPendingUser_moves (by simp [frameKinds])
  | roomState => exact roomState_moves (by simp [frameKinds]) (by simp [frameKinds]) f _
  | loginOk => exact loggedIn_moves (by simp [frameKinds]) (by simp [frameKinds]) (by simp [frameKinds]) f _
  | error => exact onError_moves _ _
  | _ => exact moves_pure _ _

/-- A gesture is made of the changes it may lead to. -/
theorem handle_moves {g : Gesture} (hg : ∀ f, g ≠ .frame f) : Moves g.mayChange g.published (handle g) := by
  cases g with
  | send text => exact send_moves (by simp [Gesture.mayChange]) text
  | select key => exact select_moves (by simp [Gesture.mayChange]) key
  | selectNone =>
    exact moves_bind (onModel_moves (by simp [Gesture.mayChange]) rfl fun m => .deselection m) fun _ => moves_throw _
  | ping => exact call_unit_moves rfl
  | typing on =>
    refine moves_get fun c => ?_
    cases c.model.active with
    | none => exact moves_pure _
    | some active => exact call_unit_moves rfl
  | requestHistory key limit =>
    refine moves_get fun c => ?_
    dsimp only
    cases (key.filter fun k => !k.isEmpty).or c.model.active with
    | none => exact moves_pure _
    | some target => exact call_unit_moves rfl
  | createRoom room members => exact call_unit_moves rfl
  | invite room members => exact call_unit_moves rfl
  | openConversation user => exact openConversation_moves (by simp [Gesture.mayChange]) user
  | openRoom room members => exact openRoom_moves room members
  | addContact user => exact call_unit_moves rfl
  | removeContact user => exact call_unit_moves rfl
  | join room => exact call_unit_moves rfl
  | leave room => exact call_unit_moves rfl
  | frame f => exact absurd rfl (hg f)
  | state s => exact onModel_moves (by simp [Gesture.mayChange]) rfl fun m => .connection m s

/-- The controller as it handles the input. -/
def before (c : ChatController) : Gesture → ChatController
  | .frame f => c.receiving f
  | _ => c

omit [Runtime] [Crypto] in
/-- Recording the frame leaves the model alone. -/
@[simp] theorem model_before (c : ChatController) (g : Gesture) : (c.before g).model = c.model := by
  cases g <;> rfl

/-- **Every input** comes down to these small changes. -/
theorem step_walk (c : ChatController) (g : Gesture) : Walk g.mayChange g.published (c.before g) (c.step g) := by
  cases g with
  | frame f => exact onFrame_walk c f
  | _ => exact handle_moves (fun _ h => by cases h) c

/-- It changes the model by these kinds only. -/
theorem step_moved (c : ChatController) (g : Gesture) : Moved g.mayChange (c.before g) (c.step g) := (step_walk c g).moved

/-- What all changes of these kinds do to the model, an input does. -/
theorem step_lift (c : ChatController) {g : Gesture} {R : ChatModel → ChatModel → Prop} (hr : ∀ m, R m m)
    (ht : ∀ a b c, R a b → R b c → R a c) (hR : ∀ k ∈ g.mayChange, ∀ m m', Change k m m' → R m m') :
    R c.model (c.step g).model := by
  have hmoved := (step_moved c g).lift hr ht hR
  rw [model_before] at hmoved
  exact hmoved

/-! ## The keyring -/

omit [Runtime] in
/-- Its derived keys stay those of its public keys. -/
theorem apply_consistent {me : Str} {k : Keyring} (h : k.Consistent) {x : Keyring.KeyringCall} (hx : x.By me pairs) :
    (k.apply x).Consistent := by
  cases x with
  | remember user pubkey => exact Keyring.remember_consistent h user pubkey
  | forget user => exact hx.elim
  | seal' user text sender => exact (Keyring.derives_stepwise.seal' user text sender k h).consistent
  | sealForMembers members text sender => exact (Keyring.sealForMembers_grows h members text sender).consistent
  | open' user ciphertext nonce sender => exact (Keyring.derives_stepwise.open' user ciphertext nonce sender k h).consistent

/-- What happens to the keyring is a sequence of calls. -/
def Calls (pairs : List (Str × Str)) (c c' : ChatController) : Prop :=
  ∃ calls : List Keyring.KeyringCall, (∀ x ∈ calls, ∃ me, x.By me pairs) ∧ c'.keyring = c.keyring.map (·.applyAll calls)

omit [Runtime] in
/-- No call at all. -/
theorem Calls.refl (pairs : List (Str × Str)) (c : ChatController) : Calls pairs c c := by
  refine ⟨[], nofun, ?_⟩
  cases c.keyring with
  | none => rfl
  | some k => rfl

omit [Runtime] in
/-- The later calls come behind the earlier ones. -/
theorem Calls.trans {pairs : List (Str × Str)} (c₁ c₂ c₃ : ChatController) (h : Calls pairs c₁ c₂)
    (h' : Calls pairs c₂ c₃) : Calls pairs c₁ c₃ := by
  obtain ⟨calls, hby, hk⟩ := h
  obtain ⟨calls', hby', hk'⟩ := h'
  refine ⟨calls ++ calls', fun x hx => (List.mem_append.mp hx).elim (hby x) (hby' x), ?_⟩
  rw [hk', hk, Option.map_map]
  refine congrArg (c₁.keyring.map ·) (funext fun k => ?_)
  show (k.applyAll calls).applyAll calls' = k.applyAll (calls ++ calls')
  unfold Keyring.applyAll
  rw [List.foldl_append]

/-- Of the small changes only one touches the keyring, and it is a call. -/
theorem Walk.calls (h : Walk kinds pairs c c') : Calls pairs c c' := by
  refine h.lift (Calls.refl pairs) Calls.trans fun c c' h => ?_
  cases h with
  | @keyring _ k x hk hx =>
    refine ⟨[x], fun y hy => ⟨c.me, List.mem_singleton.mp hy ▸ hx⟩, ?_⟩
    rw [hk]
    rfl
  | selected hk c key =>
    obtain ⟨xs, hselect, -⟩ := exec_select key c
    rw [hselect]
    exact Calls.refl pairs c
  | filed hk c f key body ts =>
    rw [exec_addFrame]
    exact Calls.refl pairs c
  | _ => exact Calls.refl pairs c

omit [Runtime] in
/-- With more keys published, these are still such calls. -/
theorem Calls.mono {pairs' : List (Str × Str)} (h : Calls pairs c c') (hp : ∀ p ∈ pairs, p ∈ pairs') :
    Calls pairs' c c' := by
  obtain ⟨calls, hby, hk⟩ := h
  refine ⟨calls, fun x hx => ?_, hk⟩
  obtain ⟨me, hme⟩ := hby x hx
  refine ⟨me, ?_⟩
  cases x with
  | remember user pubkey => exact hp _ hme
  | _ => exact hme

omit [Runtime] in
/-- A keyring that starts consistent stays so. -/
theorem Calls.consistent (h : Calls pairs c c') (hs : ∀ k, c.keyring = some k → k.Consistent) : ∀ k, c'.keyring = some k → k.Consistent := by
  obtain ⟨calls, hby, hkeyring⟩ := h
  intro k' hk'
  rw [hkeyring] at hk'
  obtain ⟨k, hk, rfl⟩ := Option.map_eq_some_iff.mp hk'
  have hall : ∀ k : Keyring, k.Consistent → (k.applyAll calls).Consistent := by
    clear hkeyring hk'
    induction calls with
    | nil => exact fun _ h => h
    | cons x calls ih =>
      intro k h
      obtain ⟨me, hme⟩ := hby x (List.mem_cons_self ..)
      exact ih (fun y hy => hby y (List.mem_cons_of_mem _ hy)) _ (apply_consistent h hme)
  exact hall k (hs k hk)

/-- Each input of the run meets the condition where it comes. -/
def Throughout (P : ChatController → Gesture → Prop) : ChatController → List Gesture → Prop
  | _, [] => True
  | c, g :: gs => P c g ∧ Throughout P (c.step g) gs

/-- **The keyring over a run** has been called, and remembers what KEY frames said. -/
theorem run_calls (gs : List Gesture) : ∀ c : ChatController, Calls (gs.flatMap Gesture.published) c (c.run gs) := by
  induction gs with
  | nil => exact fun c => Calls.refl _ c
  | cons g gs ih =>
    intro c
    have hbefore : (c.before g).keyring = c.keyring := by cases g <;> rfl
    have hstep : Calls (g.published ++ gs.flatMap Gesture.published) c (c.step g) := by
      obtain ⟨calls, hby, hk⟩ := (step_walk c g).calls.mono fun p hp => List.mem_append_left _ hp
      exact ⟨calls, hby, hbefore ▸ hk⟩
    exact hstep.trans _ _ _ ((ih (c.step g)).mono fun p hp => List.mem_append_right _ hp)

end ChatController

end Ciphertext
