import Ciphertext.Client.Changes
import Ciphertext.Client.Opening
import Ciphertext.Client.Secrecy

/-!
# Ticks on the client

A receipt moves a message on or not at all, and every other change of the model
leaves the states of the user's own messages alone, but one: a HISTORY_RESULT
replaces a conversation by its rows, whose `state` nobody looks at. The reloaded
message is SENT, whatever the row and the model said.

So `forward_iff` says of one input that it takes a tick back exactly if it is such a
HISTORY_RESULT, with a row of the user's own whose message stood further (`Resets`), and
`run_forward_iff` says it of runs, from any state. `Agrees` is a server that only ever
reports what it holds; even then the tick goes back, as `reread` shows, because it is
the client that drops the row's state.
-/

namespace Ciphertext

open Act

/-- The user's own message with the id. -/
def Message.own (id : Json) (x : Message) : Bool := x.mine && x.id = id

namespace ChatModel

/-- The state of the user's own message with the id in a conversation (of the first,
if there are several: the one a receipt finds). -/
def ownState (m : ChatModel) (key : Str) (id : Json) : Option Str :=
  ((m.conversation key).messages.find? (Message.own id)).map Message.state

/-- No tick goes backwards. -/
def Forward (m m' : ChatModel) : Prop :=
  ∀ key id s s', m.ownState key id = some s → m'.ownState key id = some s' → receiptOrder s ≤ receiptOrder s'

/-- Nor is an own message dropped. -/
def Rises (m m' : ChatModel) : Prop :=
  ∀ key id s, m.ownState key id = some s → ∃ s', m'.ownState key id = some s' ∧ receiptOrder s ≤ receiptOrder s'

variable {m m' : ChatModel}

theorem Rises.refl (m : ChatModel) : m.Rises m := fun _ _ s h => ⟨s, h, le_rfl⟩

theorem Rises.trans (m₁ m₂ m₃ : ChatModel) (h : m₁.Rises m₂) (h' : m₂.Rises m₃) : m₁.Rises m₃ := by
  intro key id s hs
  obtain ⟨s', hs', hle⟩ := h key id s hs
  obtain ⟨s'', hs'', hle'⟩ := h' key id s' hs'
  exact ⟨s'', hs'', hle.trans hle'⟩

/-- What rises goes forward. -/
theorem Rises.forward (h : m.Rises m') : m.Forward m' := by
  intro key id s s' hs hs'
  obtain ⟨t, ht, hle⟩ := h key id s hs
  obtain rfl := Option.some.inj (hs'.symm.trans ht)
  exact hle

/-! ## One conversation -/

/-- Where the conversations are the same, every receipt is where it was. -/
theorem rises_of_conversations (h : m'.conversations = m.conversations) : m.Rises m' := by
  have hsame : ∀ key, m'.conversation key = m.conversation key := by
    intro key
    unfold conversation
    rw [h]
  intro key id s hs
  refine ⟨s, ?_, le_rfl⟩
  unfold ownState
  rw [hsame]
  exact hs

/-- A conversation is put back with other messages. -/
theorem rises_set {key : Str} {c : Conversation} (h : ∀ id x, (m.conversation key).messages.find? (Message.own id) = some x →
    ∃ x', c.messages.find? (Message.own id) = some x' ∧ receiptOrder x.state ≤ receiptOrder x'.state) :
    m.Rises (m.setConversation key c) := by
  intro key' id s hs
  unfold ownState
  rw [conversation_set]
  split
  next hkey =>
    subst hkey
    obtain ⟨x, hx, rfl⟩ := Option.map_eq_some_iff.mp hs
    obtain ⟨x', hx', hle⟩ := h id x hx
    exact ⟨x'.state, by rw [hx']; rfl, hle⟩
  next => exact ⟨s, hs, le_rfl⟩

/-- A receipt moves a message on or not at all. -/
theorem find_receive (ref state : Str) (id : Json) {ms : List Message} {x : Message}
    (h : ms.find? (Message.own id) = some x) :
    ∃ x', (receive ref state ms).find? (Message.own id) = some x' ∧
      receiptOrder x.state ≤ receiptOrder x'.state := by
  induction ms with
  | nil => cases h
  | cons m ms ih =>
    unfold receive
    by_cases hm : m.own id = true
    · rw [List.find?_cons_of_pos hm] at h
      obtain rfl := Option.some.inj h
      split
      · exact ⟨m, List.find?_cons_of_pos hm, le_rfl⟩
      · split
        · exact ⟨m, List.find?_cons_of_pos hm, le_rfl⟩
        next hlt =>
          exact ⟨{ m with state }, List.find?_cons_of_pos hm, (Nat.lt_of_not_le hlt).le⟩
    · rw [List.find?_cons_of_neg hm] at h
      split
      · obtain ⟨x', hx', hle⟩ := ih h
        exact ⟨x', by rwa [List.find?_cons_of_neg hm], hle⟩
      · split
        · exact ⟨x, by rwa [List.find?_cons_of_neg hm], le_rfl⟩
        · exact ⟨x, by rwa [List.find?_cons_of_neg (show ¬ Message.own id { m with state } = true from hm)], le_rfl⟩

/-- A new message comes last. -/
theorem rises_addMessage (m : ChatModel) (key : Str) (message : Message) : m.Rises (m.addMessage key message).1 := by
  have hset : m.Rises (m.setConversation key ((m.conversation key).add message (m.active = some key))) := by
    refine rises_set fun id x hx => ⟨x, ?_, le_rfl⟩
    rw [Conversation.add, List.find?_append, hx]
    rfl
  exact .trans _ _ _ hset (rises_of_conversations (addMessage_conversations m key message))

/-- **Loading messages that are all SENT** takes a tick back if one of the user's own
that was further is among them. -/
theorem forward_loadHistory (m : ChatModel) (key : Str) {ms : List Message} (hsent : ∀ x ∈ ms, x.state = "SENT") :
    m.Forward (m.loadHistory key ms) ↔
      ∀ id s, (∃ x ∈ ms, x.own id = true) → m.ownState key id = some s → receiptOrder s = 0 := by
  have hzero : receiptOrder "SENT" = 0 := rfl
  have hafter : ∀ key' id, (m.loadHistory key ms).ownState key' id =
      if key' = key then (ms.find? (Message.own id)).map Message.state else m.ownState key' id := by
    intro key' id
    unfold ownState
    rw [conversation_loadHistory]
    split <;> rfl
  constructor
  · intro h id s hx hs
    obtain ⟨x, hx⟩ := Option.isSome_iff_exists.mp (List.find?_isSome.mpr hx)
    have hnow : (m.loadHistory key ms).ownState key id = some x.state := by
      rw [hafter, if_pos rfl, hx, Option.map_some]
    have hle := h key id s x.state hs hnow
    rw [hsent x (List.mem_of_find?_eq_some hx)] at hle
    omega
  · intro h key' id s s' hs hs'
    rw [hafter] at hs'
    by_cases hkey : key' = key
    · subst hkey
      rw [if_pos rfl] at hs'
      obtain ⟨x, hx, -⟩ := Option.map_eq_some_iff.mp hs'
      have hs0 := h id s ⟨x, List.mem_of_find?_eq_some hx, List.find?_some hx⟩ hs
      omega
    · rw [if_neg hkey, hs] at hs'
      obtain rfl := Option.some.inj hs'
      exact le_rfl

variable [Runtime]

/-- A contact list leaves the conversations alone. -/
theorem replaceContacts_conversations {entries : List Json} (h : m.replaceContacts entries = .ok m') :
    m'.conversations = m.conversations := by
  obtain ⟨contacts, roster, es, rfl, -⟩ := replaceContacts_cases h
  rfl

/-- **Every other change** leaves the ticks where they are, or moves one on. -/
theorem rises_of_change {k : Kind} (hk : k ≠ .history) (h : Change k m m') : m.Rises m' := by
  cases h with
  | history => exact absurd rfl hk
  | contacts h => exact rises_of_conversations (replaceContacts_conversations h)
  | message _ key _ => exact rises_addMessage m key _
  | filing _ key _ => exact rises_addMessage m key _
  | typing _ key user on => exact rises_of_conversations (setTyping_conversations m key user on)
  | receipt _ key id state =>
    unfold setReceipt
    cases hc : PyDict.get m.conversations key with
    | none => exact .refl m
    | some c =>
      have hset : m.Rises (m.setConversation key { c with messages := receive id state c.messages }) := by
        refine rises_set fun id' x hx => find_receive id state id' ?_
        rw [conversation, hc] at hx
        exact hx
      exact .trans _ _ _ hset (rises_of_conversations rfl)
  | selection _ key =>
    have hset : m.Rises (m.setConversation key { m.conversation key with unread := 0 }) :=
      rises_set fun id x hx => ⟨x, hx, le_rfl⟩
    exact .trans _ _ _ hset (rises_of_conversations rfl)
  | members _ room names =>
    unfold setRoomMembers
    dsimp only
    split
    · exact .refl m
    · have hset : ChatModel.Rises { m with rooms := PyDict.insert m.rooms room (Str.sorted names) }
          (ChatModel.setConversation { m with rooms := PyDict.insert m.rooms room (Str.sorted names) } room
            (m.conversation room)) :=
        rises_set fun id x hx => ⟨x, hx, le_rfl⟩
      exact .trans _ _ _ (rises_of_conversations rfl) hset
  | _ => exact rises_of_conversations rfl

end ChatModel

namespace ChatController

variable [Crypto] [Runtime]

/-! ## Reloading -/

/-- The conversation a HISTORY_RESULT is for. -/
def historyKey (f : Frame) : Json := (f.get "room").orElse f.target

/-- The rows of a HISTORY_RESULT all become messages: none of them raises. -/
def Readable (c : ChatController) (f : Frame) (rows : List Json) : Prop :=
  (historyKey f).truthy = true ∧ iter ((f.get "messages").orElse (.list [])) = .ok rows ∧
    ∀ row ∈ rows, Reads c.keyring (historyKey f).pyStr (c.model.username.getD []) row

/-- The row is from the user, under this id. -/
def OwnRow (c : ChatController) (row : Dict) (id : Json) : Prop :=
  Json.get row "from" = (c.model.username.map .str).getD .null ∧ id = .str (Json.getD row "id" (.str [])).pyStr

/-- A HISTORY_RESULT with a message of the user's own whose tick is beyond SENT. -/
def Resets (c : ChatController) (f : Frame) : Prop :=
  f.type = .historyResult ∧ ∃ rows, c.Readable f rows ∧ ∃ row id s, .dict row ∈ rows ∧ c.OwnRow row id ∧
    c.model.ownState (historyKey f).pyStr id = some s ∧ ChatModel.receiptOrder s ≠ 0

/-- What a HISTORY_RESULT does to the model: nothing, or it loads its rows. -/
def Reloaded (c : ChatController) (f : Frame) (c' : ChatController) : Prop :=
  c'.model = c.model ∧ (∀ rows, ¬ c.Readable f rows) ∨
    ∃ rows ms, c.Readable f rows ∧ List.Forall₂ (StoredAs c.model.username) rows ms ∧
      c'.model = c.model.loadHistory (historyKey f).pyStr ms

/-- What a HISTORY_RESULT does to the model, also where it raises. -/
theorem historyResult_ends (c : ChatController) (f : Frame) :
    Ends (historyResult f) (c.receiving f) (fun _ c' => c.Reloaded f c') fun _ c' => c.Reloaded f c' := by
  unfold historyResult
  dsimp only
  by_cases hkey : (historyKey f).truthy = true
  · rw [if_neg (by simpa [historyKey] using hkey)]
    refine ends_get ?_
    cases hiter : iter ((f.get "messages").orElse (.list [])) with
    | error e =>
      refine ends_throw (.inl ⟨rfl, fun rows h => ?_⟩)
      cases hiter.symm.trans h.2.1
    | ok rows =>
      have hlift : Ends (lift (.ok rows)) (c.receiving f) (fun a c₁ => a = rows ∧ c₁ = c.receiving f)
          fun _ c' => c.Reloaded f c' := ends_pure ⟨rfl, rfl⟩
      refine hlift.bind fun a c₁ ha => ?_
      obtain ⟨rfl, rfl⟩ := ha
      have hmodel : Moves [] [] (storedMessages (historyKey f).pyStr c.model.username a) := storedMessages_moves _ _ a
      have hstored := storedMessages_ends (historyKey f).pyStr c.model.username a (c.receiving f)
      refine Ends.bind ((hstored.and_steps hmodel).mono (fun ms c₁ h => h) fun e c₁ h => ?_) fun ms c₁ h => ?_
      · obtain ⟨hmoved, hno⟩ := h
        refine .inl ⟨hmoved.moved.eq_of_nil, fun rows h => ?_⟩
        obtain ⟨-, hrows, hread⟩ := h
        obtain rfl := Except.ok.inj (hiter.symm.trans hrows)
        exact hno hread
      · obtain ⟨hmoved, hrows, hread⟩ := h
        have hload : (exec (onModel fun m => m.loadHistory (historyKey f).pyStr ms) c₁).2.model =
            c.model.loadHistory (historyKey f).pyStr ms := congrArg (ChatModel.loadHistory · _ ms) hmoved.moved.eq_of_nil
        exact .inr ⟨a, ms, ⟨hkey, hiter, hread⟩, hrows, hload⟩
  · rw [if_pos (by simpa [historyKey] using hkey)]
    exact ends_pure (.inl ⟨rfl, fun rows h => hkey h.1⟩)

/-! ## One input -/

variable {username : Option Str} {rows : List Json} {ms : List Message}

omit [Crypto] in
/-- A message in the list comes from a row, and each row gives one. -/
theorem own_of_stored (h : List.Forall₂ (StoredAs username) rows ms) (id : Json) :
    (∃ m ∈ ms, m.own id = true) ↔ ∃ row, .dict row ∈ rows ∧
      Json.get row "from" = (username.map .str).getD .null ∧ id = .str (Json.getD row "id" (.str [])).pyStr := by
  induction h with
  | nil => simp
  | @cons row m rows ms hone _ ih =>
    obtain ⟨d, rfl, hid, hmine, -⟩ := hone
    have hown : m.own id = true ↔
        Json.get d "from" = (username.map .str).getD .null ∧ id = .str (Json.getD d "id" (.str [])).pyStr := by
      rw [Message.own, hid, hmine, Bool.and_eq_true, decide_eq_true_iff, decide_eq_true_iff]
      exact and_congr_right' eq_comm
    simp only [List.mem_cons, exists_eq_or_imp, hown, ih]
    constructor
    · intro h
      cases h with
      | inl h => exact ⟨d, .inl rfl, h⟩
      | inr h =>
        obtain ⟨row, hrow, h⟩ := h
        exact ⟨row, .inr hrow, h⟩
    · intro h
      obtain ⟨row, hrow | hrow, h⟩ := h
      · exact .inl (Json.dict.inj hrow ▸ h)
      · exact .inr ⟨row, hrow, h⟩

omit [Crypto] in
/-- All of them are SENT. -/
theorem state_of_stored (h : List.Forall₂ (StoredAs username) rows ms) : ∀ m ∈ ms, m.state = "SENT" := by
  induction h with
  | nil => exact nofun
  | cons hone _ ih =>
    obtain ⟨_, -, -, -, hstate⟩ := hone
    exact List.forall_mem_cons.mpr ⟨hstate, ih⟩

omit [Crypto] [Runtime] in
/-- Only a HISTORY_RESULT reloads anything. -/
theorem mayChange_history {g : Gesture} (h : .history ∈ g.mayChange) : ∃ f, g = .frame f ∧ f.type = .historyResult := by
  obtain ⟨f, rfl, hf⟩ := mayChange_frame h (by simp)
  refine ⟨f, rfl, ?_⟩
  revert hf
  cases f.type <;> simp [frameKinds]

/-- **One input** moves a tick backwards exactly if it is such a HISTORY_RESULT. -/
theorem forward_iff (c : ChatController) (g : Gesture) :
    c.model.Forward (c.step g).model ↔ ∀ f, g = .frame f → ¬ c.Resets f := by
  -- only a HISTORY_RESULT puts other messages in the place of those there are
  by_cases hg : .history ∈ g.mayChange
  · obtain ⟨f, rfl, ht⟩ := mayChange_history hg
    have hstep : c.step (.frame f) = (exec (historyResult f) (c.receiving f)).2 := step_historyResult c ht
    have hend : c.Reloaded f (c.step (.frame f)) := by
      have h := historyResult_ends c f
      rw [hstep]
      unfold Ends at h
      split at h
      next hrun => rwa [hrun]
      next hrun => rwa [hrun]
    have hframe : (∀ f', Gesture.frame f = .frame f' → ¬ c.Resets f') ↔ ¬ c.Resets f :=
      ⟨fun h => h f rfl, fun h f' hf' => Gesture.frame.inj hf' ▸ h⟩
    rw [hframe]
    cases hend with
    | inl hsame =>
      obtain ⟨hmodel, hread⟩ := hsame
      rw [hmodel]
      exact ⟨fun _ hr => hread _ hr.2.choose_spec.1, fun _ => (ChatModel.Rises.refl _).forward⟩
    | inr hload =>
      obtain ⟨rows, ms, hread, hstored, hmodel⟩ := hload
      rw [hmodel, ChatModel.forward_loadHistory _ _ (state_of_stored hstored)]
      constructor
      · intro h hreset
        obtain ⟨-, rows', hread', row, id, s, hrow, hown, hs, hne⟩ := hreset
        obtain rfl : rows' = rows := Except.ok.inj (hread'.2.1.symm.trans hread.2.1)
        exact hne (h id s ((own_of_stored hstored id).mpr ⟨row, hrow, hown⟩) hs)
      · intro h id s hx hs
        by_contra hne
        obtain ⟨row, hrow, hown⟩ := (own_of_stored hstored id).mp hx
        exact h ⟨ht, rows, hread, row, id, s, hrow, hown, hs, hne⟩
  · have hrises : c.model.Rises (c.step g).model :=
      step_lift c ChatModel.Rises.refl ChatModel.Rises.trans fun k hk _ _ hchange =>
        ChatModel.rises_of_change (ne_of_mem_of_not_mem hk hg) hchange
    refine ⟨fun _ f hf hreset => hg ?_, fun _ => hrises.forward⟩
    subst hf
    show Kind.history ∈ frameKinds f.type
    rw [hreset.1]
    exact List.mem_singleton_self _

/-- The last gesture is handled last. -/
theorem run_snoc (c : ChatController) (gs : List Gesture) (g : Gesture) : c.run (gs ++ [g]) = (c.run gs).step g := by
  unfold run
  rw [List.foldl_append]
  rfl

/-- **Ticks never go backwards** in a run, unless a HISTORY_RESULT takes one back. -/
theorem run_forward_iff (c : ChatController) (gs : List Gesture) :
    (∀ pre g post, gs = pre ++ g :: post → (c.run pre).model.Forward (c.run (pre ++ [g])).model) ↔
      ∀ pre f post, gs = pre ++ .frame f :: post → ¬ (c.run pre).Resets f := by
  constructor
  · intro h pre f post hgs
    have hone := h pre (.frame f) post hgs
    rw [run_snoc] at hone
    exact (forward_iff _ _).mp hone f rfl
  · intro h pre g post hgs
    rw [run_snoc]
    refine (forward_iff _ _).mpr fun f hf => ?_
    subst hf
    exact h pre f post hgs

/-! ## A tick that goes -/

/-- What the frames say agrees with the states the server holds, which only grow: the
rows of a HISTORY_RESULT carry them, and no receipt exceeds them. -/
structure Agrees (held : Nat → Json → Str) (gs : List Gesture) : Prop where
  grows : ∀ i j id, i ≤ j → ChatModel.receiptOrder (held i id) ≤ ChatModel.receiptOrder (held j id)
  rows : ∀ i f rows row, gs[i]? = some (.frame f) → f.type = .historyResult → f.get "messages" = .list rows →
    .dict row ∈ rows → Json.get row "state" = .str (held i (Json.get row "id"))
  receipts : ∀ i f state, gs[i]? = some (.frame f) → f.type = .receipt → f.get "state" = .str state →
    ChatModel.receiptOrder state ≤ ChatModel.receiptOrder (held i (f.get "ref"))

end ChatController

namespace Sample

/-- `a`'s message is read, and `b`'s conversation loaded again. -/
def reread : List ChatController.Gesture :=
  [.frame { type := .loginOk, data := [("user", .str "a")], id := .str "l", ts := 0 }, .select "b", .send "hi",
    .frame { type := .receipt, sender := .str "b", data := [("ref", .str "i"), ("state", .str "READ")],
             id := .str "r", ts := 2 },
    .frame { type := .historyResult, target := .str "b",
             data := [("messages", .list [.dict [("id", .str "i"), ("from", .str "a"), ("body", .str "hi"),
               ("ts", .int 1), ("state", .str "READ")]])],
             id := .str "h", ts := 3 }]

end Sample

namespace ChatController

section Concrete

open Sample

attribute [local instance] toyCrypto sampleRuntime

/-- The row tells READ, and the message is SENT again. -/
theorem reread_unread :
    Agrees (fun i _ => if i < 3 then "SENT" else "READ") reread ∧
    ¬ ∀ pre g post, reread = pre ++ g :: post →
      (({ keyring := none, connection := fun _ => some ("i", 1), clock := fun _ => 0 } : ChatController).run
        pre).model.Forward
      (({ keyring := none, connection := fun _ => some ("i", 1), clock := fun _ => 0 } : ChatController).run
        (pre ++ [g])).model := by
  constructor
  · constructor
    · intro i j id hij
      split
      · exact Nat.zero_le _
      · rw [if_neg (by omega)]
    · intro i f rows row hf ht hrows hrow
      match i with
      | 4 =>
        obtain rfl := Gesture.frame.inj (Option.some.inj hf)
        obtain rfl := Json.list.inj hrows
        obtain rfl := Json.dict.inj (List.mem_singleton.mp hrow)
        rfl
      | 0 | 3 =>
        obtain rfl := Gesture.frame.inj (Option.some.inj hf)
        cases ht
      | 1 | 2 => cases Option.some.inj hf
      | _ + 5 => cases hf
    · intro i f state hf ht hstate
      match i with
      | 3 =>
        obtain rfl := Gesture.frame.inj (Option.some.inj hf)
        obtain rfl := Json.str.inj hstate
        decide
      | 0 | 4 =>
        obtain rfl := Gesture.frame.inj (Option.some.inj hf)
        cases ht
      | 1 | 2 => cases Option.some.inj hf
      | _ + 5 => cases hf
  · intro h
    have hback := h (reread.take 4) _ [] rfl "b" (.str "i") "READ" "SENT" (by decide +kernel) (by decide +kernel)
    exact absurd hback (by decide)

end Concrete

end ChatController

end Ciphertext
