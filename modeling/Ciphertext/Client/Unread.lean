import Ciphertext.Client.Arrivals
import Ciphertext.Client.ReadReports

/-!
# Unread counts

`ChatModel` counts what comes while its conversation is not on screen, and tells a view of
every new count. The model's counts are therefore met twice from outside: as a tally of the
run (`tally`), and as the last count a view has been told (`heard`).

The tally is always right. The view misses a count where `add_message` raises: the message
is counted by then, and taking its sender out of those who type comes before the events.
`run_exact` says that nothing else parts the two.

The tally is kept by every kind of change (`step_tallied`), and telling by all but
filing (`turned_of_change`). Filing is followed in its two places, for a message that
comes in and for those that waited for a key (`incomingMessage_told`, `key_told`).
-/

namespace Ciphertext

open Act

namespace ChatModel

/-! ## What a view is told -/

/-- What a view that renders on events alone holds for the count of a conversation. -/
def hear (key : Str) (unread : Nat) (e : Event × Fields) : Nat :=
  match e.1 with
  | .unreadChanged key' unread' => if key' = key then unread' else unread
  | _ => unread

/-- The count in the last `UnreadChanged` of the conversation, 0 without any. -/
def heard (key : Str) (emitted : List (Event × Fields)) : Nat := emitted.foldl (hear key) 0

/-- The conversation is selected by one of these events. -/
def selects (key : Str) (es : List (Event × Fields)) : Bool :=
  es.any fun e => e.1 = .conversationSelected (some key)

/-- Every count has been told. -/
def Told (m : ChatModel) : Prop := ∀ key, heard key m.emitted = m.unread key

/-- What is on screen is read. -/
def Shown (m : ChatModel) : Prop := ∀ key, m.active = some key → m.unread key = 0

/-- The event says nothing of a count. -/
def Event.aside : Event → Bool
  | .unreadChanged _ _ => false
  | .conversationSelected (some _) => false
  | _ => true

theorem aside_unless {p : Prop} [Decidable p] {e : Event} (h : e.aside = true) :
    ∀ x ∈ (if p then [] else [e]), x.aside = true := by
  split
  · exact nofun
  · exact List.forall_mem_singleton.mpr h

/-- It is selected in the one or in the other. -/
theorem selects_append (key : Str) (es es' : List (Event × Fields)) :
    selects key (es ++ es') = (selects key es || selects key es') := List.any_append

/-- None of these events selects anything. -/
theorem selects_aside {es : List (Event × Fields)} (h : ∀ e ∈ es, e.1.aside = true) (key : Str) :
    selects key es = false := by
  unfold selects
  rw [List.any_eq_false]
  intro e he
  have haside := h e he
  intro hsel
  rw [of_decide_eq_true hsel] at haside
  cases haside

/-- What is heard later is counted on from what was heard before. -/
theorem heard_append (key : Str) (es es' : List (Event × Fields)) :
    heard key (es ++ es') = es'.foldl (hear key) (heard key es) := List.foldl_append

/-- None of these events is heard. -/
theorem foldl_hear_aside {es : List (Event × Fields)} (h : ∀ e ∈ es, e.1.aside = true) (key : Str) (n : Nat) :
    es.foldl (hear key) n = n := by
  induction es with
  | nil => rfl
  | cons e es ih =>
    have haside := h e (List.mem_cons_self ..)
    have hfirst : hear key n e = n := by
      unfold hear
      split
      · next he =>
        rw [he] at haside
        cases haside
      · rfl
    rw [List.foldl_cons, hfirst]
    exact ih fun e' he' => h e' (List.mem_cons_of_mem _ he')

/-- Nothing is counted, nothing is read, and the view is told of neither. -/
structure Uncounted (m m' : ChatModel) : Prop where
  unread : ∀ key, m'.unread key = m.unread key
  emitted : ∃ es, m'.emitted = m.emitted ++ es ∧ ∀ e ∈ es, e.1.aside = true

variable {m m' : ChatModel}

/-- Emitting such events counts nothing. -/
theorem uncounted_emit (hstill : m.Still m') (hemitted : m'.emitted = m.emitted) {es : List Event}
    (h : ∀ e ∈ es, e.aside = true) : Uncounted m (m'.emit es) := by
  refine ⟨fun key => (hstill key).2, es.map fun e => (e, m'.toFields), congrArg (· ++ _) hemitted, fun e he => ?_⟩
  obtain ⟨x, hx, rfl⟩ := List.mem_map.mp he
  exact h x hx

/-- Counts change by these, too: what is selected is read. No frame is filed. -/
structure Turned (m m' : ChatModel) : Prop where
  emitted : ∃ es, m'.emitted = m.emitted ++ es ∧
    ∀ key, m'.unread key = if selects key es then 0 else m.unread key
  told : m.Told → m'.Told

theorem Turned.refl (m : ChatModel) : m.Turned m := ⟨⟨[], (List.append_nil _).symm, fun _ => rfl⟩, id⟩

theorem Turned.trans (m₁ m₂ m₃ : ChatModel) (h : m₁.Turned m₂) (h' : m₂.Turned m₃) : m₁.Turned m₃ := by
  obtain ⟨es, hes, hunread⟩ := h.emitted
  obtain ⟨es', hes', hunread'⟩ := h'.emitted
  refine ⟨⟨es ++ es', by rw [hes', hes, List.append_assoc], fun key => ?_⟩, fun ht => h'.told (h.told ht)⟩
  rw [hunread', hunread, selects_append]
  cases selects key es with
  | true => simp
  | false => simp

theorem Uncounted.turned (h : Uncounted m m') : m.Turned m' := by
  obtain ⟨es, hes, haside⟩ := h.emitted
  refine ⟨⟨es, hes, fun key => ?_⟩, fun ht key => ?_⟩
  · rw [h.unread, selects_aside haside]
    rfl
  · rw [hes, heard_append, foldl_hear_aside haside, h.unread]
    exact ht key

/-- **`select`** reads the conversation, and tells it if there was anything to read. -/
theorem turned_select (m : ChatModel) (key : Str) : m.Turned (m.select key) := by
  have hunread := fun key' => (m.theirs_select key key').2
  have hselects : ∀ (p : Fields) (key' : Str), selects key' ((Event.conversationSelected (some key), p) ::
      (if (m.conversation key).unread ≠ 0 then [Event.unreadChanged key 0] else []).map fun e => (e, p)) =
        decide (key' = key) := by
    intro p key'
    by_cases hkey : key' = key
    · simp [selects, hkey]
    · have hother : key ≠ key' := fun h => hkey h.symm
      unfold selects
      split
      · simp [hkey, hother]
      · simp [hkey, hother]
  refine ⟨⟨_, rfl, fun key' => ?_⟩, fun ht key' => ?_⟩
  · rw [hunread]
    refine if_congr ?_ rfl rfl
    rw [← decide_eq_true_iff (p := key' = key), ← hselects _ key']
    rfl
  · -- a view that holds another count than 0 is told of 0
    rw [hunread]
    show heard key' (m.emitted ++ _) = _
    rw [heard_append, ht key', List.map_cons, List.foldl_cons]
    show List.foldl (hear key') (m.unread key') (List.map _ (if m.unread key ≠ 0 then _ else [])) = _
    by_cases hread : m.unread key = 0
    · rw [if_neg (not_not_intro hread)]
      split
      · next hkey => rw [hkey]; exact hread
      · rfl
    · rw [if_pos hread]
      show (if key = key' then 0 else m.unread key') = _
      exact if_congr eq_comm rfl rfl

/-- What is told before the message says nothing of a count. -/
theorem emitted_added (m : ChatModel) (key : Str) {message : Message} (hmine : message.mine = false) :
    ∃ es, (m.added key message).1.emitted = m.emitted ++ es ∧ ∀ e ∈ es, e.1.aside = true := by
  unfold added
  rw [hmine]
  obtain ⟨typing, es, hset, hes⟩ := setTyping_eq
    (m.setConversation key ((m.conversation key).add message (m.active = some key))) key message.sender false
  dsimp only
  rw [if_neg Bool.false_ne_true, hset]
  refine ⟨_, rfl, fun e he => ?_⟩
  obtain ⟨x, hx, rfl⟩ := List.mem_map.mp he
  rw [hes x hx]
  rfl

/-- What `added` emits counts nothing. -/
theorem heard_added (m : ChatModel) (key : Str) {message : Message} (hmine : message.mine = false) (key' : Str) :
    heard key' (m.added key message).1.emitted = heard key' m.emitted := by
  obtain ⟨es, hes, haside⟩ := emitted_added m key hmine
  rw [hes, heard_append, foldl_hear_aside haside]

/-- The view hears of a message that goes in without an exception. -/
theorem told_addMessage {key : Str} {message : Message} (hmine : message.mine = false) (ht : m.Told)
    (hsettles : m.Settles key message.sender) : (m.addMessage key message).1.Told := by
  have hend := addMessage_end m key hmine
  rw [if_pos hsettles, (addMessage_added m key message).2] at hend
  have hcount := (theirs_addMessage m key · hmine)
  have hmodel : (m.addMessage key message).1 = (m.added key message).1.emit
      (arrival key (m.conversation key) ((m.added key message).1.conversation key)) := by
    unfold addMessage
    dsimp only
    rw [hend]
  have hafter : ((m.added key message).1.conversation key).unread = (m.addMessage key message).1.unread key := by
    rw [hmodel]
    rfl
  intro key'
  rw [(hcount key').2]
  rw [hmodel]
  show heard key' ((m.added key message).1.emitted ++ _) = _
  rw [heard_append, heard_added m key hmine, ht key']
  unfold arrival
  rw [hafter, (hcount key).2, List.map_cons, List.foldl_cons]
  show List.foldl (hear key') (m.unread key') (List.map _ (if m.unread key + _ ≠ m.unread key then _ else [])) = _
  by_cases hactive : m.active = some key
  · simp [hactive]
  · -- it is counted, and the count is told
    rw [if_pos (by simp [hactive])]
    show (if key = key' then m.unread key + _ else m.unread key') = _
    by_cases hkey : key' = key
    · simp [hkey, hactive]
    · have hother : key ≠ key' := fun h => hkey h.symm
      simp [hkey, hother]

/-- Of one that raises it hears nothing. -/
theorem told_iff_of_raises {key : Str} {message : Message} (hmine : message.mine = false) (ht : m.Told)
    (hraises : ¬ m.Settles key message.sender) : (m.addMessage key message).1.Told ↔ m.active = some key := by
  have hend := addMessage_end m key hmine
  rw [if_neg hraises, (addMessage_added m key message).2] at hend
  have hcount := (theirs_addMessage m key · hmine)
  have hmodel : (m.addMessage key message).1 = (m.added key message).1 := by
    unfold addMessage
    dsimp only
    rw [hend]
  have htold : ∀ key', heard key' (m.addMessage key message).1.emitted = m.unread key' := fun key' => by
    rw [hmodel, heard_added m key hmine]
    exact ht key'
  constructor
  · intro h
    have hkey := (htold key).symm.trans ((h key).trans (hcount key).2)
    by_contra hactive
    simp [hactive] at hkey
  · intro hactive key'
    rw [htold, (hcount key').2]
    simp [hactive]

section Kinds

variable [Runtime]

/-- Only filing and selecting count. -/
theorem uncounted_of_change {k : Kind} (hf : k ≠ .filing) (hs : k ≠ .selection) (h : Change k m m') :
    m.Uncounted m' := by
  cases h with
  | filing => exact absurd rfl hf
  | selection => exact absurd rfl hs
  | contacts h =>
    obtain ⟨contacts, roster, es, rfl, hes⟩ := replaceContacts_cases h
    apply uncounted_emit
    · exact still_of_conversations rfl
    · rfl
    · exact fun e he => by rw [hes e he]; rfl
  | typing _ key user on =>
    obtain ⟨typing, es, hset, hes⟩ := setTyping_eq m key user on
    rw [hset]
    apply uncounted_emit
    · exact still_of_conversations rfl
    · rfl
    · exact fun e he => by rw [hes e he]; rfl
  | message _ key hmine =>
    have hstill := still_addMessage m key hmine
    rw [addMessage_mine m key hmine] at hstill ⊢
    refine ⟨fun key' => (hstill key').2, _, rfl, fun e he => ?_⟩
    rw [List.mem_singleton.mp he]
    rfl
  | history _ key messages =>
    refine ⟨fun key' => ?_, _, rfl, fun e he => ?_⟩
    · unfold unread
      rw [conversation_loadHistory]
      split
      · next hkey => rw [hkey]
      · rfl
    · rw [List.mem_singleton.mp he]
      rfl
  | receipt _ key id state =>
    have hstill : m.Still (m.setReceipt key id state) := still_of_change (by simp [reading]) (.receipt m key id state)
    refine ⟨fun key' => (hstill key').2, ?_⟩
    unfold setReceipt
    cases PyDict.get m.conversations key with
    | none => exact ⟨[], (List.append_nil _).symm, List.forall_mem_nil _⟩
    | some c =>
      refine ⟨_, rfl, fun e he => ?_⟩
      obtain ⟨x, hx, rfl⟩ := List.mem_map.mp he
      split at hx
      · rw [List.mem_singleton.mp hx]
        rfl
      · cases hx
  | deselection =>
    refine ⟨fun _ => rfl, _, rfl, fun e he => ?_⟩
    rw [List.mem_singleton.mp he]
    rfl
  | members _ room names =>
    have hstill : m.Still (m.setRoomMembers room names) := still_of_change (by simp [reading]) (.members m room names)
    obtain ⟨rooms, conversations, es, hset, hes⟩ := setRoomMembers_eq m room names
    rw [hset] at hstill ⊢
    apply uncounted_emit
    · exact hstill
    · rfl
    · exact fun e he => by rw [hes e he]; rfl
  | borrowing => exact ⟨fun _ => rfl, [], (List.append_nil _).symm, List.forall_mem_nil _⟩
  | identity _ username =>
    apply uncounted_emit
    · exact still_of_conversations rfl
    · rfl
    · exact List.forall_mem_singleton.mpr rfl
  | roster _ users =>
    apply uncounted_emit
    · exact still_of_conversations rfl
    · rfl
    · exact List.forall_mem_singleton.mpr rfl
  | connection _ state =>
    apply uncounted_emit
    · exact still_of_conversations rfl
    · rfl
    · exact aside_unless rfl
  | presence _ user online =>
    apply uncounted_emit
    · exact still_of_conversations rfl
    · rfl
    · exact aside_unless rfl

/-- **Every kind but filing.** -/
theorem turned_of_change {k : Kind} (hk : k ≠ .filing) (h : Change k m m') : m.Turned m' := by
  by_cases hs : k = .selection
  · subst hs
    cases h with
    | selection _ key => exact turned_select m key
  · exact (uncounted_of_change hk hs h).turned

/-- Only filing and borrowing can leave the open conversation with a count. -/
theorem shown_of_change {k : Kind} (hf : k ≠ .filing) (hb : k ≠ .borrowing) (h : Change k m m') (hm : m.Shown) :
    m'.Shown := by
  obtain ⟨es, -, hunread⟩ := (turned_of_change hf h).emitted
  have hstays : m'.active = m.active → m'.Shown := by
    intro hactive key hkey
    rw [hunread, hm key (hactive ▸ hkey)]
    exact ite_self 0
  by_cases hturns : k ∈ turning
  · cases h with
    | selection _ key =>
      intro key' hkey
      obtain rfl : key = key' := Option.some.inj hkey
      rw [(m.theirs_select key key).2, if_pos rfl]
    | deselection => exact nofun
    | borrowing => exact absurd rfl hb
    | _ => simp [turning] at hturns
  · exact hstays (active_of_change hturns h)

/-- No conversation is selected. -/
def Unselecting (m m' : ChatModel) : Prop := ∃ es, m'.emitted = m.emitted ++ es ∧ ∀ key, selects key es = false

omit [Runtime] in
theorem Unselecting.refl (m : ChatModel) : m.Unselecting m := ⟨[], (List.append_nil _).symm, fun _ => rfl⟩

omit [Runtime] in
theorem Unselecting.trans (m₁ m₂ m₃ : ChatModel) (h : m₁.Unselecting m₂) (h' : m₂.Unselecting m₃) :
    m₁.Unselecting m₃ := by
  obtain ⟨es, hes, hnone⟩ := h
  obtain ⟨es', hes', hnone'⟩ := h'
  refine ⟨es ++ es', by rw [hes', hes, List.append_assoc], fun key => ?_⟩
  rw [selects_append, hnone, hnone']
  rfl

/-- Only selecting selects. -/
theorem unselecting_of_change {k : Kind} (hs : k ≠ .selection) (h : Change k m m') : m.Unselecting m' := by
  by_cases hf : k = .filing
  · subst hf
    cases h with
    | @filing _ key message hmine =>
      obtain ⟨es, hadded, haside⟩ := emitted_added m key hmine
      unfold addMessage
      dsimp only
      split
      · refine ⟨_, (congrArg (· ++ _) hadded).trans (List.append_assoc ..), fun key' => ?_⟩
        rw [selects_append, selects_aside haside, Bool.false_or]
        unfold arrival selects
        split
        · simp
        · simp
      · exact ⟨es, hadded, selects_aside haside⟩
  · obtain ⟨es, hes, haside⟩ := (uncounted_of_change hf hs h).emitted
    exact ⟨es, hes, selects_aside haside⟩

end Kinds

end ChatModel

namespace ChatController

/-! ## The tally of a run -/

section Tally

variable [Crypto] [Runtime]

/-- The tally of a conversation after an input. Nothing is filed while `active` is
borrowed, so what is on screen then was on screen before. -/
def tallied (c : ChatController) (g : Gesture) (key : Str) (n : Nat) : Nat :=
  let c' := c.step g
  if ChatModel.selects key (c'.model.emitted.drop c.model.emitted.length) then 0
  else n + if c.model.active = some key then 0 else (idsUnder key (c'.filed.drop c.filed.length)).length

/-- What others have sent since the conversation was last selected, while it was not on
screen. -/
def tally (key : Str) : ChatController → List Gesture → Nat → Nat
  | _, [], n => n
  | c, g :: gs, n => tally key (c.step g) gs (c.tallied g key n)

variable {c c' : ChatController} {kinds : List Kind} {pairs : List (Str × Str)}

/-- Frames are filed by MSG and KEY, and by nothing else. -/
theorem filed_of_walk (h : Walk kinds pairs c c') (hf : .filing ∉ kinds) : c'.filed = c.filed := by
  refine h.lift (R := fun c c' => c'.filed = c.filed) (fun _ => rfl) (fun _ _ _ h h' => h'.trans h) fun c c' h => ?_
  cases h with
  | selected hk c key =>
    obtain ⟨xs, hselect, -⟩ := exec_select key c
    rw [hselect]
  | filed hk => exact absurd hk hf
  | _ => rfl

omit [Crypto] in
theorem Moved.turned (h : Moved kinds c c') (hf : .filing ∉ kinds) : c.model.Turned c'.model :=
  h.lift ChatModel.Turned.refl ChatModel.Turned.trans fun _ hk _ _ hchange =>
    ChatModel.turned_of_change (fun he => hf (he ▸ hk)) hchange

omit [Crypto] [Runtime] in
/-- Only MSG and KEY frames file anything. -/
theorem filing_types {f : Frame} (h : .filing ∈ frameKinds f.type) : f.type = .msg ∨ f.type = .key := by
  revert h
  generalize f.type = t
  cases t <;> simp [frameKinds]

/-- Where a frame is filed, `active` is left alone and nothing is selected. -/
theorem filing_files {f : Frame} (h : .filing ∈ frameKinds f.type) :
    Files (c.receiving f) (c.step (.frame f)) ∧ c.model.Unselecting (c.step (.frame f)).model := by
  have hwalk := onFrame_walk c f
  have hselects : .selection ∉ frameKinds f.type := by
    rcases filing_types h with ht | ht <;> rw [ht] <;> simp [frameKinds]
  refine ⟨?_, hwalk.moved.lift ChatModel.Unselecting.refl ChatModel.Unselecting.trans fun _ hk _ _ hchange =>
    ChatModel.unselecting_of_change (fun he => hselects (he ▸ hk)) hchange⟩
  rcases filing_types h with ht | ht
  · rw [ht] at hwalk
    exact hwalk.files_filing
  · rw [step_key c ht]
    exact key_files f _

omit [Crypto] [Runtime] in
theorem filing_cases (g : Gesture) : (∃ f, g = .frame f ∧ .filing ∈ frameKinds f.type) ∨
    .filing ∉ g.mayChange ∧ .borrowing ∉ g.mayChange := by
  cases g with
  | frame f =>
    by_cases h : .filing ∈ frameKinds f.type
    · exact .inl ⟨f, rfl, h⟩
    · refine .inr ⟨h, ?_⟩
      revert h
      show _ → .borrowing ∉ frameKinds f.type
      generalize f.type = t
      cases t <;> simp [frameKinds]
  | _ => exact .inr (by simp [Gesture.mayChange])

/-- **One input** keeps to the tally. -/
theorem step_tallied (c : ChatController) (g : Gesture) (key : Str) :
    (c.step g).model.unread key = c.tallied g key (c.model.unread key) := by
  unfold tallied
  dsimp only
  rcases filing_cases g with ⟨f, rfl, hf⟩ | ⟨hf, -⟩
  · -- what is filed is counted, and nothing is selected
    obtain ⟨⟨-, es, hd⟩, es', hes', hnone⟩ := filing_files (c := c) hf
    have hfiled : (c.step (.frame f)).filed = c.filed ++ es := hd.filed
    rw [hes', hfiled, List.drop_left, List.drop_left, hnone]
    exact hd.unread key
  · -- nothing is filed, and what is selected is read
    obtain ⟨es, hes, hunread⟩ := ((step_moved c g).turned hf).emitted
    rw [model_before] at hes hunread
    have hfiled : (c.step g).filed = c.filed := by
      have hsame := filed_of_walk (step_walk c g) hf
      have hbefore : (c.before g).filed = c.filed := by cases g <;> rfl
      rw [hsame, hbefore]
    rw [hes, hfiled, List.drop_left, List.drop_length, hunread]
    refine if_congr Iff.rfl rfl ?_
    show _ = _ + if c.model.active = some key then 0 else 0
    rw [ite_self, Nat.add_zero]

/-- **The count over a whole run** is the tally of its gestures. -/
theorem run_tallied (key : Str) (gs : List Gesture) : ∀ c : ChatController,
    (c.run gs).model.unread key = tally key c gs (c.model.unread key) := by
  induction gs with
  | nil => exact fun _ => rfl
  | cons g gs ih =>
    intro c
    refine (ih (c.step g)).trans ?_
    rw [step_tallied]
    rfl

/-- The open conversation has nothing unread after any gesture, -/
theorem step_shown (h : c.model.Shown) (g : Gesture) : (c.step g).model.Shown := by
  rcases filing_cases g with ⟨f, rfl, hf⟩ | ⟨hf, hb⟩
  · obtain ⟨⟨hactive, es, hd⟩, -⟩ := filing_files (c := c) hf
    intro key hkey
    have hbefore : c.model.active = some key := hactive.symm.trans hkey
    refine (hd.unread key).trans ?_
    rw [show (c.receiving f).model = c.model from rfl, if_pos hbefore, h key hbefore]
  · refine step_lift c (R := fun m m' => m.Shown → m'.Shown) (fun _ => id) (fun _ _ _ h h' hm => h' (h hm)) ?_ h
    intro k hk _ _ hchange
    exact ChatModel.shown_of_change (fun he => hf (he ▸ hk)) (fun he => hb (he ▸ hk)) hchange

/-- so it has nothing unread in any run. -/
theorem run_shown (gs : List Gesture) : ∀ {c : ChatController}, c.model.Shown → (c.run gs).model.Shown := by
  induction gs with
  | nil => exact id
  | cons g gs ih => exact fun h => ih (step_shown h g)

end Tally

/-! ## What the view is told -/

section Told

variable [Crypto]

/-- Of the frames that wait for a key, each is told of when it is filed: its sender's typing
ends without an exception, or the conversation is on screen. -/
def Heard (user : Str) (k : Keyring) : ChatModel → List Frame → Prop
  | _, [] => True
  | m, f :: frames => Fileable k user f →
      if m.Settles (f.typist user).1 (f.typist user).2 then
        Heard user k (m.setTyping (f.typist user).1 (f.typist user).2 false).1 frames
      else m.active = some (f.place user)

/-- The same for a message that is filed as it comes. -/
def HeardNow (c : ChatController) (f : Frame) : Prop :=
  ∀ s key, f.target.orElse (.str []) = .str s →
    (if s.isRoom then .str s else f.sender.orElse (.str s)) = .str key → key ≠ [] →
    c.unreadable f f.peer = .ok false → c.Unseals f f.peer →
    c.model.active = some key ∨ c.model.Settles key (f.sender.orElse (.str "?"))

variable {c c' : ChatController} {k k' : Keyring} {user : Str}

/-- Keys that are derived already do not matter for it. -/
theorem heard_congr (hsame : k.Same k') (hs : k.Consistent) (frames : List Frame) : ∀ {m m' : ChatModel},
    m'.typing = m.typing → m'.active = m.active → (Heard user k' m' frames ↔ Heard user k m frames) := by
  induction frames with
  | nil => exact fun _ _ => Iff.rfl
  | cons f frames ih =>
    intro m m' ht ha
    have hfileable : Fileable k' user f ↔ Fileable k user f := by
      unfold Fileable
      simp only [hsame.open' hs]
    have hsettles : m'.Settles (f.typist user).1 (f.typist user).2 ↔ m.Settles (f.typist user).1 (f.typist user).2 :=
      ⟨fun h => h.of_typing ht.symm, fun h => h.of_typing ht⟩
    have hrest : Heard user k' (m'.setTyping (f.typist user).1 (f.typist user).2 false).1 frames ↔
        Heard user k (m.setTyping (f.typist user).1 (f.typist user).2 false).1 frames := by
      refine ih (ChatModel.typing_setTyping ht ..) ?_
      rw [m'.setTyping_active, m.setTyping_active]
      exact ha
    unfold Heard
    rw [hfileable]
    refine imp_congr_right fun _ => ?_
    by_cases h : m.Settles (f.typist user).1 (f.typist user).2
    · rw [if_pos h, if_pos (hsettles.mpr h)]
      exact hrest
    · rw [if_neg h, if_neg fun h' => h (hsettles.mp h'), ha]

omit [Crypto] in
/-- The view hears of what is added, unless adding raises. -/
theorem addFrame_told (ht : c.model.Told) (f : Frame) (key : Str) (body : Json) (ts : Int) :
    Ends (addFrame f key body ts) c
      (fun _ d => d.model.Told ∧ d.model.active = c.model.active ∧ c.model.Settles key (f.sender.orElse (.str "?")) ∧
        d.model.typing = (c.model.setTyping key (f.sender.orElse (.str "?")) false).1.typing)
      (fun _ d => ¬ c.model.Settles key (f.sender.orElse (.str "?")) ∧ (d.model.Told ↔ c.model.active = some key)) := by
  refine Ends.bind (ends_modify (Q := fun _ d => d.model = c.model) rfl) fun _ d hd => ends_get ?_
  dsimp only
  rw [ChatModel.addMessage_end _ key rfl, hd]
  by_cases h : c.model.Settles key (f.sender.orElse (.str "?"))
  · rw [if_pos h]
    exact ⟨ChatModel.told_addMessage rfl ht h, (ChatModel.stays_addMessage ..).1, h, ChatModel.typing_addMessage _ key rfl⟩
  · rw [if_neg h]
    exact ⟨h, ChatModel.told_iff_of_raises rfl ht h⟩

/-- **One frame is filed.** -/
theorem file_told (ht : c.model.Told) (f : Frame) (key : Str) :
    Ends (file f (.str key)) c
      (fun _ d => c.Aside d ∧ c.Unseals f (f.sender.orElse (.str key)) ∧ d.model.Told ∧
        d.model.active = c.model.active ∧ c.model.Settles key (f.sender.orElse (.str "?")) ∧
          d.model.typing = (c.model.setTyping key (f.sender.orElse (.str "?")) false).1.typing)
      (fun _ d => ¬ c.Unseals f (f.sender.orElse (.str key)) ∧ d.model.Told ∨
        c.Unseals f (f.sender.orElse (.str key)) ∧ ¬ c.model.Settles key (f.sender.orElse (.str "?")) ∧
          (d.model.Told ↔ c.model.active = some key)) := by
  have hfile : Ends (file f (.str key)) c
      (fun _ d => c.Unseals f (f.sender.orElse (.str key)) ∧ d.model.Told ∧
        d.model.active = c.model.active ∧ c.model.Settles key (f.sender.orElse (.str "?")) ∧
          d.model.typing = (c.model.setTyping key (f.sender.orElse (.str "?")) false).1.typing)
      (fun _ d => ¬ c.Unseals f (f.sender.orElse (.str key)) ∧ d.model.Told ∨
        c.Unseals f (f.sender.orElse (.str key)) ∧ ¬ c.model.Settles key (f.sender.orElse (.str "?")) ∧
          (d.model.Told ↔ c.model.active = some key)) := by
    refine file_rule (fun _ d hd hnot => .inl ⟨hnot, ?_⟩) fun body ts d hd hunseals => ?_
    · obtain ⟨xs, keyring, -, rfl⟩ := hd.eq
      exact ht
    · obtain ⟨xs, keyring, -, rfl⟩ := hd.eq
      have hadd := addFrame_told (c := { c with trace := c.trace ++ callEntries xs, keyring }) ht f key body ts
      exact hadd.mono (fun _ _ h => ⟨hunseals, h⟩) fun _ _ h => .inr ⟨hunseals, h⟩
  exact (hfile.and_steps (file_aside f (.str key))).mono (fun _ _ h => h) fun _ _ h => h.2

omit [Crypto] in
theorem place_of_str {f : Frame} {s : Str} (hs : f.target.orElse (.str []) = .str s) (user : Str) :
    (if s.isRoom = true then Json.str s else .str user) = .str (f.place user) := by
  unfold Frame.place
  rw [hs]
  dsimp only
  split
  · rfl
  · rfl

/-- Whether a frame that waits can be opened is a matter of the keyring. -/
theorem fileable_iff {f : Frame} {s : Str} (user : Str) (hk : c.keyring = some k) (hs : f.target.orElse (.str []) = .str s) :
    Fileable k user f ↔ c.Unseals f (f.sender.orElse (.str (f.place user))) := by
  have hplace : f.place user = if s.isRoom = true then s else user := by
    unfold Frame.place
    rw [hs]
  unfold Fileable Unseals
  rw [hplace, hs]
  constructor
  · intro h k' hk'
    obtain ⟨s', hs', hopen⟩ := h
    cases hs'
    obtain rfl := Option.some.inj (hk'.symm.trans hk)
    exact hopen
  · exact fun h => ⟨s, rfl, h k hk⟩

/-- **Those that waited**, one after the other: all are told of, or the last to be filed is
not. -/
theorem deliverAll_told (user : Str) (frames : List Frame) : ∀ {c : ChatController} {k : Keyring}, c.keyring = some k → k.Consistent →
    c.model.Told → Ends (frames.forM (deliverOne user)) c (fun _ d => d.model.Told ∧ Heard user k c.model frames)
      (fun _ d => d.model.Told ↔ Heard user k c.model frames) := by
  induction frames with
  | nil => exact fun _ _ ht => ⟨ht, trivial⟩
  | cons f frames ih =>
    intro c k hk hs ht
    cases htarget : f.target.orElse (.str []) with
    | str s =>
      have hfileable := fileable_iff user hk htarget
      have hone : deliverOne user f = file f (.str (f.place user)) := by
        unfold deliverOne
        rw [htarget]
        show file f (if s.isRoom = true then .str s else .str user) = _
        rw [place_of_str htarget]
      show Ends (deliverOne user f >>= fun _ => frames.forM (deliverOne user)) c _ _
      rw [hone]
      unfold Heard
      rw [hfileable]
      refine Ends.bind ((file_told ht f (f.place user)).mono (fun _ _ h => h) fun _ d hd => ?_) fun _ d hd => ?_
      · rcases hd with ⟨hnot, hd⟩ | ⟨hunseals, hraises, hd⟩
        · exact iff_of_true hd fun h => absurd h hnot
        · have hraises' : ¬ c.model.Settles (f.typist user).1 (f.typist user).2 := hraises
          rw [hd, if_neg hraises']
          exact (imp_iff_right hunseals).symm
      · obtain ⟨haside, hunseals, hd, hactive, hsettles, htyping⟩ := hd
        obtain ⟨k₁, hk₁, hsame⟩ := haside.keyring k hk hs
        have hrest : Heard user k₁ d.model frames ↔
            Heard user k (c.model.setTyping (f.typist user).1 (f.typist user).2 false).1 frames := by
          refine heard_congr hsame hs frames htyping ?_
          rw [c.model.setTyping_active]
          exact hactive
        have hsettles' : c.model.Settles (f.typist user).1 (f.typist user).2 := hsettles
        rw [if_pos hsettles', ← hrest]
        exact (ih hk₁ hsame.consistent hd).mono (fun _ _ h => ⟨h.1, fun _ => h.2⟩) fun _ _ h =>
          h.trans (imp_iff_right hunseals).symm
    | _ =>
      have hno : ¬ Fileable k user f := by
        intro h
        obtain ⟨s, hs', -⟩ := h
        rw [htarget] at hs'
        cases hs'
      have hheard : Heard user k c.model (f :: frames) := fun h => absurd h hno
      show Ends (deliverOne user f >>= fun _ => frames.forM (deliverOne user)) c _ _
      unfold deliverOne
      rw [htarget]
      exact iff_of_true ht hheard

theorem deliverAwaiting_told (hk : c.keyring = some k) (hs : k.Consistent) (ht : c.model.Told) (user : Str) :
    Ends (deliverAwaiting user) c (fun _ d => d.model.Told ∧ Heard user k c.model (c.awaited user))
      (fun _ d => d.model.Told ↔ Heard user k c.model (c.awaited user)) := by
  have hall := deliverAll_told user (c.awaited user)
    (c := { c with awaiting := c.awaiting.filter fun e => e.1 ≠ .str user }) hk hs ht
  exact ends_get hall

variable [Runtime]

/-- Code that files nothing keeps the view up to date. -/
theorem told_of_walk {kinds : List Kind} {pairs : List (Str × Str)} (h : Walk kinds pairs c c') (hf : .filing ∉ kinds)
    (ht : c.model.Told) : c'.model.Told := (h.moved.turned hf).told ht

/-- A frame that has to wait leaves the model alone. -/
theorem keepAwaiting_model (f : Frame) (peer : Json) (c : ChatController) :
    (exec (keepAwaiting f peer) c).2.model = c.model := by
  have hmoves : Moves [] [] (if (!c.awaiting.any fun e => peer.pyEq e.1) = true then do
      let _ ← call (.getKey peer)
      else pure () : ClientM Unit) := steps_ite (call_unit_moves rfl) (moves_pure _)
  unfold keepAwaiting
  rw [exec_bind, exec_get]
  dsimp only
  rw [exec_bind, exec_modify]
  exact (hmoves _).moved.eq_of_nil

/-- Without a name for the conversation nothing is filed. -/
theorem file_nowhere (f : Frame) {key : Json} (h : ∀ s, key ≠ .str s) : Moves [] [] (file f key) := by
  refine moves_bind (reportDelivery_moves f key) fun _ => moves_bind (plaintext_moves f _) fun _ =>
    moves_bind (timeOf_moves f.ts) fun _ => ?_
  cases key with
  | str s => exact absurd rfl (h s)
  | _ => exact moves_throw _

omit [Runtime] in
theorem heardNow_iff {f : Frame} {s : Str} (hs : f.target.orElse (.str []) = .str s) :
    c.HeardNow f ↔ ∀ key, (if s.isRoom then .str s else f.sender.orElse (.str s)) = .str key → key ≠ [] →
      c.unreadable f f.peer = .ok false → c.Unseals f f.peer →
      c.model.active = some key ∨ c.model.Settles key (f.sender.orElse (.str "?")) := by
  unfold HeardNow
  constructor
  · exact fun h key => h s key hs
  · intro h s' key hs'
    rw [hs] at hs'
    cases hs'
    exact h key

omit [Runtime] in
/-- A message is filed as it comes. -/
theorem filed_told (ht : c.model.Told) (f : Frame) (key : Str) :
    (exec (file f (.str key)) c).2.model.Told ↔ (c.Unseals f (f.sender.orElse (.str key)) →
      c.model.active = some key ∨ c.model.Settles key (f.sender.orElse (.str "?"))) := by
  refine Ends.final (P := fun d => d.model.Told ↔ (c.Unseals f (f.sender.orElse (.str key)) → _))
    ((file_told ht f key).mono (fun _ d hd => ?_) fun _ d hd => ?_)
  · exact iff_of_true hd.2.2.1 fun _ => .inr hd.2.2.2.2.1
  · rcases hd with ⟨hnot, hd⟩ | ⟨hunseals, hraises, hd⟩
    · exact iff_of_true hd fun h => absurd h hnot
    · rw [hd, imp_iff_right hunseals, or_iff_left hraises]

/-- **A message comes in.** -/
theorem incomingMessage_told (ht : c.model.Told) (f : Frame) :
    (exec (incomingMessage f) c).2.model.Told ↔ c.HeardNow f := by
  cases hs : f.target.orElse (.str []) with
  | str s =>
    have hpeer := peer_eq hs
    rw [heardNow_iff hs, exec_incomingMessage hs]
    generalize (if s.isRoom = true then Json.str s else f.sender.orElse (.str s)) = key at hpeer ⊢
    dsimp only
    by_cases hkey : (!key.truthy) = true
    · -- no key to file it under
      rw [if_pos hkey]
      refine iff_of_true ht fun key' hkey' hne => ?_
      rw [hkey'] at hkey
      cases key' with
      | nil => exact absurd rfl hne
      | cons => cases hkey
    · rw [if_neg hkey]
      cases hun : c.unreadable f f.peer with
      | error e => exact iff_of_true ht fun _ _ _ h => nomatch h
      | ok unreadable =>
        cases unreadable with
        | true =>
          refine iff_of_true ?_ fun _ _ _ h => nomatch h
          show (exec (keepAwaiting f f.peer) c).2.model.Told
          rw [keepAwaiting_model f f.peer c]
          exact ht
        | false =>
          show (exec (file f key) c).2.model.Told ↔ _
          cases key with
          | str key =>
            have hne : key ≠ [] := by
              intro h
              rw [h] at hkey
              exact hkey rfl
            have hfile := filed_told ht f key
            rw [hpeer] at hfile
            rw [hfile]
            constructor
            · intro h key' hkey' _ _
              cases hkey'
              exact h
            · exact fun h => h key rfl hne rfl
          | _ =>
            refine iff_of_true (told_of_walk (file_nowhere f ?_ c) List.not_mem_nil ht) fun _ h => ?_
            · exact nofun
            · cases h
  | _ =>
    unfold incomingMessage HeardNow
    rw [hs]
    exact iff_of_true ht nofun

/-- What waited for the key is filed, and then the rooms it completes are released. -/
theorem afterwards_told (hk : c.keyring = some k) (hs : k.Consistent) (ht : c.model.Told) (user : Str) :
    (exec (afterwards user) c).2.model.Told ↔ Heard user k c.model (c.awaited user) := by
  have hrooms : Moves [.message, .borrowing] [] (do
      let rooms := ((← get).held.map Prod.fst).filter Str.isRoom
      rooms.forM releaseRoom : ClientM Unit) :=
    moves_get fun _ => moves_forM fun room => releaseRoom_moves (by simp) (by simp) room
  refine Ends.final (P := fun d : ChatController => d.model.Told ↔ Heard user k c.model (c.awaited user)) ?_
  refine Ends.bind (deliverAwaiting_told hk hs ht user) fun _ b hb => ?_
  have hlast : ∀ d : ChatController, Walk [.message, .borrowing] [] b d → (d.model.Told ↔ Heard user k c.model (c.awaited user)) :=
    fun d hwalk => iff_of_true (told_of_walk hwalk (by simp) hb.1) hb.2
  exact (hrooms.ends b).mono (fun _ => hlast) fun _ => hlast

/-- Each frame that waited for the key is told of, if it comes to them. -/
def HeardAfter (c : ChatController) (f : Frame) : Prop :=
  ∀ user, f.brings user = true → ∀ d, exec (release user) (c.remembering f) = (.ok ⟨⟩, d) →
    ∀ k, d.keyring = some k → Heard user k c.model (c.awaited user)

theorem heardAfter_iff {f : Frame} (hf : f.brings user = true) {d : ChatController}
    (hrun : exec (release user) (c.remembering f) = (.ok ⟨⟩, d)) (hk : d.keyring = some k) :
    c.HeardAfter f ↔ Heard user k c.model (c.awaited user) := by
  constructor
  · exact fun h => h user hf d hrun k hk
  · intro h user' hf' d' hrun' k' hk'
    obtain rfl : user' = user := (brings_iff.mp hf').2.2.2.symm.trans (brings_iff.mp hf).2.2.2
    rw [hrun] at hrun'
    cases hrun'
    obtain rfl := Option.some.inj (hk'.symm.trans hk)
    exact h

/-- **A key comes in.** -/
theorem key_told (hs : ∀ k, c.keyring = some k → k.Consistent) (ht : c.model.Told) {f : Frame} (htype : f.type = .key) :
    (exec (key f) (c.receiving f)).2.model.Told ↔ c.HeardAfter f := by
  generalize huser : (f.get "user").pyStr = user
  have hmoves : Moves [.message, .borrowing] [] (release user) := release_moves (by simp) (by simp) user
  have hwalk := hmoves (c.remembering f)
  by_cases hbrings : f.brings user = true
  · cases hk : c.keyring with
    | none =>
      rw [exec_key_nothing (c := c.receiving f) (.inl hk)]
      refine iff_of_true ht fun user' h d hd k hk' => ?_
      obtain rfl : user' = user := (brings_iff.mp h).2.2.2.symm.trans huser
      obtain ⟨calls, -, hcalled⟩ := hwalk.calls
      unfold remembering at hcalled hd
      rw [hd, hk', hk] at hcalled
      cases hcalled
    | some k =>
      have hremembering := remembering_eq hk f
      have hcons := hwalk.calls.consistent fun k' hk' => by
        rw [hremembering] at hk'
        obtain rfl := Option.some.inj hk'
        exact Keyring.remember_consistent (hs k hk) _ _
      obtain ⟨calls, -, hcalled⟩ := hwalk.calls
      rw [hremembering] at hcalled
      have hbefore : (c.remembering f).model.Told := ht
      have hreleased := told_of_walk hwalk (by simp) hbefore
      -- the release leaves alone what the condition looks at
      have htyping := hwalk.moved.typing (by simp) (by simp)
      have hactive := (release_lent user (c.remembering f)).active
      have hawaited := (release_apart (p := user) user (c.remembering f)).awaited
      rw [exec_key_brings hk hbrings, exec_bind]
      rcases hrun : exec (release user) (c.remembering f) with ⟨e | u, d⟩
      · rw [hrun] at hreleased
        refine iff_of_true hreleased fun user' h d' hd' => ?_
        obtain rfl : user' = user := (brings_iff.mp h).2.2.2.symm.trans huser
        rw [hrun] at hd'
        cases hd'
      · rw [← hremembering, hrun] at hcalled
        rw [hrun] at hcons hreleased htyping hactive hawaited
        obtain ⟨k₁, hk₁⟩ : ∃ k₁, d.keyring = some k₁ := by
          rw [hremembering] at hcalled
          exact ⟨_, hcalled⟩
        have hawaited' : d.awaited user = c.awaited user := hawaited
        rw [heardAfter_iff hbrings hrun hk₁]
        refine (afterwards_told hk₁ (hcons k₁ hk₁) hreleased user).trans ?_
        rw [hawaited']
        exact heard_congr (.refl (hcons k₁ hk₁)) (hcons k₁ hk₁) _ htyping hactive
  · -- it brings nobody's key
    have hnothing : (!(f.get "user").truthy || !(f.get "pubkey").truthy) = true := by
      by_contra hboth
      simp only [Bool.or_eq_true, Bool.not_eq_true', not_or, Bool.not_eq_false] at hboth
      exact hbrings (brings_iff.mpr ⟨htype, hboth.1, hboth.2, huser⟩)
    rw [exec_key_nothing (.inr hnothing)]
    refine iff_of_true ht fun user' h => ?_
    obtain rfl : user' = user := (brings_iff.mp h).2.2.2.symm.trans huser
    exact absurd h hbrings

/-- The condition on one input: a message that is filed is told of, whether it is filed as
it comes or when the key comes that it waited for. -/
def Announced (c : ChatController) (g : Gesture) : Prop :=
  ∀ f, g = .frame f → (f.type = .msg → c.HeardNow f) ∧ (f.type = .key → c.HeardAfter f)

/-- **One input.** -/
theorem step_told (hs : ∀ k, c.keyring = some k → k.Consistent) (ht : c.model.Told) (g : Gesture) :
    (c.step g).model.Told ↔ c.Announced g := by
  rcases filing_cases g with ⟨f, rfl, hf⟩ | ⟨hf, -⟩
  · have honly : c.Announced (.frame f) ↔ (f.type = .msg → c.HeardNow f) ∧ (f.type = .key → c.HeardAfter f) := by
      constructor
      · exact fun h => h f rfl
      · intro h f' hf'
        cases hf'
        exact h
    rw [honly]
    rcases filing_types hf with htype | htype
    · rw [step_msg c htype, incomingMessage_told (c := c.receiving f) ht f]
      simp [htype]
      rfl
    · rw [step_key c htype, key_told hs ht htype]
      simp [htype]
  · refine iff_of_true ?_ ?_
    · refine ((step_moved c g).turned hf).told ?_
      rw [model_before]
      exact ht
    · intro f hf'
      subst hf'
      refine ⟨fun htype => absurd ?_ hf, fun htype => absurd ?_ hf⟩
      · show _ ∈ frameKinds f.type
        rw [htype]
        exact List.mem_singleton_self _
      · show _ ∈ frameKinds f.type
        rw [htype]
        simp [frameKinds]

/-- **A run** tells of everything exactly when each of its inputs does. -/
theorem run_told (gs : List Gesture) : ∀ {c : ChatController}, (∀ k, c.keyring = some k → k.Consistent) → c.model.Told →
    ((∀ pre, pre <+: gs → (c.run pre).model.Told) ↔ Throughout Announced c gs) := by
  induction gs with
  | nil =>
    intro c _ ht
    refine iff_of_true (fun pre hpre => ?_) trivial
    rw [List.prefix_nil.mp hpre]
    exact ht
  | cons g gs ih =>
    intro c hs ht
    constructor
    · intro h
      have hfirst : (c.step g).model.Told := h [g] ⟨gs, rfl⟩
      refine ⟨(step_told hs ht g).mp hfirst, (ih (step_consistent hs g) hfirst).mp fun pre hpre => ?_⟩
      exact h (g :: pre) ((List.prefix_cons_inj g).mpr hpre)
    · intro h pre hpre
      have hfirst := (step_told hs ht g).mpr h.1
      rcases List.prefix_cons_iff.mp hpre with rfl | ⟨pre', rfl, hpre'⟩
      · exact ht
      · exact (ih (step_consistent hs g) hfirst).mpr h.2 pre' hpre'

/-- The count of a conversation is right, and the view has it. -/
structure Exact (key : Str) (n : Nat) (c : ChatController) : Prop where
  counted : c.model.unread key = n
  onScreen : c.model.active = some key → c.model.unread key = 0
  told : ChatModel.heard key c.model.emitted = c.model.unread key

/-- **Unread counts are exact and visible from events alone**, after every input of a run
from a controller to which nothing has come yet, exactly when every message that is filed
is announced. -/
theorem run_exact (hs : ∀ k, c.keyring = some k → k.Consistent) (hnew : c.model.conversations = [])
    (hemitted : c.model.emitted = []) (gs : List Gesture) :
    (∀ pre, pre <+: gs → ∀ key, Exact key (tally key c pre 0) (c.run pre)) ↔ Throughout Announced c gs := by
  have hzero : ∀ key, c.model.unread key = 0 := by
    intro key
    unfold ChatModel.unread ChatModel.conversation
    rw [hnew]
    rfl
  have ht : c.model.Told := by
    intro key
    rw [hemitted, hzero]
    rfl
  have hshown : c.model.Shown := fun key _ => hzero key
  rw [← run_told gs hs ht]
  constructor
  · exact fun h pre hpre key => (h pre hpre key).told
  · intro h pre hpre key
    refine ⟨?_, run_shown pre hshown key, h pre hpre key⟩
    rw [run_tallied, hzero]

end Told

end ChatController

/-! ## A sender who is no name -/

namespace Sample

/-- Somebody writes to a room, and the frame names no sender that a set could hold. -/
def noteOfList : Frame where
  type := .msg
  sender := .list [.str "x"]
  target := .str "#r"
  body := .str "hi"
  id := .str "m"
  ts := 1

end Sample

section Concrete

open ChatController Sample

attribute [local instance] exchangeCrypto sampleRuntime

/-- Of two notes of `b` one has been seen, and the other is counted and told of. -/
theorem twoGlances_exact : Exact "b" 1 (startedClient.run (twoGlances.take 4)) := by
  have hnote : ∀ (c : ChatController) (id : Str), c.model.Settles "b" (.str "b") → c.Announced (.frame (noteOfB id)) := by
    intro c id hsettles f hf
    obtain rfl := Gesture.frame.inj hf
    refine ⟨fun _ s key hs hkey _ _ _ => .inr ?_, fun h => (nomatch h)⟩
    obtain rfl : Str.ofString "a" = s := Json.str.inj hs
    obtain rfl : Str.ofString "b" = key := Json.str.inj hkey
    exact hsettles
  have hexact := (run_exact startedClient_consistent rfl rfl twoGlances).mpr ⟨hnote _ _ (by decide +kernel), nofun, nofun,
    hnote _ _ (by decide +kernel), nofun, trivial⟩ (twoGlances.take 4) (List.take_prefix 4 twoGlances) "b"
  have htally : tally "b" startedClient (twoGlances.take 4) 0 = 1 := by decide +kernel
  rw [htally] at hexact
  exact hexact

/-- The note is counted, and the view is told of nothing. -/
theorem noteOfList_untold :
    (startedClient.run [.frame noteOfList]).model.unread "#r" = 1 ∧
      ¬ ∀ pre, pre <+: [Gesture.frame noteOfList] → ∀ key,
        Exact key (tally key startedClient pre 0) (startedClient.run pre) := by
  have hcount : (startedClient.run [.frame noteOfList]).model.unread "#r" = 1 := by decide +kernel
  refine ⟨hcount, fun h => ?_⟩
  have htold := (h _ List.prefix_rfl "#r").told
  have hnone : ChatModel.heard "#r" (startedClient.run [.frame noteOfList]).model.emitted = 0 := by decide +kernel
  rw [hcount, hnone] at htold
  cases htold

end Concrete

end Ciphertext
