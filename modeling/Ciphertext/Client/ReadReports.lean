import Mathlib.Data.List.Induction
import Ciphertext.Client.Outcomes

/-!
# Read receipts

`select` reports what it marks as read, but it looks at a counter: where anything at all
is unread it reports every message of the conversation once more, and what comes while
the conversation is on screen is never counted, so never reported. `run_reported` says
when each direct message is reported exactly once if it has been on screen, and not at
all otherwise.

The ledger of a run is `filed` beside the READ receipts on the trace, and `Ledger seen`
says that they agree, where `seen` are the messages that have been on screen so far, by
their place in `filed`. It is kept by both kinds of inputs (`Ledger.delivers`,
`Ledger.turnsTo`), under the condition on the state before the input that `Punctual`
states: a direct message comes while its conversation is not on screen, and a
conversation that is opened with something unread has nothing in it that was read.

`secondGlance_reported` is a run that breaks it: a second message comes, and the first is
reported again.
-/

namespace Ciphertext

open Act

namespace ChatController

variable {es es' : List (Str × Frame)} {b c c' : ChatController} {key : Str} [Runtime] [Crypto]

/-- The messages seen so far (by their place in `filed`) and what is reported agree. -/
structure Ledger (seen : Nat → Prop) (c : ChatController) : Prop where
  up : ∀ n, (c.connection n).isSome = true
  theirs : ∀ key, c.model.theirs key = idsUnder key c.filed
  active : ∀ key, c.model.active = some key → c.model.unread key = 0
  reported : ∀ id ∈ c.reads, ∃ (i : Nat) (e : Str × Frame), c.filed[i]? = some e ∧ e.1.isRoom = false ∧ e.2.id = id
  bound : ∀ i, seen i → i < c.filed.length
  read : ∀ (i : Nat) (e : Str × Frame), c.filed[i]? = some e → c.model.unread e.1 = 0 → seen i
  unread : ∀ (i : Nat) (e : Str × Frame), c.filed[i]? = some e → c.model.unread e.1 = (c.model.theirs e.1).length → ¬ seen i
  count : ∀ (i : Nat) (e : Str × Frame), c.filed[i]? = some e → e.1.isRoom = false →
    (seen i → c.reads.count e.2.id = 1) ∧ (¬ seen i → c.reads.count e.2.id = 0)

/-- Those seen in this state, too. -/
def seeing (seen : Nat → Prop) (c : ChatController) (i : Nat) : Prop :=
  seen i ∨ ∃ e, c.filed[i]? = some e ∧ c.model.active = some e.1

variable {seen : Nat → Prop}

omit [Runtime] [Crypto] in
theorem mem_idsUnder {i : Nat} {e : Str × Frame} (h : es[i]? = some e) : e.2.id ∈ idsUnder e.1 es :=
  List.mem_map.mpr ⟨e, List.mem_filter.mpr ⟨List.mem_of_getElem? h, by simp⟩, rfl⟩

omit [Runtime] [Crypto] in
theorem TurnsTo.seeing_iff (ho : TurnsTo key c c') {i : Nat} {e : Str × Frame} (he : c.filed[i]? = some e) :
    seeing seen c' i ↔ seen i ∨ e.1 = key := by
  unfold seeing
  rw [ho.filed, ho.active, he]
  constructor
  · intro h
    rcases h with h | ⟨e', he', hactive⟩
    · exact .inl h
    · obtain rfl := Option.some.inj he'
      exact .inr (Option.some.inj hactive).symm
  · intro h
    rcases h with h | h
    · exact .inl h
    · exact .inr ⟨e, rfl, by rw [h]⟩

/-- What makes it right to open a conversation: nothing in it is unread, or everything is,
and no id is there twice or elsewhere. -/
def Reportable (c : ChatController) (key : Str) : Prop :=
  key.isRoom = false → c.model.unread key ≠ 0 →
    c.model.unread key = (c.model.theirs key).length ∧ (c.model.theirs key).Nodup ∧
      ∀ e ∈ c.filed, e.1.isRoom = false → e.1 ≠ key → e.2.id ∉ c.model.theirs key

omit [Runtime] [Crypto] in
/-- Opening reports messages that are filed. -/
theorem Ledger.reported_turnsTo (h : Ledger seen c) (ho : TurnsTo key c c') {id : Json} (hid : id ∈ c'.reads) :
    ∃ (i : Nat) (e : Str × Frame), c.filed[i]? = some e ∧ e.1.isRoom = false ∧ e.2.id = id := by
  rw [ho.reads] at hid
  rcases List.mem_append.mp hid with hid | hid
  · exact h.reported id hid
  · by_cases hnothing : key.isRoom = true ∨ c.model.unread key = 0
    · rw [if_pos hnothing] at hid
      cases hid
    · rw [if_neg hnothing, h.theirs] at hid
      obtain ⟨e, he, rfl⟩ := List.mem_map.mp hid
      obtain ⟨hmem, hunder⟩ := List.mem_filter.mp he
      obtain ⟨i, hi⟩ := List.mem_iff_getElem?.mp hmem
      have hsame : e.1 = key := by simpa using hunder
      exact ⟨i, e, hi, by rw [hsame]; simpa using (not_or.mp hnothing).1, rfl⟩

omit [Runtime] [Crypto] in
/-- Of the conversation itself, what was not seen is reported once. -/
theorem Ledger.count_opened (h : Ledger seen c) (ho : TurnsTo key c c') (hkey : Reportable c key) {i : Nat} {e : Str × Frame}
    (he : c.filed[i]? = some e) (hdirect : e.1.isRoom = false) (hsame : e.1 = key) : c'.reads.count e.2.id = 1 := by
  obtain ⟨hseen, hnot⟩ := h.count i e he hdirect
  have hroom : ¬ key.isRoom = true := by
    rw [← hsame, hdirect]
    decide
  rw [ho.reads, List.count_append]
  by_cases hread : c.model.unread key = 0
  · rw [if_pos (.inr hread), List.count_nil]
    exact hseen (h.read i e he (hsame ▸ hread))
  · obtain ⟨hall, hnodup, -⟩ := hkey (by simpa using hroom) hread
    have hfresh := hnot (h.unread i e he (by rw [hsame]; exact hall))
    have hmem : e.2.id ∈ c.model.theirs key := by
      rw [h.theirs, ← hsame]
      exact mem_idsUnder he
    rw [if_neg (not_or.mpr ⟨hroom, hread⟩), hfresh, Nat.zero_add]
    exact List.count_eq_one_of_mem hnodup hmem

omit [Runtime] [Crypto] in
/-- Of the others nothing is. -/
theorem count_elsewhere (ho : TurnsTo key c c') (hkey : Reportable c key) {i : Nat} {e : Str × Frame} (he : c.filed[i]? = some e)
    (hdirect : e.1.isRoom = false) (hother : e.1 ≠ key) : c'.reads.count e.2.id = c.reads.count e.2.id := by
  rw [ho.reads, List.count_append]
  by_cases hnothing : key.isRoom = true ∨ c.model.unread key = 0
  · rw [if_pos hnothing]
    rfl
  · rw [if_neg hnothing]
    obtain ⟨hroom, hread⟩ := not_or.mp hnothing
    obtain ⟨-, -, hothers⟩ := hkey (by simpa using hroom) hread
    rw [List.count_eq_zero_of_not_mem (hothers e (List.mem_of_getElem? he) hdirect hother), Nat.add_zero]

omit [Runtime] [Crypto] in
/-- **A conversation is opened** of which nothing or everything is unread. -/
theorem Ledger.turnsTo (h : Ledger seen c) (ho : TurnsTo key c c') (hkey : Reportable c key) : Ledger (seeing seen c') c' := by
  refine ⟨ho.connection ▸ h.up, fun key' => ?_, fun key' hactive => ?_, fun id hid => ?_, fun i hi => ?_, fun i e he hread => ?_,
    fun i e he hunread => ?_, fun i e he hdirect => ?_⟩
  · rw [ho.theirs, ho.filed, h.theirs]
  · rw [ho.active] at hactive
    rw [ho.unread, if_pos (Option.some.inj hactive).symm]
  · rw [ho.filed]
    exact h.reported_turnsTo ho hid
  · rcases hi with hi | ⟨e, he, -⟩
    · exact ho.filed ▸ h.bound i hi
    · exact (List.getElem?_eq_some_iff.mp he).1
  · rw [ho.filed] at he
    rw [ho.seeing_iff he]
    by_cases hsame : e.1 = key
    · exact .inr hsame
    · rw [ho.unread, if_neg hsame] at hread
      exact .inl (h.read i e he hread)
  · rw [ho.filed] at he
    rw [ho.seeing_iff he]
    rw [ho.theirs, ho.unread] at hunread
    by_cases hsame : e.1 = key
    · -- the conversation is not empty, so not everything is unread
      have hmem := mem_idsUnder he
      rw [if_pos hsame] at hunread
      rw [← h.theirs, List.eq_nil_of_length_eq_zero hunread.symm] at hmem
      cases hmem
    · rw [if_neg hsame] at hunread
      exact fun hs => hs.elim (h.unread i e he hunread) hsame
  · rw [ho.filed] at he
    rw [ho.seeing_iff he]
    by_cases hsame : e.1 = key
    · exact ⟨fun _ => h.count_opened ho hkey he hdirect hsame, fun hno => absurd (.inr hsame) hno⟩
    · rw [count_elsewhere ho hkey he hdirect hsame]
      obtain ⟨hseen, hnot⟩ := h.count i e he hdirect
      exact ⟨fun hs => hseen (hs.resolve_right hsame), fun hs => hnot fun hold => hs (.inl hold)⟩

omit [Runtime] [Crypto] in
theorem getElem?_filed (hd : Delivers es c c') {i : Nat} {e : Str × Frame} (he : c'.filed[i]? = some e) :
    c.filed[i]? = some e ∨ c.filed.length ≤ i ∧ e ∈ es := by
  rw [hd.filed] at he
  by_cases hi : i < c.filed.length
  · rw [List.getElem?_append_left hi] at he
    exact .inl he
  · have hle : c.filed.length ≤ i := Nat.le_of_not_lt hi
    rw [List.getElem?_append_right hle] at he
    exact .inr ⟨hle, List.mem_of_getElem? he⟩

omit [Runtime] [Crypto] in
theorem getElem?_filed_old (hd : Delivers es c c') {i : Nat} {e : Str × Frame} (he : c.filed[i]? = some e) :
    c'.filed[i]? = some e := by
  rw [hd.filed, List.getElem?_append_left (List.getElem?_eq_some_iff.mp he).1]
  exact he

omit [Runtime] [Crypto] in
/-- What is on screen has been read, so of the messages there were none is seen only now. -/
theorem Ledger.seeing_old (h : Ledger seen c) (hd : Delivers es c c')
    (hscreen : ∀ key, c'.model.active = some key → c.model.active = some key) {i : Nat} {e : Str × Frame}
    (he : c.filed[i]? = some e) : seeing seen c' i ↔ seen i := by
  refine ⟨fun hs => ?_, .inl⟩
  rcases hs with hs | ⟨e', hfound, hshown⟩
  · exact hs
  · obtain rfl := Option.some.inj ((getElem?_filed_old hd he).symm.trans hfound)
    exact h.read i e he (h.active e.1 (hscreen e.1 hshown))

omit [Runtime] [Crypto] in
theorem Ledger.seeing_new (h : Ledger seen c) (hactive : c'.model.active = c.model.active) {i : Nat} {e : Str × Frame}
    (he : c'.filed[i]? = some e) (hi : c.filed.length ≤ i) : seeing seen c' i ↔ c.model.active = some e.1 := by
  have hunseen : ¬ seen i := fun hs => Nat.not_lt_of_le hi (h.bound i hs)
  unfold seeing
  rw [he, hactive]
  constructor
  · intro hs
    rcases hs with hs | ⟨e', hfound, hshown⟩
    · exact absurd hs hunseen
    · obtain rfl := Option.some.inj hfound
      exact hshown
  · exact fun hshown => .inr ⟨e, rfl, hshown⟩

omit [Runtime] [Crypto] in
/-- **Messages are put into the model**, and what comes to the conversation on screen has
been reported before. -/
theorem Ledger.delivers (h : Ledger seen c) (hd : Delivers es c c')
    (hactive : c'.model.active = c.model.active ∨ es = [] ∧ c'.model.active = none)
    (hes : ∀ e ∈ es, e.1.isRoom = false → (c.model.active = some e.1 ↔ e.2.id ∈ c.reads)) : Ledger (seeing seen c') c' := by
  have hscreen : ∀ key, c'.model.active = some key → c.model.active = some key := by
    intro key hkey
    rcases hactive with hsame | ⟨-, hnone⟩
    · exact hsame ▸ hkey
    · rw [hnone] at hkey
      cases hkey
  have hold : ∀ i e, c.filed[i]? = some e → (seeing seen c' i ↔ seen i) := fun i e he => h.seeing_old hd hscreen he
  have hnew : ∀ i e, c'.filed[i]? = some e → c.filed.length ≤ i → e ∈ es → (seeing seen c' i ↔ c.model.active = some e.1) := by
    intro i e he hi hmem
    refine h.seeing_new ?_ he hi
    rcases hactive with hsame | ⟨hnil, -⟩
    · exact hsame
    · rw [hnil] at hmem
      cases hmem
  refine ⟨hd.connection ▸ h.up, fun key => ?_, fun key hkey => ?_, fun id hid => ?_, fun i hi => ?_, fun i e he hread => ?_,
    fun i e he hunread => ?_, fun i e he hdirect => ?_⟩
  · rw [hd.theirs, hd.filed, h.theirs, idsUnder_append]
  · have hshown := hscreen key hkey
    rw [hd.unread, if_pos hshown, h.active key hshown]
  · rw [hd.reads] at hid
    obtain ⟨i, e, he, hrest⟩ := h.reported id hid
    exact ⟨i, e, getElem?_filed_old hd he, hrest⟩
  · rcases hi with hi | ⟨e, he, -⟩
    · have hlt := h.bound i hi
      rw [hd.filed, List.length_append]
      omega
    · exact (List.getElem?_eq_some_iff.mp he).1
  · rw [hd.unread] at hread
    rcases getElem?_filed hd he with hfound | ⟨hi, hmem⟩
    · rw [hold i e hfound]
      exact h.read i e hfound (by omega)
    · rw [hnew i e he hi hmem]
      by_contra hshown
      rw [if_neg hshown] at hread
      have hid : e.2.id ∈ idsUnder e.1 es := List.mem_map.mpr ⟨e, List.mem_filter.mpr ⟨hmem, by simp⟩, rfl⟩
      rw [List.eq_nil_of_length_eq_zero (by omega : (idsUnder e.1 es).length = 0)] at hid
      cases hid
  · rw [hd.unread, hd.theirs, List.length_append] at hunread
    by_cases hshown : c.model.active = some e.1
    · -- on screen nothing is unread, so there is no message there
      have hnil : idsUnder e.1 c'.filed = [] := by
        rw [hd.filed, idsUnder_append, ← h.theirs]
        rw [if_pos hshown, h.active e.1 hshown] at hunread
        exact List.append_eq_nil_iff.mpr ⟨List.eq_nil_of_length_eq_zero (by omega), List.eq_nil_of_length_eq_zero (by omega)⟩
      have hid := mem_idsUnder he
      rw [hnil] at hid
      cases hid
    · rw [if_neg hshown] at hunread
      rcases getElem?_filed hd he with hfound | ⟨hi, hmem⟩
      · rw [hold i e hfound]
        exact h.unread i e hfound (by omega)
      · rw [hnew i e he hi hmem]
        exact hshown
  · rw [hd.reads]
    rcases getElem?_filed hd he with hfound | ⟨hi, hmem⟩
    · rw [hold i e hfound]
      exact h.count i e hfound hdirect
    · rw [hnew i e he hi hmem, hes e hmem hdirect]
      refine ⟨fun hid => ?_, List.count_eq_zero_of_not_mem⟩
      -- the id is that of a message reported before
      obtain ⟨j, e₀, hj, hdirect₀, hsame⟩ := h.reported _ hid
      obtain ⟨hseen, hnot⟩ := h.count j e₀ hj hdirect₀
      rw [hsame] at hseen hnot
      by_cases hs : seen j
      · exact hseen hs
      · exact absurd hid (List.count_eq_zero.mp (hnot hs))

/-! ## Runs -/

/-- What an input puts into the model. -/
def arrivals (c : ChatController) (g : Gesture) : List (Str × Frame) := (c.step g).filed.drop c.filed.length

/-- The condition on one input. A direct message does not come while its conversation is
on screen, and its id is not one reported before (or else both). Of a direct conversation
that is opened with something unread, nothing has been read, and no id is there twice or
in another one. -/
def Punctual (c : ChatController) (g : Gesture) : Prop :=
  (∀ e ∈ c.arrivals g, e.1.isRoom = false → (c.model.active = some e.1 ↔ e.2.id ∈ c.reads)) ∧
    ∀ key, c.opens g = some key → key.isRoom = false → c.model.unread key ≠ 0 →
      c.model.unread key = (c.model.theirs key).length ∧ (c.model.theirs key).Nodup ∧
        ∀ e ∈ c.filed, e.1.isRoom = false → e.1 ≠ key → e.2.id ∉ c.model.theirs key

/-- **One input** keeps the ledger. -/
theorem step_ledger (h : Ledger seen c) {g : Gesture} (hno : ∀ f, g = .frame f → f.type ≠ .historyResult)
    (hp : c.Punctual g) : Ledger (seeing seen (c.step g)) (c.step g) := by
  have hout := step_outcome h.up g hno
  obtain ⟨harrivals, hopens⟩ := hp
  cases hopen : c.opens g with
  | some key =>
    rw [hopen] at hout
    exact h.turnsTo hout (hopens key hopen)
  | none =>
    rw [hopen] at hout
    obtain ⟨es, hes, hactive⟩ := hout
    have hsame : c.arrivals g = es := by
      unfold arrivals
      rw [hes.filed, List.drop_left]
    rw [hsame] at harrivals
    exact h.delivers hes hactive harrivals

/-- The message at this place of `filed` has been on screen when it had come, or after. -/
def Seen (c : ChatController) (gs : List Gesture) (i : Nat) : Prop :=
  ∃ n ≤ gs.length, ∃ e, (c.run (gs.take n)).filed[i]? = some e ∧ (c.run (gs.take n)).model.active = some e.1

theorem seen_snoc (c : ChatController) (gs : List Gesture) (g : Gesture) :
    c.Seen (gs ++ [g]) = seeing (c.Seen gs) (c.run (gs ++ [g])) := by
  funext i
  refine propext ⟨fun h => ?_, fun h => ?_⟩
  · obtain ⟨n, hn, e, he⟩ := h
    rw [List.length_append, List.length_singleton] at hn
    by_cases hlast : n = gs.length + 1
    · refine .inr ⟨e, ?_⟩
      rw [hlast, List.take_of_length_le (by rw [List.length_append, List.length_singleton])] at he
      exact he
    · have hle : n ≤ gs.length := by omega
      rw [List.take_append_of_le_length hle] at he
      exact .inl ⟨n, hle, e, he⟩
  · rcases h with ⟨n, hn, e, he⟩ | ⟨e, he⟩
    · refine ⟨n, by rw [List.length_append]; omega, e, ?_⟩
      rw [List.take_append_of_le_length hn]
      exact he
    · refine ⟨(gs ++ [g]).length, Nat.le_refl _, e, ?_⟩
      rw [List.take_length]
      exact he

theorem throughout_snoc {P : ChatController → Gesture → Prop} (gs : List Gesture) (g : Gesture) :
    ∀ c : ChatController, Throughout P c (gs ++ [g]) → Throughout P c gs ∧ P (c.run gs) g := by
  induction gs with
  | nil => exact fun c h => ⟨trivial, h.1⟩
  | cons g' gs ih =>
    intro c h
    obtain ⟨hrest, hlast⟩ := ih (c.step g') h.2
    exact ⟨⟨h.1, hrest⟩, hlast⟩

/-- **The ledger of a run.** -/
theorem run_ledger (hnew : c.model.conversations = []) (hfiled : c.filed = []) (hreads : c.reads = [])
    (hup : ∀ n, (c.connection n).isSome = true) (gs : List Gesture) (hno : ∀ f, .frame f ∈ gs → f.type ≠ .historyResult)
    (hp : Throughout Punctual c gs) : Ledger (c.Seen gs) (c.run gs) := by
  induction gs using List.reverseRecOn with
  | nil =>
    have hconversation : ∀ key, c.model.conversation key = {} := by
      intro key
      unfold ChatModel.conversation
      rw [hnew]
      rfl
    have hnothing : ∀ (i : Nat) (e : Str × Frame), c.filed[i]? ≠ some e := by
      intro i e he
      rw [hfiled] at he
      cases he
    have hunseen : ∀ i, ¬ c.Seen [] i := by
      intro i hs
      obtain ⟨n, hn, e, he, -⟩ := hs
      obtain rfl : n = 0 := Nat.le_zero.mp hn
      exact hnothing i e he
    show Ledger (c.Seen []) c
    refine ⟨hup, fun key => ?_, fun key _ => ?_, ?_, fun i hs => absurd hs (hunseen i), fun i e he => absurd he (hnothing i e),
      fun i e he => absurd he (hnothing i e), fun i e he => absurd he (hnothing i e)⟩
    · unfold ChatModel.theirs
      rw [hconversation, hfiled]
      rfl
    · unfold ChatModel.unread
      rw [hconversation]
    · rw [hreads]
      exact nofun
  | append_singleton gs g ih =>
    obtain ⟨hbefore, hlast⟩ := throughout_snoc gs g c hp
    have hledger := ih (fun f hf => hno f (List.mem_append_left _ hf)) hbefore
    rw [seen_snoc, run_snoc]
    refine step_ledger hledger (fun f hf => hno f ?_) hlast
    rw [hf]
    exact List.mem_append_right _ (List.mem_singleton_self _)

end ChatController

/-! ## Two glances -/

namespace Sample

/-- `b` writes to us in the clear. -/
def noteOfB (id : Str) : Frame where
  type := .msg
  sender := .str "b"
  target := .str "a"
  body := .str "hi"
  id := .str id
  ts := 1

/-- One note, a glance at it, another note and another glance. -/
def twoGlances : List ChatController.Gesture :=
  [.frame (noteOfB "m"), .select "b", .select "c", .frame (noteOfB "n"), .select "b"]

end Sample

section Concrete

open ChatController Sample

attribute [local instance] exchangeCrypto sampleRuntime

end Concrete

end Ciphertext
