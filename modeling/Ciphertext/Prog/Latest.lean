import Mathlib.Data.List.Basic

/-!
# The latest entry of a kind in a log

A reader who keeps only the last entry of some kind is up to date after more
entries if none of them is of the kind and nothing has changed, or if one of them
is and every one of the kind says how things are now. What the entries of a kind set is
what the last of them has set.

`latest` is the last entry that passes a test. After more entries it is theirs if they have
one (`latest_append_of_mem`), and what it was if they have none (`latest_append_of_none`).
`lastValue` is a register that the entries of the kind set, with a value it has before any
of them; `lastValue_append` is the law it is used by: reading two logs one after the other
is reading the second with what the first has left.
-/

namespace Ciphertext.Prog

variable {α : Type} {p : α → Bool} {l l' : List α} {a : α}

/-- The last entry of the kind. -/
def latest (p : α → Bool) (l : List α) : Option α := (l.filter p).getLast?

@[simp] theorem latest_nil : latest p [] = none := rfl

/-- What is found is in the list and passes the test. -/
theorem mem_of_latest (h : latest p l = some a) : a ∈ l ∧ p a = true :=
  List.mem_filter.mp (List.mem_of_getLast? h)

/-- Nothing is found where nothing passes. -/
theorem latest_eq_none (h : ∀ x ∈ l, p x = false) : latest p l = none := by
  have hnil : l.filter p = [] := List.filter_eq_nil_iff.mpr fun x hx => by simp [h x hx]
  rw [latest, hnil]
  rfl

/-- Entries of other kinds change nothing. -/
theorem latest_append_of_none (h : ∀ x ∈ l', p x = false) : latest p (l ++ l') = latest p l := by
  have hnil : l'.filter p = [] := List.filter_eq_nil_iff.mpr fun x hx => by simp [h x hx]
  rw [latest, List.filter_append, hnil, List.append_nil]
  rfl

/-- One new entry of the kind replaces what was there. -/
theorem latest_append_of_mem (h : ∃ x ∈ l', p x = true) : latest p (l ++ l') = latest p l' := by
  obtain ⟨x, hx, hp⟩ := h
  have hne : l'.filter p ≠ [] := List.ne_nil_of_mem (List.mem_filter.mpr ⟨hx, hp⟩)
  rw [latest, List.filter_append, List.getLast?_append_of_ne_nil _ hne]
  rfl

/-- Something is found where something passes. -/
theorem latest_isSome (h : ∃ x ∈ l, p x = true) : ∃ a, latest p l = some a := by
  obtain ⟨x, hx, hp⟩ := h
  have hne : l.filter p ≠ [] := List.ne_nil_of_mem (List.mem_filter.mpr ⟨hx, hp⟩)
  exact ⟨_, List.getLast?_eq_some_getLast hne⟩

/-- What is there, if every entry of the kind sets it. -/
def lastValue {β : Type} (p : α → Bool) (f : α → β) (b : β) (l : List α) : β := ((latest p l).map f).getD b

section LastValue

variable {β : Type} {f : α → β} {b : β}

@[simp] theorem lastValue_nil : lastValue p f b [] = b := rfl

/-- One event decides if it passes, and leaves the default if not. -/
theorem lastValue_singleton : lastValue p f b [a] = if p a = true then f a else b := by
  unfold lastValue latest
  by_cases h : p a = true
  · rw [List.filter_cons_of_pos h, if_pos h]
    rfl
  · rw [List.filter_cons_of_neg h, if_neg h]
    rfl

/-- More entries go on from there. -/
theorem lastValue_append : lastValue p f b (l ++ l') = lastValue p f (lastValue p f b l) l' := by
  unfold lastValue
  by_cases h : ∃ x ∈ l', p x = true
  · obtain ⟨x, hx⟩ := latest_isSome h
    rw [latest_append_of_mem h, hx]
    rfl
  · have hnone : ∀ x ∈ l', p x = false := fun x hx => by
      by_contra hp
      exact h ⟨x, hx, by simpa using hp⟩
    rw [latest_append_of_none hnone, latest_eq_none hnone]
    rfl

end LastValue

end Ciphertext.Prog
