import Mathlib.Data.List.TakeWhile
import Mathlib.Order.BoundedOrder.Lattice

/-!
# A level that events raise

Some events of a log start an entry and others raise its level, which stands for the
highest they have named since the start. What comes before the start counts for
nothing, and the level never falls.

`named` are the levels named since the entry was started, and `level` is the highest of
them in any linear order with a least element. Started or raised by one more event, it is
what it was or what the event names, whichever is higher (`level_snoc`), so it never falls
as the log grows (`level_mono`).
-/

namespace Ciphertext.Prog

section Named

variable {α ε : Type} (starts : ε → Bool) (raises : ε → Option α)

/-- What the events from the first start on have named. -/
def named (log : List ε) : List α := (log.dropWhile fun e => !starts e).filterMap raises

variable {starts raises} {log log' : List ε}

/-- After the start everything counts. -/
theorem named_append (h : ∃ e ∈ log, starts e = true) :
    named starts raises (log ++ log') = named starts raises log ++ log'.filterMap raises := by
  have hne : ¬ (log.dropWhile fun e => !starts e).isEmpty = true := by
    rw [List.isEmpty_iff]
    intro hnil
    obtain ⟨e, he, hs⟩ := h
    have hnot := List.dropWhile_eq_nil_iff.mp hnil e he
    simp [hs] at hnot
  unfold named
  rw [List.dropWhile_append, if_neg hne, List.filterMap_append]

theorem named_unstarted (h : ∀ e ∈ log, starts e = false) : named starts raises log = [] := by
  have hnil : (log.dropWhile fun e => !starts e) = [] := List.dropWhile_eq_nil_iff.mpr fun x hx => by simp [h x hx]
  rw [named, hnil]
  rfl

/-- Nothing counts before it. -/
theorem named_append_unstarted (h : ∀ e ∈ log, starts e = false) :
    named starts raises (log ++ log') = named starts raises log' := by
  unfold named
  rw [List.dropWhile_append_of_pos fun x hx => by simp [h x hx]]

end Named

section Level

variable {α ε : Type} [LinearOrder α] [OrderBot α] (starts : ε → Bool) (raises : ε → Option α)

/-- The highest of what they have named. -/
def level (log : List ε) : α := (named starts raises log).foldl max ⊥

variable {starts raises} {log : List ε} {e : ε}

theorem level_unstarted (h : ∀ e ∈ log, starts e = false) : level starts raises log = ⊥ := by
  rw [level, named_unstarted h]
  rfl

/-- The start itself. -/
theorem level_start (h : ∀ e ∈ log, starts e = false) (he : starts e = true) (hr : raises e = none) :
    level starts raises (log ++ [e]) = ⊥ := by
  rw [level, named_append_unstarted h]
  simp [named, he, hr]

/-- One more event after the start. -/
theorem level_snoc (h : ∃ e ∈ log, starts e = true) :
    level starts raises (log ++ [e]) = max (level starts raises log) ((raises e).getD ⊥) := by
  unfold level
  rw [named_append h, List.foldl_append]
  cases hr : raises e with
  | none => simp [hr]
  | some a => simp [hr]

omit [OrderBot α] in
theorem le_foldl_max (l : List α) (b : α) : b ≤ l.foldl max b := by
  induction l generalizing b with
  | nil => exact le_rfl
  | cons x l ih => exact (le_max_left b x).trans (ih _)

/-- **The level never falls.** -/
theorem level_mono (log log' : List ε) : level starts raises log ≤ level starts raises (log ++ log') := by
  by_cases h : ∃ e ∈ log, starts e = true
  · unfold level
    rw [named_append h, List.foldl_append]
    exact le_foldl_max _ _
  · have h : ∀ e ∈ log, starts e = false := by simpa using h
    rw [level_unstarted h]
    exact bot_le

end Level

end Ciphertext.Prog
