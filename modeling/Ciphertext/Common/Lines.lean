import Mathlib.Data.List.Basic

/-!
# Lines in a stream

A stream is a list of lines, each followed by a delimiter, and an unfinished
rest. `Lines.split` reads any list that way and `Lines.join` writes it; a list of
pieces without the delimiter is read back as it was written. `Lines.split_append`
is what makes a reader indifferent to where a stream was cut: the rest of the
first part is the beginning of the first line of the second.

Nothing is said of what a delimiter is: the elements are of any type with decidable
equality. `split_join` and `join_split` make the two inverse to each other, on lists of
pieces that have no delimiter in them, which is what `split` returns (`split_notMem`).
-/

namespace Ciphertext

namespace Lines

variable {α : Type} [DecidableEq α] (d : α)

/-- The lines of a stream and what follows the last delimiter. -/
def split : List α → List (List α) × List α
  | [] => ([], [])
  | a :: as =>
    if a = d then ([] :: (split as).1, (split as).2)
    else
      match split as with
      | ([], rest) => ([], a :: rest)
      | (l :: ls, rest) => ((a :: l) :: ls, rest)

omit [DecidableEq α] in
/-- Each line with its delimiter. -/
def join (ls : List (List α)) : List α := (ls.map (· ++ [d])).flatten

omit [DecidableEq α] in
@[simp] theorem join_nil : join d [] = [] := rfl

omit [DecidableEq α] in
@[simp] theorem join_cons (l : List α) (ls : List (List α)) :
    join d (l :: ls) = l ++ d :: join d ls := by
  simp [join]

variable {d}

theorem split_cons_self (as : List α) :
    split d (d :: as) = ([] :: (split d as).1, (split d as).2) := by
  rw [split, if_pos rfl]

/-- A piece without the delimiter goes in front of whatever comes first. -/
theorem split_append_line {l : List α} (hl : d ∉ l) (as : List α) :
    split d (l ++ d :: as) = (l :: (split d as).1, (split d as).2) := by
  induction l with
  | nil => exact split_cons_self as
  | cons a l ih =>
    have hne : a ≠ d := fun he => hl (he ▸ List.mem_cons_self ..)
    have ih := ih fun h => hl (List.mem_cons_of_mem _ h)
    rw [List.cons_append, split, if_neg hne, ih]

/-- A piece without the delimiter begins the first line, or the rest. -/
theorem split_append_piece {l : List α} (hl : d ∉ l) (as : List α) :
    split d (l ++ as) =
      match split d as with
      | ([], rest) => ([], l ++ rest)
      | (l' :: ls, rest) => ((l ++ l') :: ls, rest) := by
  induction l with
  | nil =>
    rw [List.nil_append]
    rcases split d as with ⟨- | ⟨l', ls⟩, rest⟩ <;> rfl
  | cons a l ih =>
    have hne : a ≠ d := fun he => hl (he ▸ List.mem_cons_self ..)
    have ih := ih fun h => hl (List.mem_cons_of_mem _ h)
    rw [List.cons_append, split, if_neg hne, ih]
    rcases split d as with ⟨- | ⟨l', ls⟩, rest⟩ <;> rfl

theorem split_of_notMem {l : List α} (hl : d ∉ l) : split d l = ([], l) := by
  induction l with
  | nil => rfl
  | cons a l ih =>
    have hne : a ≠ d := fun he => hl (he ▸ List.mem_cons_self ..)
    have ih := ih fun h => hl (List.mem_cons_of_mem _ h)
    rw [split, if_neg hne, ih]

/-- What is written is read back. -/
theorem split_join {ls : List (List α)} {rest : List α} (hls : ∀ l ∈ ls, d ∉ l) (hrest : d ∉ rest) :
    split d (join d ls ++ rest) = (ls, rest) := by
  induction ls with
  | nil => exact split_of_notMem hrest
  | cons l ls ih =>
    have ih := ih fun l' hl' => hls l' (List.mem_cons_of_mem _ hl')
    have hl := hls l (List.mem_cons_self ..)
    rw [join_cons, List.append_assoc, List.cons_append, split_append_line hl, ih]

/-- Every stream is written by its lines and its rest. -/
theorem join_split (as : List α) : join d (split d as).1 ++ (split d as).2 = as := by
  induction as with
  | nil => rfl
  | cons a as ih =>
    by_cases ha : a = d
    · subst ha
      rw [split_cons_self, join_cons]
      simpa using ih
    · rw [split, if_neg ha]
      rcases hs : split d as with ⟨- | ⟨l, ls⟩, rest⟩ <;> rw [hs] at ih
      · simpa using ih
      · simpa using ih

theorem split_notMem (as : List α) :
    (∀ l ∈ (split d as).1, d ∉ l) ∧ d ∉ (split d as).2 := by
  induction as with
  | nil => simp [split]
  | cons a as ih =>
    by_cases ha : a = d
    · subst ha
      rw [split_cons_self]
      refine ⟨fun l hl => ?_, ih.2⟩
      rcases List.mem_cons.mp hl with rfl | hl
      · simp
      · exact ih.1 l hl
    · rw [split, if_neg ha]
      rcases hs : split d as with ⟨- | ⟨l, ls⟩, rest⟩ <;> rw [hs] at ih
      · refine ⟨by simp, ?_⟩
        simpa [Ne.symm ha] using ih.2
      · refine ⟨fun l' hl' => ?_, ih.2⟩
        rcases List.mem_cons.mp hl' with rfl | hl'
        · simpa [Ne.symm ha] using ih.1 l (List.mem_cons_self ..)
        · exact ih.1 l' (List.mem_cons_of_mem _ hl')

/-- A stream in two parts: the second begins with what the first left over. -/
theorem split_append (as bs : List α) :
    split d (as ++ bs) =
      ((split d as).1 ++ (split d ((split d as).2 ++ bs)).1,
        (split d ((split d as).2 ++ bs)).2) := by
  obtain ⟨hls, -⟩ := split_notMem (d := d) as
  have hbs := split_notMem (d := d) ((split d as).2 ++ bs)
  have hwhole : as ++ bs =
      join d ((split d as).1 ++ (split d ((split d as).2 ++ bs)).1) ++
        (split d ((split d as).2 ++ bs)).2 := by
    have hjoin : ∀ xs ys : List (List α), join d (xs ++ ys) = join d xs ++ join d ys := by
      intro xs ys
      simp [join]
    rw [hjoin, List.append_assoc, join_split, ← List.append_assoc, join_split]
  rw [hwhole, split_join _ hbs.2]
  intro l hl
  rcases List.mem_append.mp hl with hl | hl
  · exact hls l hl
  · exact hbs.1 l hl

/-- A piece that begins a line or the rest is no longer than it. -/
theorem length_le_of_split {l as : List α} {n : Nat} (hl : d ∉ l)
    (hls : ∀ l' ∈ (split d (l ++ as)).1, l'.length ≤ n)
    (hrest : (split d (l ++ as)).2.length ≤ n) : l.length ≤ n := by
  rw [split_append_piece hl] at hls hrest
  rcases hs : split d as with ⟨- | ⟨l', ls⟩, rest⟩ <;> rw [hs] at hls hrest
  · simp only [List.length_append] at hrest
    omega
  · have := hls (l ++ l') (List.mem_cons_self ..)
    simp only [List.length_append] at this
    omega

end Lines

end Ciphertext
