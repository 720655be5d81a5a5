import Mathlib.Data.List.Sort

/-!
# Sorting by a key and a rank

The rows of a table come with a rank, the order they were put in. A query that asks for
the highest keys first, of equal keys the later rank, and for so many rows, has the end
of the table as it is sorted the other way round. `newest_reverse` says so. The ranks
are what makes it one order: without them rows of one key could come in any.

The sort is insertion sort, by the key and then by the rank (`Before`), ascending or
descending. Filtering commutes with it (`newest_filter`), since ranks are kept, and of two
sorted lists with the same elements there is one only (`eq_of_pairwise`): that is what the
equation between the two ways of asking rests on.
-/

namespace Ciphertext.Ranked

variable {α : Type} (key : α → Int)

/-- By key, and by rank where the keys are the same. -/
def Before (a b : α × Nat) : Prop := key a.1 < key b.1 ∨ key a.1 = key b.1 ∧ a.2 ≤ b.2

instance : DecidableRel (Before key) := fun _ _ => inferInstanceAs (Decidable (_ ∨ _))

/-- Sorted with the smallest key first, equal keys in the order of the ranks. -/
def ascending (l : List (α × Nat)) : List (α × Nat) := l.insertionSort (Before key)

/-- The same order from its far end. -/
def descending (l : List (α × Nat)) : List (α × Nat) := l.insertionSort fun a b => Before key b a

variable {key} {l l' : List (α × Nat)}

/-- Any two can be compared, -/
theorem before_total (a b : α × Nat) : Before key a b ∨ Before key b a := by
  unfold Before
  omega

/-- the comparison is transitive, -/
theorem before_trans {a b c : α × Nat} (hab : Before key a b) (hbc : Before key b c) : Before key a c := by
  unfold Before at *
  omega

/-- and it leaves two of the same rank only undecided. -/
theorem before_antisymm {a b : α × Nat} (hab : Before key a b) (hba : Before key b a) : a.2 = b.2 := by
  unfold Before at *
  omega

/-- The sorted list is in order. -/
theorem ascending_pairwise (l : List (α × Nat)) : (ascending key l).Pairwise (Before key) := by
  have : Std.Total (Before key) := ⟨before_total⟩
  have : IsTrans (α × Nat) (Before key) := ⟨fun _ _ _ => before_trans⟩
  exact List.pairwise_insertionSort _ _

/-- So is the other, backwards. -/
theorem descending_pairwise (l : List (α × Nat)) : (descending key l).Pairwise fun a b => Before key b a := by
  have : Std.Total fun a b : α × Nat => Before key b a := ⟨fun a b => before_total b a⟩
  have : IsTrans (α × Nat) fun a b => Before key b a := ⟨fun _ _ _ hab hbc => before_trans hbc hab⟩
  exact List.pairwise_insertionSort _ _

/-- Sorting loses and adds nothing. -/
theorem ascending_perm (l : List (α × Nat)) : (ascending key l).Perm l := List.perm_insertionSort _ _

/-- In either direction. -/
theorem descending_perm (l : List (α × Nat)) : (descending key l).Perm l := List.perm_insertionSort _ _

/-- In particular it keeps the length. -/
theorem ascending_length (l : List (α × Nat)) : (ascending key l).length = l.length := (ascending_perm l).length_eq

/-- Two lists in order with the same entries are the same list, where no rank occurs twice. -/
theorem eq_of_pairwise (hranks : ∀ a ∈ l, ∀ b ∈ l, a.2 = b.2 → a = b) (hperm : l'.Perm l)
    (h : l.Pairwise (Before key)) (h' : l'.Pairwise (Before key)) : l' = l :=
  hperm.eq_of_pairwise (fun a b ha hb hab hba => hranks a (hperm.mem_iff.mp ha) b hb (before_antisymm hab hba)) h' h

/-- The ranks are those of the order. -/
theorem ranks_of_pairwise (h : l.Pairwise fun a b => a.2 < b.2) : ∀ a ∈ l, ∀ b ∈ l, a.2 = b.2 → a = b := by
  induction l with
  | nil => exact fun a ha => absurd ha List.not_mem_nil
  | cons x l ih =>
    obtain ⟨hx, hl⟩ := List.pairwise_cons.mp h
    intro a ha b hb heq
    cases List.mem_cons.mp ha with
    | inl hax =>
      cases List.mem_cons.mp hb with
      | inl hbx => rw [hax, hbx]
      | inr hbl =>
        have hlt := hx b hbl
        rw [hax] at heq
        omega
    | inr hal =>
      cases List.mem_cons.mp hb with
      | inl hbx =>
        have hlt := hx a hal
        rw [hbx] at heq
        omega
      | inr hbl => exact ih hl a hal b hbl heq

/-- The one order is the other from its end. -/
theorem descending_eq_reverse (h : l.Pairwise fun a b => a.2 < b.2) :
    descending key l = (ascending key l).reverse := by
  have hback : (descending key l).reverse = ascending key l := by
    refine eq_of_pairwise ?_ ?_ (ascending_pairwise l) (List.pairwise_reverse.mpr (descending_pairwise l))
    · intro a ha b hb
      exact ranks_of_pairwise h a ((ascending_perm l).mem_iff.mp ha) b ((ascending_perm l).mem_iff.mp hb)
    · exact ((List.reverse_perm _).trans (descending_perm l)).trans (ascending_perm l).symm
  rw [← hback, List.reverse_reverse]

/-- Inserting in front of later ranks looks at the keys only. -/
theorem orderedInsert_map_fst {a : α × Nat} (h : ∀ b ∈ l, a.2 < b.2) :
    (l.orderedInsert (Before key) a).map Prod.fst =
      (l.map Prod.fst).orderedInsert (fun x y => key x ≤ key y) a.1 := by
  induction l with
  | nil => rfl
  | cons b l ih =>
    have hrank := h b (List.mem_cons_self ..)
    have hiff : Before key a b ↔ key a.1 ≤ key b.1 := by
      unfold Before
      omega
    rw [List.map_cons, List.orderedInsert_cons, List.orderedInsert_cons]
    by_cases hle : key a.1 ≤ key b.1
    · rw [if_pos (hiff.mpr hle), if_pos hle]
      rfl
    · rw [if_neg fun hb => hle (hiff.mp hb), if_neg hle, List.map_cons, ih fun c hc => h c (List.mem_cons_of_mem _ hc)]

/-- A table sorted by its key alone, as it stands, is sorted by key and rank. -/
theorem ascending_map_fst (h : l.Pairwise fun a b => a.2 < b.2) :
    (ascending key l).map Prod.fst = (l.map Prod.fst).insertionSort fun x y => key x ≤ key y := by
  induction l with
  | nil => rfl
  | cons a l ih =>
    obtain ⟨ha, hl⟩ := List.pairwise_cons.mp h
    have hlater : ∀ b ∈ ascending key l, a.2 < b.2 := fun b hb => ha b ((ascending_perm l).mem_iff.mp hb)
    rw [List.map_cons, List.insertionSort_cons, ← ih hl, ← orderedInsert_map_fst hlater]
    rfl

/-- **The newest `k`, the right way round**, are the last `k` of the sorted table. -/
theorem newest_reverse (h : l.Pairwise fun a b => a.2 < b.2) (k : Nat) :
    ((descending key l).take k).reverse = (ascending key l).drop (l.length - k) := by
  rw [descending_eq_reverse h, List.take_reverse, List.reverse_reverse, ascending_length]

/-! ## The places of a list -/

/-- The ranks of a numbered list rise. -/
theorem zipIdx_pairwise (l : List α) (n : Nat) : (l.zipIdx n).Pairwise fun a b => a.2 < b.2 := by
  induction l generalizing n with
  | nil => exact .nil
  | cons a l ih =>
    rw [List.zipIdx_cons, List.pairwise_cons]
    refine ⟨fun b hb => ?_, ih (n + 1)⟩
    have hle := List.le_snd_of_mem_zipIdx hb
    show n < b.2
    omega

/-- Numbering first and filtering after picks the same elements. -/
theorem filter_zipIdx_map_fst (l : List α) (p : α → Bool) :
    (l.zipIdx.filter fun r => p r.1).map Prod.fst = l.filter p := by
  conv_rhs => rw [← List.zipIdx_map_fst 0 l, List.filter_map]
  rfl

/-- The newest `k` of the rows that pass a test, by the sorted rows that pass it. -/
theorem newest_filter (l : List α) (p : α → Bool) (k : Nat) :
    (((descending key (l.zipIdx.filter fun r => p r.1)).take k).map Prod.fst).reverse =
      ((l.filter p).insertionSort fun x y => key x ≤ key y).drop
        (((l.filter p).insertionSort fun x y => key x ≤ key y).length - k) := by
  have hranked : (l.zipIdx.filter fun r => p r.1).Pairwise fun a b => a.2 < b.2 := (zipIdx_pairwise l 0).filter _
  have hlength : (l.zipIdx.filter fun r => p r.1).length = (l.filter p).length := by
    rw [← filter_zipIdx_map_fst l p, List.length_map]
  rw [← List.map_reverse, newest_reverse hranked, List.map_drop, ascending_map_fst hranked, filter_zipIdx_map_fst,
    hlength, List.length_insertionSort]

end Ciphertext.Ranked
