import Mathlib.Data.List.Basic
import Mathlib.Data.List.Infix

/-!
# Parts of a list, and of its image under a lengthening map

A map that replaces each element by a list moves positions. `reach f l k` is where the
first `k` elements of `l` end in the image, and a slice of the list has the slice of the
image between two such places for its image. A pattern is found in a slice exactly when
it begins at some place of the whole and ends inside (`infix_slice_iff`).

The other way round a piece of the image need not be the image of a piece: a place inside
what one element was mapped to is no `reach`. What is put before and after a text and has no
element in common with the pattern does not help to find it (`infix_of_infix_append`).
-/

namespace Ciphertext.Spans

variable {α β : Type}

/-- Where the image of the first `k` elements ends. -/
def reach (f : α → List β) (l : List α) (k : Nat) : Nat := ((l.take k).flatMap f).length

variable {f : α → List β} {l : List α} {k : Nat}

theorem length_le_flatMap (hf : ∀ a, f a ≠ []) (l : List α) : l.length ≤ (l.flatMap f).length := by
  induction l with
  | nil => exact Nat.le_refl 0
  | cons a l ih =>
    have hpos : 0 < (f a).length := List.length_pos_iff.mpr (hf a)
    rw [List.flatMap_cons, List.length_append, List.length_cons]
    omega

/-- The image of the front is the front of the image. -/
theorem flatMap_take (f : α → List β) (l : List α) (k : Nat) :
    (l.take k).flatMap f = (l.flatMap f).take (reach f l k) := by
  have hsplit : l.flatMap f = (l.take k).flatMap f ++ (l.drop k).flatMap f := by
    rw [← List.flatMap_append, List.take_append_drop]
  rw [hsplit, reach, List.take_left]

theorem flatMap_drop (f : α → List β) (l : List α) (k : Nat) :
    (l.drop k).flatMap f = (l.flatMap f).drop (reach f l k) := by
  have hsplit : l.flatMap f = (l.take k).flatMap f ++ (l.drop k).flatMap f := by
    rw [← List.flatMap_append, List.take_append_drop]
  rw [hsplit, reach, List.drop_left]

theorem le_reach (hf : ∀ a, f a ≠ []) (h : k ≤ l.length) : k ≤ reach f l k := by
  have hle := length_le_flatMap hf (l.take k)
  rw [List.length_take, Nat.min_eq_left h] at hle
  exact hle

theorem reach_of_length_le (h : l.length ≤ k) : reach f l k = (l.flatMap f).length := by
  rw [reach, List.take_of_length_le h]

theorem reach_take_le (f : α → List β) (l : List α) (s e : Nat) : reach f (l.take e) s = reach f l (min s e) := by
  rw [reach, reach, List.take_take]

/-- The image of a slice is a slice of the image. -/
theorem flatMap_slice (f : α → List β) (l : List α) (s e : Nat) :
    ((l.take e).drop s).flatMap f = ((l.flatMap f).take (reach f l e)).drop (reach f l (min s e)) := by
  rw [flatMap_drop, flatMap_take, reach_take_le]

/-! ## A pattern in a slice -/

variable {pattern text front back : List β} {a b p : Nat}

/-- The pattern stands at `p` in the text. -/
def StandsAt (pattern text : List β) (p : Nat) : Prop := pattern <+: text.drop p

theorem StandsAt.le_length (h : StandsAt pattern text p) (hne : pattern ≠ []) : p + pattern.length ≤ text.length := by
  have hle := List.IsPrefix.length_le h
  have hpos := List.length_pos_iff.mpr hne
  rw [List.length_drop] at hle
  omega

/-- **A pattern is in a slice exactly when it stands inside it.** -/
theorem infix_slice_iff (hne : pattern ≠ []) :
    pattern <:+: (text.take b).drop a ↔ ∃ p, a ≤ p ∧ p + pattern.length ≤ b ∧ StandsAt pattern text p := by
  have hpos := List.length_pos_iff.mpr hne
  constructor
  · intro h
    obtain ⟨pre, post, heq⟩ := h
    have hlength := congrArg List.length heq
    simp only [List.length_append, List.length_drop, List.length_take] at hlength
    refine ⟨a + pre.length, by omega, by omega, post ++ text.drop b, ?_⟩
    have hdrop : (text.take b).drop (a + pre.length) = pattern ++ post := by
      rw [← List.drop_drop, ← heq, List.append_assoc, List.drop_left]
    have hsplit : text.drop (a + pre.length) = (text.take b).drop (a + pre.length) ++ text.drop b := by
      conv_lhs => rw [← List.take_append_drop b text]
      rw [List.drop_append_of_le_length]
      rw [List.length_take]
      omega
    rw [hsplit, hdrop, List.append_assoc]
  · intro h
    obtain ⟨p, ha, hb, post, heq⟩ := h
    have htake : ((text.take b).drop p).take pattern.length = pattern := by
      rw [List.drop_take, List.take_take, Nat.min_eq_left (by omega), ← heq, List.take_left]
    refine ⟨((text.take b).drop a).take (p - a), ((text.take b).drop p).drop pattern.length, ?_⟩
    have hrest : ((text.take b).drop a).drop (p - a) = (text.take b).drop p := by
      rw [List.drop_drop]
      congr 1
      omega
    conv_rhs => rw [← List.take_append_drop (p - a) ((text.take b).drop a), hrest,
      ← List.take_append_drop pattern.length ((text.take b).drop p), htake]
    rw [List.append_assoc]

/-- What shares no element with the pattern does not help to find it. -/
theorem infix_of_infix_append (hne : pattern ≠ []) (hfront : ∀ x ∈ pattern, x ∉ front)
    (hback : ∀ x ∈ pattern, x ∉ back) (h : pattern <:+: front ++ (text ++ back)) : pattern <:+: text := by
  obtain ⟨pre, post, heq⟩ := h
  -- The pattern begins behind the front,
  obtain ⟨pre', hrest⟩ : ∃ pre', text ++ back = pre' ++ pattern ++ post := by
    rw [List.append_assoc] at heq
    rcases List.append_eq_append_iff.mp heq with ⟨xs, hfr, hrest⟩ | ⟨xs, hpre, hrest⟩
    · cases xs with
      | nil => exact ⟨[], by simpa using hrest.symm⟩
      | cons x xs =>
        obtain ⟨y, ys, rfl⟩ := List.exists_cons_of_ne_nil hne
        obtain ⟨rfl, -⟩ := List.cons.inj hrest
        exact absurd (hfr ▸ List.mem_append_right _ (List.mem_cons_self ..)) (hfront y (List.mem_cons_self ..))
    · exact ⟨xs, by rw [hrest, List.append_assoc]⟩
  -- and ends before the back.
  rcases List.append_eq_append_iff.mp hrest with ⟨xs, hpre, hbk⟩ | ⟨xs, htext, -⟩
  · rcases List.eq_nil_or_concat xs with rfl | ⟨zs, z, rfl⟩
    · exact ⟨pre', [], by rw [List.append_nil, hpre, List.append_nil]⟩
    · obtain ⟨ys, y, rfl⟩ := (List.eq_nil_or_concat pattern).resolve_left hne
      have hlast : y = z := by
        have hget := congrArg List.getLast? hpre
        simpa using hget
      have hmem : y ∈ back := by
        rw [hbk, hlast]
        simp
      exact absurd hmem (hback y (by simp))
  · exact ⟨pre', xs, htext.symm⟩

end Ciphertext.Spans
