import Mathlib.Data.List.Sort
import Mathlib.Data.Fin.Basic
import Mathlib.Order.Fin.Basic
import Mathlib.Order.Lattice
import Mathlib.Data.List.Lex
import Mathlib.Data.List.DropRight
import Mathlib.Algebra.Ring.Nat

/-!
# Python strings

A Python `str` is a sequence of code points, and `json.loads` happily produces
lone surrogates from `"\ud800"`-style escapes. Such a string is an ordinary
value until somebody encodes it: `str.encode("utf-8")` and every sqlite
parameter refuse it. A Lean `String` cannot hold one, so the model's `Str` is a
list of code points, and `encodable` is the test that matters.

String literals of the source are written as Lean literals; the coercion turns
them into their code points.
-/

namespace Ciphertext

/-- One Unicode code point, surrogates included. -/
abbrev CodePoint := Fin 0x110000

instance codePoints_neZero : NeZero 0x110000 := ⟨by decide⟩

/-- A Python `str`. -/
abbrev Str := List CodePoint

namespace Str

/-- The code points of a literal. -/
def ofString (s : String) : Str := s.toList.map fun c => Fin.ofNat 0x110000 c.toNat

instance : Coe String Str := ⟨ofString⟩

/-- A code point that UTF-8 has no encoding for. -/
def isSurrogate (c : CodePoint) : Bool := 0xD800 ≤ c.val && c.val ≤ 0xDFFF

/-- `s.encode("utf-8")` succeeds. -/
def encodable (s : Str) : Bool := s.all fun c => !isSurrogate c

theorem encodable_append {a b : Str} (ha : encodable a = true) (hb : encodable b = true) :
    encodable (a ++ b) = true := by
  simp only [encodable, List.all_append, Bool.and_eq_true]
  exact ⟨ha, hb⟩

/-- `str.isspace` of one character: the code points Python counts as whitespace. -/
def isSpace (c : CodePoint) : Bool :=
  (0x09 ≤ c.val && c.val ≤ 0x0D) || (0x1C ≤ c.val && c.val ≤ 0x20) || c.val == 0x85 ||
    c.val == 0xA0 || c.val == 0x1680 || (0x2000 ≤ c.val && c.val ≤ 0x200A) ||
    c.val == 0x2028 || c.val == 0x2029 || c.val == 0x202F || c.val == 0x205F || c.val == 0x3000

/-- `s.startswith(p)`. -/
def startsWith (s p : Str) : Bool := p.isPrefixOf s

/-- `s.strip()`: whitespace removed at both ends. -/
def strip (s : Str) : Str := ((s.dropWhile isSpace).reverse.dropWhile isSpace).reverse

theorem strip_eq_nil_iff {s : Str} : s.strip = [] ↔ ∀ c ∈ s, isSpace c = true := by
  show (s.dropWhile isSpace).rdropWhile isSpace = [] ↔ _
  rw [List.rdropWhile_eq_nil_iff]
  constructor
  · intro h
    apply List.dropWhile_eq_nil_iff.mp
    by_contra hne
    have hhead := List.head_dropWhile_not isSpace hne
    rw [h _ (List.head_mem hne)] at hhead
    cases hhead
  · intro h c hc
    exact h c (List.dropWhile_subset _ hc)

/-- A text that has been stripped is blank only if it is empty. -/
theorem strip_strip_ne_nil {s : Str} (h : s.strip ≠ []) : s.strip.strip ≠ [] := by
  intro hblank
  have hlast : ¬ isSpace (s.strip.getLast h) = true := List.rdropWhile_last_not isSpace (s.dropWhile isSpace) h
  exact hlast (strip_eq_nil_iff.mp hblank _ (List.getLast_mem h))

/-- `sep.join(parts)`. -/
def join (sep : Str) (parts : List Str) : Str := List.intercalate sep parts

/-- What is kept by concatenation holds of the joined parts. -/
theorem join_induction {P : Str → Prop} (hnil : P []) (happend : ∀ {a b}, P a → P b → P (a ++ b)) {sep : Str}
    {parts : List Str} (hs : P sep) (h : ∀ p ∈ parts, P p) : P (join sep parts) := by
  induction parts with
  | nil => exact hnil
  | cons x xs ih =>
    have ih := ih fun p hp => h p (List.mem_cons_of_mem _ hp)
    have hx := h x (List.mem_cons_self ..)
    cases xs with
    | nil => simpa [join, List.intercalate] using hx
    | cons y ys =>
      have hstep : join sep (x :: y :: ys) = x ++ (sep ++ join sep (y :: ys)) := by
        simp [join, List.intercalate]
      rw [hstep]
      exact happend hx (happend hs ih)

theorem encodable_join {sep : Str} {parts : List Str} (hs : encodable sep = true)
    (h : ∀ p ∈ parts, encodable p = true) : encodable (join sep parts) = true :=
  join_induction (P := fun s => encodable s = true) rfl encodable_append hs h

/-- `sorted(strings)`: by code point, as both Python and sqlite's binary
collation order text. -/
def sorted (l : List Str) : List Str := l.insertionSort (· ≤ ·)

@[simp] theorem mem_sorted {l : List Str} {x : Str} : x ∈ sorted l ↔ x ∈ l :=
  List.mem_insertionSort _

theorem sorted_perm (l : List Str) : (sorted l).Perm l := List.perm_insertionSort _ l

theorem sorted_nodup {l : List Str} (h : l.Nodup) : (sorted l).Nodup :=
  (sorted_perm l).nodup_iff.mpr h

/-- The decimal spelling of an integer. -/
def ofInt (n : Int) : Str := ofString (toString n)

end Str

end Ciphertext
