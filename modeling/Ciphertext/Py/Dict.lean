import Mathlib.Data.List.Forall2

/-!
# Python dictionaries

A `dict` as the list of its items in insertion order: assigning to a key that is
there keeps its place, a new key goes to the end.

Only what the code does with dictionaries is here: `get`, `in`, assignment, `pop` and
`setdefault`, each with the lemmas that say what a lookup finds after it, at the key and at
every other key. Keys are compared by Lean's equality, which is Python's where they are
strings; a dictionary whose keys may be of any type brings its own comparison.

`Rel` relates two dictionaries with the same keys in the same order whose values
correspond, and every operation keeps it. Two runs are compared with it.
-/

namespace Ciphertext

namespace PyDict

variable {κ ν : Type} [DecidableEq κ]

/-- `d.get(k)`. -/
def get : List (κ × ν) → κ → Option ν
  | [], _ => none
  | (l, v) :: d, k => if k = l then some v else get d k

/-- `k in d`. -/
def has (d : List (κ × ν)) (k : κ) : Bool := (get d k).isSome

/-- `d[k] = v`. -/
def insert (d : List (κ × ν)) (k : κ) (v : ν) : List (κ × ν) :=
  if has d k then d.map fun e => if e.1 = k then (k, v) else e else d ++ [(k, v)]

/-- `d.pop(k, None)`. -/
def erase (d : List (κ × ν)) (k : κ) : List (κ × ν) := d.filter fun e => e.1 ≠ k

/-- `d.setdefault(k, v)`, as far as the dictionary is concerned. -/
def setDefault (d : List (κ × ν)) (k : κ) (v : ν) : List (κ × ν) :=
  if has d k then d else insert d k v

@[simp] theorem get_nil (k : κ) : get ([] : List (κ × ν)) k = none := rfl

@[simp] theorem get_cons (l k : κ) (v : ν) (d : List (κ × ν)) :
    get ((l, v) :: d) k = if k = l then some v else get d k := rfl

/-- A lookup in two pieces takes the first that has the key. -/
theorem get_append (d d' : List (κ × ν)) (k : κ) :
    get (d ++ d') k = (get d k).or (get d' k) := by
  induction d with
  | nil => rfl
  | cons e d ih =>
    obtain ⟨l, w⟩ := e
    rw [List.cons_append, get_cons, get_cons]
    split
    · rfl
    · exact ih

/-- `key in d`, as membership among the keys. -/
theorem has_iff_mem {d : List (κ × ν)} {k : κ} : has d k = true ↔ k ∈ d.map Prod.fst := by
  induction d with
  | nil => simp [has]
  | cons e d ih =>
    obtain ⟨l, w⟩ := e
    rw [has, get_cons, List.map_cons, List.mem_cons]
    by_cases hk : k = l
    · simp [hk]
    · simp only [hk, false_or]
      exact ih

/-- Overwriting in place is found at the key, -/
theorem get_map_self {d : List (κ × ν)} {k : κ} {v : ν} (h : has d k = true) :
    get (d.map fun e => if e.1 = k then (k, v) else e) k = some v := by
  induction d with
  | nil => simp [has] at h
  | cons e d ih =>
    obtain ⟨l, w⟩ := e
    by_cases hl : l = k
    · simp [hl]
    · have hk : k ≠ l := fun he => hl he.symm
      rw [has, get_cons, if_neg hk] at h
      simp only [List.map_cons, if_neg hl, get_cons, if_neg hk]
      exact ih h

/-- and at no other. -/
theorem get_map_ne {d : List (κ × ν)} {k k' : κ} {v : ν} (h : k' ≠ k) :
    get (d.map fun e => if e.1 = k then (k, v) else e) k' = get d k' := by
  induction d with
  | nil => rfl
  | cons e d ih =>
    obtain ⟨l, w⟩ := e
    by_cases hl : l = k
    · simp [hl, h, ih]
    · simp [hl, ih]

/-- `d[k] = v` is found at `k`, -/
@[simp] theorem get_insert_self (d : List (κ × ν)) (k : κ) (v : ν) :
    get (insert d k v) k = some v := by
  unfold insert
  cases h : has d k with
  | true => exact get_map_self h
  | false =>
    have hnone : get d k = none := by simpa [has] using h
    simp [get_append, hnone]

/-- and at no other key. -/
theorem get_insert_ne (d : List (κ × ν)) {k k' : κ} (v : ν) (h : k' ≠ k) :
    get (insert d k v) k' = get d k' := by
  unfold insert
  cases has d k with
  | true => exact get_map_ne h
  | false => simp [get_append, h]

/-- `d.pop(k)` takes `k` away, -/
@[simp] theorem get_erase_self (d : List (κ × ν)) (k : κ) : get (erase d k) k = none := by
  induction d with
  | nil => rfl
  | cons e d ih =>
    obtain ⟨l, w⟩ := e
    by_cases hl : l = k
    · rw [erase, List.filter_cons_of_neg (by simp [hl])]
      exact ih
    · rw [erase, List.filter_cons_of_pos (by simp [hl]), get_cons, if_neg fun he => hl he.symm]
      exact ih

/-- and no other key. -/
theorem get_erase_ne (d : List (κ × ν)) {k k' : κ} (h : k' ≠ k) :
    get (erase d k) k' = get d k' := by
  induction d with
  | nil => rfl
  | cons e d ih =>
    obtain ⟨l, w⟩ := e
    by_cases hl : l = k
    · rw [erase, List.filter_cons_of_neg (by simp [hl]), get_cons, if_neg (hl ▸ h)]
      exact ih
    · rw [erase, List.filter_cons_of_pos (by simp [hl]), get_cons, get_cons]
      split
      · rfl
      · exact ih

/-- The same of `key in d`: an assigned key is there, -/
@[simp] theorem has_insert_self (d : List (κ × ν)) (k : κ) (v : ν) : has (insert d k v) k = true := by
  rw [has, get_insert_self]
  rfl

/-- the others are where they were, -/
theorem has_insert_ne (d : List (κ × ν)) {k k' : κ} (v : ν) (h : k' ≠ k) :
    has (insert d k v) k' = has d k' := by
  rw [has, has, get_insert_ne d v h]

/-- a removal leaves them, -/
theorem has_erase_ne (d : List (κ × ν)) {k k' : κ} (h : k' ≠ k) : has (erase d k) k' = has d k' := by
  rw [has, has, get_erase_ne d h]

/-- and takes its own. -/
@[simp] theorem has_erase_self (d : List (κ × ν)) (k : κ) : has (erase d k) k = false := by
  rw [has, get_erase_self]
  rfl

/-! ## Every key once -/

/-- An assignment does not double a key. -/
theorem nodup_insert {d : List (κ × ν)} (h : (d.map Prod.fst).Nodup) (k : κ) (v : ν) :
    ((insert d k v).map Prod.fst).Nodup := by
  unfold insert
  cases hk : has d k with
  | true =>
    have hkeys : (d.map fun e => if e.1 = k then (k, v) else e).map Prod.fst = d.map Prod.fst := by
      rw [List.map_map]
      refine List.map_congr_left fun e _ => ?_
      by_cases he : e.1 = k
      · simp [he]
      · simp [he]
    rw [if_pos rfl, hkeys]
    exact h
  | false =>
    have hnot : k ∉ d.map Prod.fst := fun hmem => by
      rw [has_iff_mem.mpr hmem] at hk
      cases hk
    rw [if_neg (by decide), List.map_append, List.nodup_append]
    refine ⟨h, by simp, fun a ha b hb hab => hnot ?_⟩
    have hbk : b = k := by simpa using hb
    rw [← hbk, ← hab]
    exact ha

/-- Nor does a removal. -/
theorem nodup_erase {d : List (κ × ν)} (h : (d.map Prod.fst).Nodup) (k : κ) :
    ((erase d k).map Prod.fst).Nodup :=
  h.sublist (List.filter_sublist.map Prod.fst)

/-- The keys that a removal leaves, in their order. -/
theorem keys_erase (d : List (κ × ν)) (k : κ) :
    (erase d k).map Prod.fst = (d.map Prod.fst).filter fun l => l ≠ k := by
  rw [erase, List.filter_map]
  rfl

/-- An item of a dictionary is what its key maps to. -/
theorem mem_iff_get {d : List (κ × ν)} (h : (d.map Prod.fst).Nodup) {k : κ} {v : ν} :
    (k, v) ∈ d ↔ get d k = some v := by
  induction d with
  | nil => simp
  | cons e d ih =>
    obtain ⟨l, w⟩ := e
    obtain ⟨hl, hd⟩ := List.nodup_cons.mp h
    rw [List.mem_cons, get_cons]
    by_cases hk : k = l
    · subst hk
      have hnot : (k, v) ∉ d := fun hmem => hl (List.mem_map.mpr ⟨(k, v), hmem, rfl⟩)
      simp [hnot, eq_comm]
    · rw [if_neg hk, ← ih hd]
      simp [hk]

/-- Changing every value in place. -/
theorem get_map (d : List (κ × ν)) (f : ν → ν) (k : κ) :
    get (d.map fun e => (e.1, f e.2)) k = (get d k).map f := by
  induction d with
  | nil => rfl
  | cons e d ih =>
    obtain ⟨l, w⟩ := e
    rw [List.map_cons, get_cons, get_cons]
    split
    · rfl
    · exact ih

/-- An entry's value changed by a function of its key. -/
theorem get_map_keyed (d : List (κ × ν)) (f : κ → ν → ν) (k : κ) :
    get (d.map fun e => (e.1, f e.1 e.2)) k = (get d k).map (f k) := by
  induction d with
  | nil => rfl
  | cons e d ih =>
    obtain ⟨l, v⟩ := e
    rw [List.map_cons, get_cons, get_cons]
    split
    next h => rw [h]; rfl
    · exact ih

/-- What a lookup finds is an entry. -/
theorem mem_of_get {d : List (κ × ν)} {k : κ} {v : ν}
    (h : get d k = some v) : (k, v) ∈ d := by
  induction d with
  | nil => cases h
  | cons e d ih =>
    obtain ⟨l, w⟩ := e
    rw [get_cons] at h
    split at h
    next hk =>
      rw [hk, Option.some.inj h]
      exact List.mem_cons_self ..
    · exact List.mem_cons_of_mem _ (ih h)

/-! ## Two dictionaries with the same keys -/

section Rel

variable {B : ν → ν → Prop}

/-- The same keys in the same order, with related values. -/
def Rel {κ : Type} (B : ν → ν → Prop) (d d' : List (κ × ν)) : Prop :=
  List.Forall₂ (fun e e' => e.1 = e'.1 ∧ B e.2 e'.2) d d'

/-- A dictionary corresponds to itself. -/
theorem Rel.refl {κ : Type} (hB : ∀ v, B v v) (d : List (κ × ν)) : Rel B d d :=
  List.forall₂_same.mpr fun e _ => ⟨rfl, hB e.2⟩

/-- Two that correspond have the same keys in the same order. -/
theorem Rel.keys {κ : Type} {d d' : List (κ × ν)} (h : Rel B d d') :
    d.map Prod.fst = d'.map Prod.fst := by
  induction h with
  | nil => rfl
  | cons he _ ih => simp [he.1, ih]

/-- Looked up at one key, both have nothing, or values that correspond. -/
theorem Rel.get {d d' : List (κ × ν)} (h : Rel B d d') (k : κ) :
    (PyDict.get d k = none ∧ PyDict.get d' k = none) ∨
      ∃ v v', PyDict.get d k = some v ∧ PyDict.get d' k = some v' ∧ B v v' := by
  induction h with
  | nil => exact .inl ⟨rfl, rfl⟩
  | @cons e e' d d' he _ ih =>
    obtain ⟨l, v⟩ := e
    obtain ⟨l', v'⟩ := e'
    obtain ⟨rfl, hv⟩ := he
    rw [get_cons, get_cons]
    by_cases hk : k = l
    · exact .inr ⟨v, v', by simp [hk], by simp [hk], hv⟩
    · rw [if_neg hk, if_neg hk]
      exact ih

/-- With a default, both have something. -/
theorem Rel.getD {d d' : List (κ × ν)} (h : Rel B d d') (k : κ) {v : ν} (hv : B v v) :
    B ((PyDict.get d k).getD v) ((PyDict.get d' k).getD v) := by
  rcases h.get k with ⟨h₁, h₂⟩ | ⟨w, w', h₁, h₂, hw⟩
  · rw [h₁, h₂]
    exact hv
  · rw [h₁, h₂]
    exact hw

/-- They agree on `key in d`. -/
theorem Rel.has {d d' : List (κ × ν)} (h : Rel B d d') (k : κ) :
    PyDict.has d k = PyDict.has d' k := by
  rcases h.get k with ⟨h₁, h₂⟩ | ⟨v, v', h₁, h₂, -⟩ <;> simp [PyDict.has, h₁, h₂]

/-- Assigning values that correspond keeps two dictionaries in correspondence, -/
theorem Rel.insert {d d' : List (κ × ν)} (h : Rel B d d') (k : κ) {v v' : ν} (hv : B v v') :
    Rel B (PyDict.insert d k v) (PyDict.insert d' k v') := by
  unfold PyDict.insert
  rw [h.has k]
  cases PyDict.has d' k with
  | false => exact List.rel_append h (.cons ⟨rfl, hv⟩ .nil)
  | true =>
    refine List.rel_map ?_ h
    rintro ⟨l, w⟩ ⟨l', w'⟩ ⟨hl, hw⟩
    simp only at hl hw
    subst hl
    by_cases he : l = k
    · simp [he, hv]
    · simp [he, hw]

/-- and so does removing a key from both. -/
theorem Rel.erase {d d' : List (κ × ν)} (h : Rel B d d') (k : κ) :
    Rel B (PyDict.erase d k) (PyDict.erase d' k) := by
  induction h with
  | nil => exact .nil
  | @cons e e' d d' he _ ih =>
    unfold PyDict.erase at ih ⊢
    by_cases hk : e'.1 = k
    · rw [List.filter_cons_of_neg (by simp [he.1, hk]), List.filter_cons_of_neg (by simp [hk])]
      exact ih
    · rw [List.filter_cons_of_pos (by simp [he.1, hk]), List.filter_cons_of_pos (by simp [hk])]
      exact .cons he ih

end Rel

end PyDict

end Ciphertext
