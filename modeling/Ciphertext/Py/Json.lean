import Ciphertext.Py.Str
import Mathlib.Data.Rat.Defs
import Mathlib.Algebra.Order.Ring.Unbundled.Rat
import Mathlib.Data.Prod.Lex

/-!
# JSON values as Python holds them

`Frame.from_dict` checks the version, the type and the timestamp of a frame and
nothing else, so every other field is whatever `json.loads` made of it. The
router then calls string methods, `int()`, `sorted()` and sqlite on these
values. `Json` keeps the distinctions those calls see: a boolean is a number,
`1 == 1.0`, and a float may be an infinity or a NaN.

What the standard library does with a value and the model does not spell out
(the `repr` of a string or a float, the text of a JSON document, scrypt) is the
class `Runtime`: a result holds for every choice of it, and where one is needed
that the real library keeps, it is a hypothesis with a name.
-/

namespace Ciphertext

/-- A float by its value. Zero has a sign because `repr` shows it. -/
inductive PyFloat where
  | finite (q : Rat)
  | negZero
  | inf
  | negInf
  | nan
deriving DecidableEq

/-- What `json.loads` returns. A `dict` lists its items in order; its keys are
distinct in every value the parser builds (`Json.WF`). -/
inductive Json where
  | null
  | bool (b : Bool)
  | int (n : Int)
  | float (x : PyFloat)
  | str (s : Str)
  | list (xs : List Json)
  | dict (kvs : List (Str × Json))

/-- The items of a `dict`. -/
abbrev Dict := List (Str × Json)

/-- The exceptions the modelled code can raise, by class. `UnicodeEncodeError`
is a `ValueError` in Python, but nothing here catches it as one. -/
inductive PyErr where
  | attributeError
  | typeError
  | valueError
  | overflowError
  | unicodeEncodeError
  | sqliteError
  | recursionError
deriving DecidableEq

/-- The parts of Python's library the model leaves open. -/
class Runtime where
  /-- `repr` of a string -/
  reprStr : Str → Str
  /-- `repr` (and `str`) of a float -/
  reprFloat : PyFloat → Str
  /-- `int` of a string, `none` where it raises `ValueError` -/
  intOfStr : Str → Option Int
  /-- `json.loads` -/
  loads : Str → Except PyErr Json
  /-- `json.dumps` with the compact separators -/
  dumps : Json → Str
  /-- the text sqlite stores for a `REAL` put in a `TEXT` column -/
  realText : PyFloat → Str
  /-- `hashlib.scrypt` with the server's parameters -/
  scrypt : Str → List UInt8 → List UInt8

namespace Json

/-! ## Equality is decidable -/

mutual

/-- Structural equality, as a test. -/
def decEq : (a b : Json) → Decidable (a = b)
  | .null, b => by cases b <;> first | exact isTrue rfl | exact isFalse (by simp)
  | .bool x, b => by
    cases b with
    | bool y => exact decidable_of_iff (x = y) (by simp)
    | _ => exact isFalse (by simp)
  | .int x, b => by
    cases b with
    | int y => exact decidable_of_iff (x = y) (by simp)
    | _ => exact isFalse (by simp)
  | .float x, b => by
    cases b with
    | float y => exact decidable_of_iff (x = y) (by simp)
    | _ => exact isFalse (by simp)
  | .str x, b => by
    cases b with
    | str y => exact decidable_of_iff (x = y) (by simp)
    | _ => exact isFalse (by simp)
  | .list xs, b => by
    cases b with
    | list ys => exact @decidable_of_iff _ (xs = ys) (by simp) (decEqList xs ys)
    | _ => exact isFalse (by simp)
  | .dict xs, b => by
    cases b with
    | dict ys => exact @decidable_of_iff _ (xs = ys) (by simp) (decEqDict xs ys)
    | _ => exact isFalse (by simp)

def decEqList : (a b : List Json) → Decidable (a = b)
  | [], [] => isTrue rfl
  | [], _ :: _ => isFalse (by simp)
  | _ :: _, [] => isFalse (by simp)
  | x :: xs, y :: ys =>
    match decEq x y, decEqList xs ys with
    | isTrue h, isTrue h' => isTrue (by rw [h, h'])
    | isFalse h, _ => isFalse (by simp [h])
    | _, isFalse h => isFalse (by simp [h])

def decEqDict : (a b : List (Str × Json)) → Decidable (a = b)
  | [], [] => isTrue rfl
  | [], _ :: _ => isFalse (by simp)
  | _ :: _, [] => isFalse (by simp)
  | (k, x) :: xs, (l, y) :: ys =>
    match decEq x y, decEqDict xs ys with
    | isTrue h, isTrue h' => decidable_of_iff (k = l) (by simp [h, h'])
    | isFalse h, _ => isFalse (by simp [h])
    | _, isFalse h => isFalse (by simp [h])

end

instance : DecidableEq Json := decEq

/-! ## Reading a value -/

/-- Keys are distinct in every `dict` of the value, as in anything `json.loads`
builds. -/
inductive WF : Json → Prop
  | null : WF .null
  | bool (b : Bool) : WF (.bool b)
  | int (n : Int) : WF (.int n)
  | float (x : PyFloat) : WF (.float x)
  | str (s : Str) : WF (.str s)
  | list {xs : List Json} (h : ∀ x ∈ xs, WF x) : WF (.list xs)
  | dict {kvs : Dict} (hk : (kvs.map Prod.fst).Nodup) (h : ∀ kv ∈ kvs, WF kv.2) : WF (.dict kvs)

/-- `bool(value)`. -/
def truthy : Json → Bool
  | .null => false
  | .bool b => b
  | .int n => n != 0
  | .float x => x != .finite 0 && x != .negZero
  | .str s => !s.isEmpty
  | .list xs => !xs.isEmpty
  | .dict kvs => !kvs.isEmpty

/-- `value or other`. -/
def orElse (v other : Json) : Json := if v.truthy then v else other

/-- `d.get(key, default)`. -/
def getD (d : Dict) (key : Str) (default : Json) : Json := (d.lookup key).getD default

/-- `d.get(key)`, `None` when the key is absent. -/
def get (d : Dict) (key : Str) : Json := getD d key .null

/-- `isinstance(value, str)`, with the string. -/
def asStr : Json → Option Str
  | .str s => some s
  | _ => none

/-- `isinstance(value, dict)`, with the items. -/
def asDict : Json → Option Dict
  | .dict kvs => some kvs
  | _ => none

/-- The number a value compares and hashes as. A boolean is one; the first
component orders the infinities around every finite value. -/
def numKey : Json → Option (Int ×ₗ Rat)
  | .bool b => some (toLex (0, if b then 1 else 0))
  | .int n => some (toLex (0, (n : Rat)))
  | .float (.finite q) => some (toLex (0, q))
  | .float .negZero => some (toLex (0, 0))
  | .float .inf => some (toLex (1, 0))
  | .float .negInf => some (toLex (-1, 0))
  | _ => none

/-- `a == b` on the values that name a user: numbers by value, the rest as they
are. It is also when two dictionary keys are the same key. -/
def pyEq (a b : Json) : Bool :=
  match a.numKey, b.numKey with
  | some x, some y => x == y
  | none, none => a == b
  | _, _ => false

@[simp] theorem pyEq_str_left (s : Str) (v : Json) : pyEq (.str s) v = true ↔ v = .str s := by
  unfold pyEq
  cases v with
  | float x => cases x <;> simp [numKey]
  | str t =>
    simp only [numKey, beq_iff_eq, Json.str.injEq]
    exact eq_comm
  | _ => simp [numKey]

@[simp] theorem pyEq_str_right (s : Str) (v : Json) : pyEq v (.str s) = true ↔ v = .str s := by
  unfold pyEq
  cases v with
  | float x => cases x <;> simp [numKey]
  | _ => simp [numKey]

theorem pyEq_refl (v : Json) : pyEq v v = true := by
  unfold pyEq
  cases v.numKey <;> simp

theorem pyEq_comm (a b : Json) : pyEq a b = pyEq b a := by
  unfold pyEq
  cases a.numKey <;> cases b.numKey <;> simp [Bool.beq_comm]

theorem pyEq_trans {a b c : Json} (hab : pyEq a b = true) (hbc : pyEq b c = true) :
    pyEq a c = true := by
  unfold pyEq at *
  cases ha : a.numKey <;> cases hb : b.numKey <;> cases hc : c.numKey <;>
    simp_all

/-- `sorted(names)`. Python compares text with text and numbers with numbers; a
list with both in it raises, whatever its order, because no sort can place two
elements it never connects by comparisons. -/
def sortedNames (names : List Json) : Except PyErr (List Json) :=
  if names.length ≤ 1 then .ok names
  else if names.all fun v => v.asStr.isSome then
    .ok (names.insertionSort fun a b => a.asStr.getD [] ≤ b.asStr.getD [])
  else if names.all fun v => v.numKey.isSome then
    .ok (names.insertionSort fun a b => a.numKey.getD (toLex (0, 0)) ≤ b.numKey.getD (toLex (0, 0)))
  else .error .typeError

/-- A number, in Python's sense. -/
def isNumber : Json → Bool
  | .bool _ => true
  | .int _ => true
  | .float _ => true
  | _ => false

/-- `sorted(names)` of a set of names does not raise: there is nothing to compare, or
text is compared with text and numbers with numbers. -/
def sortable (names : List Json) : Bool :=
  names.length ≤ 1 || (names.all fun v => v.asStr.isSome) || names.all isNumber

section Runtime

variable [Runtime]

mutual

/-- `repr(value)`. -/
def repr : Json → Str
  | .null => "None"
  | .bool b => if b then "True" else "False"
  | .int n => Str.ofInt n
  | .float x => Runtime.reprFloat x
  | .str s => Runtime.reprStr s
  | .list xs => Str.ofString "[" ++ Str.join ", " (reprList xs) ++ Str.ofString "]"
  | .dict kvs => Str.ofString "\x7b" ++ Str.join ", " (reprDict kvs) ++ Str.ofString "\x7d"

def reprList : List Json → List Str
  | [] => []
  | x :: xs => repr x :: reprList xs

def reprDict : List (Str × Json) → List Str
  | [] => []
  | (k, x) :: kvs => (Runtime.reprStr k ++ Str.ofString ": " ++ repr x) :: reprDict kvs

end

/-- `str(value)`: a string is itself, anything else is its `repr`. -/
def pyStr : Json → Str
  | .str s => s
  | v => repr v

@[simp] theorem pyStr_str (s : Str) : pyStr (.str s) = s := rfl

/-- `int(value)`. A float is cut towards zero; an infinity and a NaN raise, as
does anything that is not a number or the text of one. -/
def pyInt : Json → Except PyErr Int
  | .bool b => .ok (if b then 1 else 0)
  | .int n => .ok n
  | .float (.finite q) => .ok (q.num.tdiv q.den)
  | .float .negZero => .ok 0
  | .float .inf => .error .overflowError
  | .float .negInf => .error .overflowError
  | .float .nan => .error .valueError
  | .str s =>
    match Runtime.intOfStr s with
    | some n => .ok n
    | none => .error .valueError
  | .null => .error .typeError
  | .list _ => .error .typeError
  | .dict _ => .error .typeError

end Runtime

end Json

/-- `json.dumps` writes the object as text that `json.loads` reads back and that
sqlite can store: it escapes everything outside ASCII. -/
structure Renders [Runtime] (d : Dict) : Prop where
  reads : Runtime.loads (Runtime.dumps (.dict d)) = .ok (.dict d)
  nonempty : Runtime.dumps (.dict d) ≠ []
  encodable : (Runtime.dumps (.dict d)).encodable = true

/-! ## A library for concrete runs

Where a concrete run of the server is shown, it needs some `Runtime`.
`sampleRuntime` answers as Python does on the few documents those runs contain;
its `scrypt` is a stand-in of which they only use that equal inputs give equal
digests. -/

namespace Sample

/-- A map with one envelope, for `b`. -/
def env : Dict := [("b", .list [.str "x", .str "y"])]

/-- The compact text of that map. -/
def envText : Str := "\x7b\"b\":[\"x\",\"y\"]\x7d"

/-- The same with an envelope for `c` as well, and its text. -/
def env' : Dict := [("b", .list [.str "x", .str "y"]), ("c", .list [.str "z", .str "y"])]

def envText' : Str := "\x7b\"b\":[\"x\",\"y\"],\"c\":[\"z\",\"y\"]\x7d"

def loads (s : Str) : Except PyErr Json :=
  if s = envText then .ok (.dict env)
  else if s = envText' then .ok (.dict env')
  else if s = "\x7b\x7d" then .ok (.dict [])
  else if s = "[]" then .ok (.list [])
  else .error .valueError

def dumps (j : Json) : Str :=
  if j = .dict env then envText
  else if j = .dict env' then envText'
  else if j = .dict [] then "\x7b\x7d"
  else "[]"

end Sample

@[reducible] def sampleRuntime : Runtime where
  reprStr s := Str.ofString "'" ++ s ++ Str.ofString "'"
  reprFloat _ := "nan"
  intOfStr _ := none
  loads := Sample.loads
  dumps := Sample.dumps
  realText _ := "0.0"
  scrypt p salt := p.map (fun c => UInt8.ofNat c.val) ++ salt

end Ciphertext
