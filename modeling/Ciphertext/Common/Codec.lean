import Ciphertext.Common.Frames
import Ciphertext.Py.Utf8

/-!
# Turning frames into bytes and back

The model of `im/common/codec.py`, with the two methods of `Frame` it is built
on. `encode` writes one line; `LineBuffer` finds the lines in what the socket
delivers, wherever it cut them; `decode` reads one line.

The text of a JSON value is spelled out, because what a line is made of decides
where it ends: `json.dumps` with `ensure_ascii=False` escapes the two characters
that delimit strings and everything below U+0020, and leaves the rest alone. How
a finite float is spelled stays open, and so does what `json.loads` makes of a
line.
-/

namespace Ciphertext

namespace Json

/-- The hexadecimal digit, as `'{0:04x}'` writes it. -/
def hexDigit (n : Nat) : CodePoint := Fin.ofNat 0x110000 (Nat.digitChar n).toNat

/-- One character inside a JSON string. -/
def escape (c : CodePoint) : Str :=
  if c.val = 0x22 then "\\\""
  else if c.val = 0x5C then "\\\\"
  else if c.val = 0x0A then "\\n"
  else if c.val = 0x0D then "\\r"
  else if c.val = 0x09 then "\\t"
  else if c.val = 0x0C then "\\f"
  else if c.val = 0x08 then "\\b"
  else if c.val < 0x20 then Str.ofString "\\u00" ++ [hexDigit (c.val / 16), hexDigit (c.val % 16)]
  else [c]

/-- What a character is written as: an escape of two characters, one of six, or itself. -/
theorem escape_cases (c : CodePoint) :
    (∃ s ∈ (["\\\"", "\\\\", "\\n", "\\r", "\\t", "\\f", "\\b"] : List String), c.val < 0x60 ∧ escape c = Str.ofString s) ∨
      (c.val < 0x20 ∧ escape c = Str.ofString "\\u00" ++ [hexDigit (c.val / 16), hexDigit (c.val % 16)]) ∨
      (0x20 ≤ c.val ∧ escape c = [c]) := by
  unfold escape
  split
  next h => exact .inl ⟨"\\\"", by simp, by omega, rfl⟩
  split
  next h => exact .inl ⟨"\\\\", by simp, by omega, rfl⟩
  split
  next h => exact .inl ⟨"\\n", by simp, by omega, rfl⟩
  split
  next h => exact .inl ⟨"\\r", by simp, by omega, rfl⟩
  split
  next h => exact .inl ⟨"\\t", by simp, by omega, rfl⟩
  split
  next h => exact .inl ⟨"\\f", by simp, by omega, rfl⟩
  split
  next h => exact .inl ⟨"\\b", by simp, by omega, rfl⟩
  split
  next h => exact .inr (.inl ⟨h, rfl⟩)
  next h => exact .inr (.inr ⟨by omega, rfl⟩)

def quote (s : Str) : Str := Str.ofString "\"" ++ s.flatMap escape ++ Str.ofString "\""

variable [Runtime]

def floatText : PyFloat → Str
  | .nan => "NaN"
  | .inf => "Infinity"
  | .negInf => "-Infinity"
  | x => Runtime.reprFloat x

mutual

/-- `json.dumps(value, ensure_ascii=False, separators=(",", ":"))`. -/
def text : Json → Str
  | .null => "null"
  | .bool b => if b then "true" else "false"
  | .int n => Str.ofInt n
  | .float x => floatText x
  | .str s => quote s
  | .list xs => Str.ofString "[" ++ Str.join "," (textList xs) ++ Str.ofString "]"
  | .dict kvs => Str.ofString "\x7b" ++ Str.join "," (textDict kvs) ++ Str.ofString "\x7d"

def textList : List Json → List Str
  | [] => []
  | x :: xs => text x :: textList xs

def textDict : List (Str × Json) → List Str
  | [] => []
  | (k, x) :: kvs => (quote k ++ Str.ofString ":" ++ text x) :: textDict kvs

end

mutual

/-- Every integer in the value has a decimal spelling: Python refuses to print
one of more than 4300 digits. -/
def printable : Json → Bool
  | .int n => n.natAbs < 10 ^ 4300
  | .list xs => printableList xs
  | .dict kvs => printableDict kvs
  | _ => true

def printableList : List Json → Bool
  | [] => true
  | x :: xs => printable x && printableList xs

def printableDict : List (Str × Json) → Bool
  | [] => true
  | (_, x) :: kvs => printable x && printableDict kvs

end

end Json

/-- What the codec raises: a `ProtocolError` with its text, or whatever else. -/
inductive CodecErr where
  | protocol (message : Str)
  | raised (e : PyErr)
deriving DecidableEq

/-- The text of the `JSONDecodeError` that `json.loads` raises, `none` when what
it raises is not one: an integer too long to read, or nesting too deep. -/
class JsonErrors where
  message : Str → Option Str

/-- `DELIMITER`. -/
def delimiter : UInt8 := 0x0A

/-- `MAX_LINE_BYTES`. -/
def maxLineBytes : Nat := 1024 * 1024

namespace Frame

/-- A field that is left out when it is `None`. -/
def present (key : Str) (value : Json) : Dict := if value = .null then [] else [(key, value)]

variable [Runtime]

/-- `Frame.to_dict`: the JSON-ready form, or the text of the `ProtocolError`. -/
def toDict (f : Frame) : Except Str Dict :=
  match f.data.find? fun kv => reserved.contains kv.1 with
  | some kv => .error (Str.ofString "data key " ++ Runtime.reprStr kv.1 ++
      Str.ofString " collides with a reserved field")
  | none =>
    let head : Dict := [("v", f.v), ("id", f.id), ("type", .str f.type.value), ("ts", .int f.ts)]
    .ok (head ++ present "from" f.sender ++ present "to" f.target ++ present "body" f.body ++
      present "n" f.nonce ++ f.data)

end Frame

section Codec

variable [Runtime]

/-- Serialise a frame to one UTF-8 line, newline included. -/
def encode (f : Frame) : Except CodecErr (List UInt8) :=
  match f.toDict with
  | .error message => .error (.protocol message)
  | .ok d =>
    if !(Json.dict d).printable then .error (.raised .valueError)
    else if !(Json.dict d).text.encodable then .error (.raised .unicodeEncodeError)
    else .ok ((Json.dict d).text.utf8 ++ [delimiter])

/-- Parse one line into a frame. The id and the time are what `new_id` and
`now_ms` would answer, for a line that has none. -/
def decode [JsonErrors] (newId : Str) (now : Int) (line : Str) : Except CodecErr Frame :=
  match Runtime.loads line with
  | .error e =>
    match JsonErrors.message line with
    | some message => .error (.protocol (Str.ofString "line is not valid JSON: " ++ message))
    | none => .error (.raised e)
  | .ok raw => (Frame.fromDict newId now raw).mapError .protocol

end Codec

/-! ## `LineBuffer` -/

/-- Received bytes that are not a complete line yet. -/
structure LineBuffer where
  buffer : List UInt8 := []
  maxLineBytes : Nat := Ciphertext.maxLineBytes
deriving DecidableEq

namespace LineBuffer

/-- `text.rstrip("\r")`. -/
def stripCR (text : Str) : Str := (text.reverse.dropWhile fun c => c.val == 0x0D).reverse

/-- A line that is empty is not handed back. -/
def keep (line : Str) (lines : List Str) : List Str := if line.isEmpty then lines else line :: lines

/-- Take complete lines off the front of the bytes, `raw` being what has been
seen of the first one. A line that is not UTF-8 raises, and by then it and the
lines before it are gone. -/
def drain (raw : List UInt8) : List UInt8 → Except Str (List Str) × List UInt8
  | [] => (.ok [], raw)
  | b :: rest =>
    if b = delimiter then
      match Str.ofUtf8 raw with
      | none => (.error "line is not valid UTF-8", rest)
      | some text =>
        match drain [] rest with
        | (.ok lines, left) => (.ok (keep (stripCR text) lines), left)
        | (.error e, left) => (.error e, left)
    else drain (raw ++ [b]) rest

/-- Add received bytes; return whatever complete lines that produced. -/
def feed (b : LineBuffer) (chunk : List UInt8) : Except Str (List Str) × LineBuffer :=
  match drain [] (b.buffer ++ chunk) with
  | (.error e, left) => (.error e, { b with buffer := left })
  | (.ok lines, left) =>
    if b.maxLineBytes < left.length then
      (.error (Str.ofString "line exceeded " ++ Str.ofInt b.maxLineBytes ++
        Str.ofString " bytes without a newline"), { b with buffer := [] })
    else (.ok lines, { b with buffer := left })

end LineBuffer

end Ciphertext
