import Ciphertext.Py.Str

/-!
# UTF-8

`str.encode("utf-8")` and `bytes.decode("utf-8")`, through the encoder and the
strict decoder of Lean's own strings. What is added here is that a Python string
may hold surrogates, which have no encoding, and the two facts framing rests on:
decoding inverts encoding, and no byte of a multi-byte character looks like an
ASCII one.

`ofUtf8_utf8` and `mem_utf8` are these two. The encoder is total here: what it gives for a
surrogate is never used, since whoever encodes asks `Str.encodable` first, as Python raises
`UnicodeEncodeError` there.
-/

namespace Ciphertext

namespace Str

/-- The character of a code point that is not a surrogate. -/
def toChar (c : CodePoint) : Char := Char.ofNat c.val

/-- `s.encode("utf-8")`, for a string that has an encoding. -/
def utf8 (s : Str) : List UInt8 := s.flatMap fun c => String.utf8EncodeChar (toChar c)

/-- `raw.decode("utf-8")`, `none` where it raises. -/
def ofUtf8 (raw : List UInt8) : Option Str :=
  raw.toByteArray.utf8Decode?.map fun cs => cs.toList.map fun c => Fin.ofNat 0x110000 c.toNat

@[simp] theorem utf8_nil : utf8 [] = [] := rfl

@[simp] theorem utf8_append (s t : Str) : utf8 (s ++ t) = utf8 s ++ utf8 t :=
  List.flatMap_append

theorem toNat_toChar {c : CodePoint} (h : isSurrogate c = false) : (toChar c).toNat = c.val := by
  have hvalid : c.val.isValidChar := by
    have hlt := c.isLt
    simp only [isSurrogate, Bool.and_eq_false_iff, decide_eq_false_iff_not] at h
    unfold Nat.isValidChar
    omega
  rw [toChar, Char.ofNat, dif_pos hvalid]
  rfl

/-- A string without surrogates is read back as it was written. -/
theorem ofUtf8_utf8 {s : Str} (h : s.encodable = true) : ofUtf8 s.utf8 = some s := by
  have hbytes : s.utf8.toByteArray = (s.map toChar).utf8Encode := by
    unfold utf8 List.utf8Encode
    rw [List.flatMap_map]
  have hread : s.map ((fun c : Char => Fin.ofNat 0x110000 c.toNat) ∘ toChar) = s.map id := by
    refine List.map_congr_left fun c hc => ?_
    have hplain : isSurrogate c = false := by simpa using List.all_eq_true.mp h c hc
    show Fin.ofNat 0x110000 (toChar c).toNat = c
    rw [toNat_toChar hplain]
    exact Fin.ofNat_val_eq_self c
  rw [ofUtf8, hbytes, List.utf8Decode?_utf8Encode, Option.map_some, List.toList_toArray,
    List.map_map, hread, List.map_id]

/-- A byte of a character's encoding is the character itself, or is not ASCII. -/
theorem mem_utf8EncodeChar {c : CodePoint} (h : isSurrogate c = false) {b : UInt8}
    (hb : b ∈ String.utf8EncodeChar (toChar c)) : b.toNat = c.val ∨ 0x80 ≤ b.toNat := by
  have hval : (toChar c).val.toNat = c.val := toNat_toChar h
  unfold String.utf8EncodeChar at hb
  simp only [hval] at hb
  split at hb
  · left
    rw [List.mem_singleton.mp hb, UInt8.toNat_ofNat']
    omega
  · right
    split at hb
    · simp only [List.mem_cons, List.not_mem_nil, or_false] at hb
      rcases hb with rfl | rfl <;> rw [UInt8.toNat_ofNat'] <;> omega
    · split at hb
      · simp only [List.mem_cons, List.not_mem_nil, or_false] at hb
        rcases hb with rfl | rfl | rfl <;> rw [UInt8.toNat_ofNat'] <;> omega
      · simp only [List.mem_cons, List.not_mem_nil, or_false] at hb
        rcases hb with rfl | rfl | rfl | rfl <;> rw [UInt8.toNat_ofNat'] <;> omega

/-- An ASCII byte of an encoding is an ASCII character of the string. -/
theorem mem_utf8 {s : Str} (h : s.encodable = true) {b : UInt8} (hb : b ∈ s.utf8)
    (hascii : b.toNat < 0x80) : ∃ c ∈ s, c.val = b.toNat := by
  obtain ⟨c, hc, hbc⟩ := List.mem_flatMap.mp hb
  have hplain : isSurrogate c = false := by simpa using List.all_eq_true.mp h c hc
  rcases mem_utf8EncodeChar hplain hbc with heq | hge
  · exact ⟨c, hc, heq.symm⟩
  · omega

end Str

end Ciphertext
