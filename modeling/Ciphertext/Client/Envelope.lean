import Ciphertext.Py.Utf8
import Ciphertext.Client.Keyring

/-!
# `envelope` and `identity` — what `key_for`, `seal` and `open_` are made of

The model of `im/crypto/envelope.py` and of the methods of `Identity` it calls. The
class `Primitives` is the `cryptography` package; around it stand base64, ASCII and
UTF-8, each of which can fail in its own way. `open_` turns the failures inside its
`try` into `DecryptionFailed`; decoding the plaintext stands after it.

`unb64_b64` and `open_seal` are the round trips: base64 is undone, and what `seal` returned
is opened to the text under the same key and name, whatever cipher there is below that
decrypts what it has encrypted. `seal` returns only for a text and a name that have a UTF-8
encoding; for others it raises `UnicodeEncodeError`, uncaught. `envelopeCrypto` puts the
module in the place that the keyring leaves for it (`Crypto`), and
`envelopeCrypto_roundTrip` shows that it does what is assumed of that place.
-/

namespace Ciphertext

/-- What the `cryptography` package computes. -/
class Primitives where
  /-- `private.public_key().public_bytes(Raw, Raw)` -/
  publicBytes : Identity → List UInt8
  /-- `from_public_bytes` and `private.exchange`; `none` is a `ValueError` -/
  exchange : Identity → List UInt8 → Option (List UInt8)
  /-- `HKDF(SHA256, 32, salt=None, info).derive` -/
  hkdf : List UInt8 → List UInt8 → Key
  /-- `AESGCM(key).encrypt(nonce, data, associated)` -/
  encrypt : Key → List UInt8 → List UInt8 → List UInt8 → List UInt8
  /-- `AESGCM(key).decrypt(nonce, data, associated)`; `none` is `InvalidTag`, or a
  `ValueError` for the length of the nonce -/
  decrypt : Key → List UInt8 → List UInt8 → List UInt8 → Option (List UInt8)

namespace Envelope

/-! ## base64 -/

/-- The characters of base64, by value. -/
def alphabet : Str := "ABCDEFGHIJKLMNOPQRSTUVWXYZabcdefghijklmnopqrstuvwxyz0123456789+/"

def letter (n : Nat) : CodePoint := alphabet.getD n 0

/-- `b64`: three bytes in four characters. -/
def b64 : List UInt8 → Str
  | [] => []
  | [a] => [letter (a.toNat / 4), letter (a.toNat % 4 * 16), 61, 61]
  | [a, b] => [letter (a.toNat / 4), letter (a.toNat % 4 * 16 + b.toNat / 16), letter (b.toNat % 16 * 4), 61]
  | a :: b :: c :: rest =>
    letter (a.toNat / 4) :: letter (a.toNat % 4 * 16 + b.toNat / 16) ::
      letter (b.toNat % 16 * 4 + c.toNat / 64) :: letter (c.toNat % 64) :: b64 rest

/-- The value of a character, `none` outside the alphabet. -/
def sextet (c : CodePoint) : Option Nat :=
  if 65 ≤ c.val ∧ c.val ≤ 90 then some (c.val - 65)
  else if 97 ≤ c.val ∧ c.val ≤ 122 then some (c.val - 71)
  else if 48 ≤ c.val ∧ c.val ≤ 57 then some (c.val + 4)
  else if c.val = 43 then some 62
  else if c.val = 47 then some 63
  else none

/-- `binascii.a2b_base64`, with its place in the group of four, the bits left over and
the paddings seen. Characters outside the alphabet are skipped, and a group that has
been padded is the last one. -/
def decode : List CodePoint → Nat → Nat → Nat → Option (List UInt8)
  | [], place, _, _ => if place = 0 then some [] else none
  | c :: cs, place, left, pads =>
    if c.val = 61 then
      if 2 ≤ place then
        if 4 ≤ place + (pads + 1) then some [] else decode cs place left (pads + 1)
      else decode cs place left pads
    else
      match sextet c with
      | none => decode cs place left pads
      | some v =>
        match place with
        | 0 => decode cs 1 v 0
        | 1 => (decode cs 2 (v % 16) 0).map (UInt8.ofNat (left * 4 + v / 16) :: ·)
        | 2 => (decode cs 3 (v % 4) 0).map (UInt8.ofNat (left * 16 + v / 4) :: ·)
        | _ => (decode cs 0 0 0).map (UInt8.ofNat (left * 64 + v) :: ·)

/-- `unb64`; `none` is a `ValueError`, of the ASCII codec or of base64. -/
def unb64 (text : Str) : Option (List UInt8) :=
  if text.all fun c => c.val < 128 then decode text 0 0 0 else none

/-- Every value has its character. -/
theorem letter_spec : ∀ n : Fin 64, sextet (letter n) = some n.val ∧ (letter n).val < 128 ∧ (letter n).val ≠ 61 := by
  decide +kernel

section Letters

variable {n : Nat} (h : n < 64) (cs : List CodePoint) (left pads : Nat)
include h

theorem decode_first : decode (letter n :: cs) 0 left pads = decode cs 1 n 0 := by
  obtain ⟨hvalue, -, hne⟩ := letter_spec ⟨n, h⟩
  rw [decode, if_neg hne, hvalue]
  rfl

theorem decode_second :
    decode (letter n :: cs) 1 left pads = (decode cs 2 (n % 16) 0).map (UInt8.ofNat (left * 4 + n / 16) :: ·) := by
  obtain ⟨hvalue, -, hne⟩ := letter_spec ⟨n, h⟩
  rw [decode, if_neg hne, hvalue]
  rfl

theorem decode_third :
    decode (letter n :: cs) 2 left pads = (decode cs 3 (n % 4) 0).map (UInt8.ofNat (left * 16 + n / 4) :: ·) := by
  obtain ⟨hvalue, -, hne⟩ := letter_spec ⟨n, h⟩
  rw [decode, if_neg hne, hvalue]
  rfl

theorem decode_fourth :
    decode (letter n :: cs) 3 left pads = (decode cs 0 0 0).map (UInt8.ofNat (left * 64 + n) :: ·) := by
  obtain ⟨hvalue, -, hne⟩ := letter_spec ⟨n, h⟩
  rw [decode, if_neg hne, hvalue]
  rfl

end Letters

/-- The numbers that the characters of a byte stand for put it together again. -/
theorem ofNat_of_eq {b : UInt8} {n : Nat} (h : n = b.toNat) : UInt8.ofNat n = b := by
  rw [h, UInt8.ofNat_toNat]

theorem decode_b64 (raw : List UInt8) : decode (b64 raw) 0 0 0 = some raw := by
  induction raw using b64.induct with
  | case1 => rfl
  | case2 a =>
    have ha := a.toNat_lt
    rw [b64, decode_first (by omega), decode_second (by omega)]
    exact congrArg (fun b => some [b]) (ofNat_of_eq (by omega))
  | case3 a b =>
    have ha := a.toNat_lt
    have hb := b.toNat_lt
    have hfirst : UInt8.ofNat (a.toNat / 4 * 4 + (a.toNat % 4 * 16 + b.toNat / 16) / 16) = a := ofNat_of_eq (by omega)
    have hsecond : UInt8.ofNat ((a.toNat % 4 * 16 + b.toNat / 16) % 16 * 16 + b.toNat % 16 * 4 / 4) = b :=
      ofNat_of_eq (by omega)
    rw [b64, decode_first (by omega), decode_second (by omega), decode_third (by omega), hfirst, hsecond]
    rfl
  | case4 a b c rest ih =>
    have ha := a.toNat_lt
    have hb := b.toNat_lt
    have hc := c.toNat_lt
    have hfirst : UInt8.ofNat (a.toNat / 4 * 4 + (a.toNat % 4 * 16 + b.toNat / 16) / 16) = a := ofNat_of_eq (by omega)
    have hsecond : UInt8.ofNat ((a.toNat % 4 * 16 + b.toNat / 16) % 16 * 16 +
        (b.toNat % 16 * 4 + c.toNat / 64) / 4) = b := ofNat_of_eq (by omega)
    have hthird : UInt8.ofNat ((b.toNat % 16 * 4 + c.toNat / 64) % 4 * 64 + c.toNat % 64) = c :=
      ofNat_of_eq (by omega)
    rw [b64, decode_first (by omega), decode_second (by omega), decode_third (by omega), decode_fourth (by omega),
      hfirst, hsecond, hthird, ih]
    rfl

theorem ascii_b64 (raw : List UInt8) : ∀ c ∈ b64 raw, c.val < 128 := by
  have hletter : ∀ {n}, n < 64 → (letter n).val < 128 := fun h => (letter_spec ⟨_, h⟩).2.1
  induction raw using b64.induct with
  | case1 => exact nofun
  | case2 a =>
    have ha := a.toNat_lt
    simp only [b64, List.forall_mem_cons]
    exact ⟨hletter (by omega), hletter (by omega), by decide, by decide, nofun⟩
  | case3 a b =>
    have ha := a.toNat_lt
    have hb := b.toNat_lt
    simp only [b64, List.forall_mem_cons]
    exact ⟨hletter (by omega), hletter (by omega), hletter (by omega), by decide, nofun⟩
  | case4 a b c rest ih =>
    have ha := a.toNat_lt
    have hb := b.toNat_lt
    have hc := c.toNat_lt
    simp only [b64, List.forall_mem_cons]
    exact ⟨hletter (by omega), hletter (by omega), hletter (by omega), hletter (by omega), ih⟩

/-- **base64** is read back as it was written. -/
theorem unb64_b64 (raw : List UInt8) : unb64 (b64 raw) = some raw := by
  rw [unb64, if_pos (List.all_eq_true.mpr fun c hc => decide_eq_true (ascii_b64 raw c hc)), decode_b64]

variable [Primitives]

/-! ## Keys -/

/-- `INFO`. -/
def info : List UInt8 := Str.utf8 "semaphore/v1/message"

/-- `derive_key`. -/
def deriveKey (sharedSecret : List UInt8) : Key := Primitives.hkdf sharedSecret info

/-- `Identity.public_b64`. -/
def publicB64 (identity : Identity) : Str := b64 (Primitives.publicBytes identity)

/-- `Identity.exchange`. -/
def exchange (identity : Identity) (peerPublicB64 : Str) : Except PyErr (List UInt8) :=
  match (unb64 peerPublicB64).bind (Primitives.exchange identity) with
  | some sharedSecret => .ok sharedSecret
  | none => .error .valueError

/-- `key_for`. -/
def keyFor (identity : Identity) (peerPublicB64 : Str) : Except PyErr Key :=
  (exchange identity peerPublicB64).map deriveKey

/-! ## Messages -/

/-- What comes of a text and a name that have an encoding. -/
def encrypted (key : Key) (plaintext associated : Str) (nonce : List UInt8) : Str × Str :=
  (b64 (Primitives.encrypt key nonce plaintext.utf8 associated.utf8), b64 nonce)

/-- `str.encode("utf-8")`. -/
def encoded (text : Str) : Except PyErr (List UInt8) :=
  if text.encodable then .ok text.utf8 else .error .unicodeEncodeError

/-- `seal`, with the nonce it has drawn. -/
def seal' (key : Key) (plaintext associated : Str) (nonce : List UInt8) : Except PyErr (Str × Str) := do
  let data ← encoded plaintext
  let name ← encoded associated
  return (b64 (Primitives.encrypt key nonce data name), b64 nonce)

/-- The bytes that were sealed, `none` where one of the exceptions is caught. -/
def authenticated (key : Key) (ciphertext nonce associated : Str) : Option (List UInt8) := do
  let nonce ← unb64 nonce
  let data ← unb64 ciphertext
  if associated.encodable then Primitives.decrypt key nonce data associated.utf8 else none

/-- `plaintext.decode("utf-8")`, outside the `try`: a `UnicodeDecodeError` is a
`ValueError` nobody catches. -/
def decoded (bytes : List UInt8) : Opened :=
  match Str.ofUtf8 bytes with
  | some text => .plaintext text
  | none => .raised .valueError

/-- `open_`. What is no string has no `encode`, and `AttributeError` is not caught; the
arguments are looked at in this order. -/
def open' (key : Key) (ciphertext nonce associated : Json) : Opened :=
  match nonce with
  | .str n =>
    match unb64 n with
    | none => .failed
    | some _ =>
      match ciphertext with
      | .str c =>
        match unb64 c with
        | none => .failed
        | some _ =>
          match associated with
          | .str a => (authenticated key c n a).elim .failed decoded
          | _ => .raised .attributeError
      | _ => .raised .attributeError
  | _ => .raised .attributeError

theorem open_str (key : Key) (c n a : Str) :
    open' key (.str c) (.str n) (.str a) = (authenticated key c n a).elim .failed decoded := by
  unfold open' authenticated
  dsimp only
  cases unb64 n with
  | none => rfl
  | some nonce =>
    cases unb64 c with
    | none => rfl
    | some data => rfl

/-- **What was sealed opens**, if the cipher returns what it was given. -/
theorem open_seal (hcipher : ∀ key nonce data associated,
      Primitives.decrypt key nonce (Primitives.encrypt key nonce data associated) associated = some data)
    {key : Key} {text sender : Str} {nonce : List UInt8} {sealed : Str × Str}
    (h : seal' key text sender nonce = .ok sealed) :
    open' key (.str sealed.1) (.str sealed.2) (.str sender) = .plaintext text := by
  unfold seal' encoded at h
  by_cases ht : text.encodable = true
  case neg =>
    rw [if_neg ht] at h
    cases h
  by_cases hs : sender.encodable = true
  case neg =>
    rw [if_pos ht, if_neg hs] at h
    cases h
  rw [if_pos ht, if_pos hs] at h
  obtain rfl := Except.ok.inj h
  have hbytes : authenticated key (b64 (Primitives.encrypt key nonce text.utf8 sender.utf8)) (b64 nonce) sender =
      some text.utf8 := by
    unfold authenticated
    rw [unb64_b64, unb64_b64]
    dsimp only [Option.bind_eq_bind, Option.bind]
    rw [if_pos hs, hcipher]
  rw [open_str, hbytes]
  show decoded text.utf8 = _
  rw [decoded, Str.ofUtf8_utf8 ht]

end Envelope

/-- `Crypto`, as these modules make it. -/
instance envelopeCrypto [Primitives] : Crypto where
  publicB64 := Envelope.publicB64
  keyFor := Envelope.keyFor
  encrypt := Envelope.encrypted
  open' := Envelope.open'

/-- Sealing with it is `seal`. -/
theorem envelopeCrypto_seal [Primitives] (key : Key) (plaintext associated : Str) (nonce : List UInt8) :
    Crypto.seal' key plaintext associated nonce = Envelope.seal' key plaintext associated nonce := by
  unfold Crypto.seal' Envelope.seal' Envelope.encoded
  by_cases hp : plaintext.encodable = true
  · by_cases ha : associated.encodable = true
    · rw [if_pos hp, if_pos ha, hp, ha]
      rfl
    · rw [if_pos hp, if_neg ha, if_neg (by simp [ha])]
      rfl
  · rw [if_neg hp, if_neg (by simp [hp])]
    rfl

/-- A cipher that returns what it was given is all that a round trip takes. -/
theorem envelopeCrypto_roundTrip [Primitives] (hcipher : ∀ key nonce data associated,
      Primitives.decrypt key nonce (Primitives.encrypt key nonce data associated) associated = some data)
    (text sender : Str) : Crypto.RoundTrip text sender := by
  intro key nonce sealed hsealed
  rw [envelopeCrypto_seal] at hsealed
  exact Envelope.open_seal hcipher hsealed

end Ciphertext
