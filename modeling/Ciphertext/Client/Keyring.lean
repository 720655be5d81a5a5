import Ciphertext.Prog.Stateful
import Ciphertext.Py.Dict
import Ciphertext.Py.Json

/-!
# `Keyring` — whose keys a client holds

The model of `im/crypto/keyring.py`. What the `cryptography` package computes is
the class `Crypto`: the public half of an identity, the key shared with somebody,
encrypting and opening. `os.urandom` is a supply of nonces, and the keyring counts
how many it has drawn.

Sealing draws the nonce first and encodes the text and the sender's name after it. A
lone surrogate in either has no encoding: `Crypto.seal'` raises, the nonce is gone, and
nobody on the way up to the frame or the gesture catches it.

A user is a `str` wherever the code builds one, but `open` and `knows` are also
asked about the sender field of a frame, which is whatever the server sent:
`_key` and `knows` take a JSON value.
-/

namespace Ciphertext

/-- A private key, and a key for AES-GCM. -/
abbrev Identity := List UInt8
abbrev Key := List UInt8

/-- What came of opening a ciphertext. -/
inductive Opened where
  | plaintext (text : Str)
  | failed
  | raised (e : PyErr)

/-- The `cryptography` package and the encodings around it. -/
class Crypto where
  publicB64 : Identity → Str
  /-- `key_for`, which raises on a public key that is not one -/
  keyFor : Identity → Str → Except PyErr Key
  /-- What `AESGCM(key).encrypt` makes of a text and a name in UTF-8, with the nonce, in base64 -/
  encrypt : Key → Str → Str → List UInt8 → Str × Str
  /-- `open_` -/
  open' : Key → Json → Json → Json → Opened

/-- `envelope.seal`, with the nonce it has drawn. Both the text and the name are encoded. -/
def Crypto.seal' [Crypto] (key : Key) (plaintext associated : Str) (nonce : List UInt8) : Except PyErr (Str × Str) :=
  if plaintext.encodable && associated.encodable then .ok (Crypto.encrypt key plaintext associated nonce)
  else .error .unicodeEncodeError

section Sealing

variable [Crypto] {plaintext associated : Str} (key : Key) (nonce : List UInt8)

theorem Crypto.seal_ok (hp : plaintext.encodable = true) (ha : associated.encodable = true) :
    Crypto.seal' key plaintext associated nonce = .ok (Crypto.encrypt key plaintext associated nonce) := by
  rw [Crypto.seal', hp, ha]
  rfl

theorem Crypto.seal_error (h : ¬ (plaintext.encodable = true ∧ associated.encodable = true)) :
    Crypto.seal' key plaintext associated nonce = .error .unicodeEncodeError := by
  unfold Crypto.seal'
  rw [if_neg]
  simpa using h

theorem Crypto.seal_eq_ok {key : Key} {nonce : List UInt8} {sealed : Str × Str}
    (h : Crypto.seal' key plaintext associated nonce = .ok sealed) :
    (plaintext.encodable = true ∧ associated.encodable = true) ∧ sealed = Crypto.encrypt key plaintext associated nonce := by
  by_cases hs : plaintext.encodable = true ∧ associated.encodable = true
  · rw [Crypto.seal_ok key nonce hs.1 hs.2] at h
    exact ⟨hs, (Except.ok.inj h).symm⟩
  · rw [Crypto.seal_error key nonce hs] at h
    cases h

end Sealing

/-- What is sealed of this text by this sender opens to it, under the same key and nonce. -/
def Crypto.RoundTrip [Crypto] (text sender : Str) : Prop :=
  ∀ key nonce sealed, Crypto.seal' key text sender nonce = .ok sealed →
    Crypto.open' key (.str sealed.1) (.str sealed.2) (.str sender) = .plaintext text

/-- What the client's own code raises, and `NotConnected`. -/
inductive ClientErr where
  | py (e : PyErr)
  | notConnected
deriving DecidableEq

/-- A list, a `dict` or a JSON value that holds one cannot be a key. -/
def Json.hashable : Json → Bool
  | .list _ => false
  | .dict _ => false
  | _ => true

structure Keyring where
  identity : Identity
  me : Str := []
  pubkeys : List (Str × Str) := []
  derived : List (Str × Key) := []
  urandom : Nat → List UInt8
  drawn : Nat := 0

namespace Keyring

/-- `remember`: a changed key invalidates the derived one. -/
def remember (k : Keyring) (user pubkey : Str) : Keyring :=
  if PyDict.get k.pubkeys user = some pubkey then k
  else
    { k with pubkeys := PyDict.insert k.pubkeys user pubkey, derived := PyDict.erase k.derived user }

/-- `forget`. -/
def forget (k : Keyring) (user : Str) : Keyring :=
  { k with pubkeys := PyDict.erase k.pubkeys user, derived := PyDict.erase k.derived user }

/-- `knows`. -/
def knows (k : Keyring) (user : Str) : Bool := PyDict.has k.pubkeys user

/-- `knows`, asked about any JSON value. -/
def knowsAny (k : Keyring) (user : Json) : Except ClientErr Bool :=
  match user with
  | .str u => .ok (k.knows u)
  | v => if v.hashable then .ok false else .error (.py .typeError)

/-- `missing_keys`. -/
def missingKeys (k : Keyring) (members : List Str) : List Str :=
  Str.sorted (members.dedup.filter fun name => !k.knows name)

variable [Crypto]

/-- `_self_key`. -/
def selfKey (k : Keyring) : Keyring :=
  { k with pubkeys := PyDict.setDefault k.pubkeys k.me (Crypto.publicB64 k.identity) }

/-- What a keyring method does. -/
abbrev KeyringM := Act Keyring ClientErr

def raisePy {σ α : Type} (e : PyErr) : Act σ ClientErr α := throw (.py e)

/-- `if user and user == self._me: self._self_key()`. -/
def adopt (user : Str) (k : Keyring) : Keyring :=
  if !user.isEmpty && user = k.me then k.selfKey else k

/-- `_key`: the key shared with a user, derived the first time. -/
def key (user : Str) : KeyringM (Option Key) := do
  modify (adopt user)
  let k ← get
  match PyDict.get k.derived user with
  | some derived => return some derived
  | none =>
    match PyDict.get k.pubkeys user with
    | none => return none
    | some pubkey =>
      match Crypto.keyFor k.identity pubkey with
      | .error e => raisePy e
      | .ok derived =>
        modify fun k => { k with derived := PyDict.insert k.derived user derived }
        return some derived

/-- `envelope.seal`, with a fresh nonce. -/
def sealWith (key : Key) (plaintext sender : Str) : KeyringM (Str × Str) := do
  let k ← get
  set { k with drawn := k.drawn + 1 }
  match Crypto.seal' key plaintext sender (k.urandom k.drawn) with
  | .ok sealed => return sealed
  | .error e => raisePy e

/-- `seal`: encrypt for one person, `none` if their key is not held yet. -/
def seal' (user plaintext sender : Str) : KeyringM (Option (Str × Str)) := do
  match ← key user with
  | none => return none
  | some key => return some (← sealWith key plaintext sender)

/-- `any(self._key(name) is None for name in everyone)`, which stops at the
first. -/
def anyUnknown : List Str → KeyringM Bool
  | [] => return false
  | name :: names => do
    match ← key name with
    | none => return true
    | some _ => anyUnknown names

/-- The dictionary `seal_for_members` returns, name by name. -/
def sealEach (plaintext sender : Str) : List Str → KeyringM (List (Str × Str × Str))
  | [] => return []
  | name :: names => do
    match ← seal' name plaintext sender with
    | none => raisePy .typeError
    | some sealed =>
      let rest ← sealEach plaintext sender names
      return (name, sealed) :: rest

/-- `seal_for_members`: once per member and once for the sender, all or nothing. -/
def sealForMembers (members : List Str) (plaintext sender : Str) :
    KeyringM (Option (List (Str × Str × Str))) := do
  modify fun k => ({ k with me := sender } : Keyring).selfKey
  let everyone := Str.sorted (sender :: members).dedup
  if ← anyUnknown everyone then return none
  return some (← sealEach plaintext sender everyone)

/-- `open`, asked about any JSON value. `none` is `DecryptionFailed`. -/
def open' (user : Json) (ciphertext nonce sender : Json) : KeyringM (Option Str) := do
  let held ← match user with
    | .str u => key u
    | v => if v.hashable then pure none else raisePy .typeError
  match held with
  | none => return none
  | some key =>
    match Crypto.open' key ciphertext nonce sender with
    | .plaintext text => return some text
    | .failed => return none
    | .raised e => raisePy e

/-! ### Method by method -/

open Act

/-- The nonce is drawn, and what cannot be encoded raises after it. -/
theorem exec_sealWith (key : Key) (plaintext sender : Str) (k : Keyring) :
    exec (sealWith key plaintext sender) k =
      ((Crypto.seal' key plaintext sender (k.urandom k.drawn)).mapError .py, { k with drawn := k.drawn + 1 }) := by
  show exec (match Crypto.seal' key plaintext sender (k.urandom k.drawn) with
    | .ok sealed => pure sealed
    | .error e => raisePy e) { k with drawn := k.drawn + 1 } = _
  cases Crypto.seal' key plaintext sender (k.urandom k.drawn) with
  | ok sealed => rfl
  | error e => rfl

/-- A preorder on keyrings that deriving a key and drawing a nonce keep. The methods
that seal and open do nothing else to a keyring. -/
structure Stepwise (R : Keyring → Keyring → Prop) : Prop where
  refl : ∀ k, R k k
  trans : ∀ k₁ k₂ k₃, R k₁ k₂ → R k₂ k₃ → R k₁ k₃
  key : ∀ user, Steps R (key user)
  drawn : ∀ k, R k { k with drawn := k.drawn + 1 }

namespace Stepwise

variable {R : Keyring → Keyring → Prop} (h : Stepwise R)

include h

theorem sealWith (key : Key) (text sender : Str) : Steps R (sealWith key text sender) := by
  intro k
  rw [exec_sealWith]
  exact h.drawn k

theorem seal' (user text sender : Str) : Steps R (seal' user text sender) := by
  refine Steps.bind h.trans (h.key user) fun held => ?_
  cases held with
  | none => exact steps_pure h.refl _
  | some key => exact Steps.bind h.trans (h.sealWith key text sender) fun _ => steps_pure h.refl _

theorem anyUnknown (names : List Str) : Steps R (anyUnknown names) := by
  induction names with
  | nil => exact steps_pure h.refl _
  | cons name names ih =>
    refine Steps.bind h.trans (h.key name) fun held => ?_
    cases held with
    | none => exact steps_pure h.refl _
    | some key => exact ih

theorem sealEach (text sender : Str) (names : List Str) : Steps R (sealEach text sender names) := by
  induction names with
  | nil => exact steps_pure h.refl _
  | cons name names ih =>
    refine Steps.bind h.trans (h.seal' name text sender) fun sealed => ?_
    cases sealed with
    | none => exact steps_throw h.refl _
    | some sealed => exact Steps.bind h.trans ih fun _ => steps_pure h.refl _

/-- Whoever is asked about: a name, another key of a `dict`, or a value that cannot be one. -/
theorem open' (user ciphertext nonce sender : Json) : Steps R (open' user ciphertext nonce sender) := by
  have hraise : ∀ {α : Type} (e : PyErr), Steps R (raisePy e : KeyringM α) := fun _ => steps_throw h.refl _
  unfold Keyring.open'
  split
  · refine Steps.bind h.trans (h.key _) fun held => ?_
    cases held with
    | none => exact steps_pure h.refl _
    | some key =>
      dsimp only
      split
      · exact steps_pure h.refl _
      · exact steps_pure h.refl _
      · exact hraise _
  · split
    · exact steps_pure h.refl _
    · exact hraise _

/-- Sealing for a room, from where the sender's own name and key are noted. -/
theorem sealForMembers (members : List Str) (text sender : Str) (k : Keyring) :
    R ({ k with me := sender } : Keyring).selfKey (exec (sealForMembers members text sender) k).2 := by
  unfold Keyring.sealForMembers
  rw [exec_bind, exec_modify]
  dsimp only
  refine steps_bind_at h.trans (h.anyUnknown _ _) fun unknown => ?_
  refine steps_ite (steps_pure h.refl _) ?_
  exact Steps.bind h.trans (h.sealEach text sender _) fun _ => steps_pure h.refl _

end Stepwise

end Keyring

end Ciphertext
