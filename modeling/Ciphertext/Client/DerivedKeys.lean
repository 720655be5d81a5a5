import Ciphertext.Client.Opening

/-!
# The keys a keyring has derived

`_derived` caches what `key_for` makes of the public keys in `_pubkeys`. Five
methods touch the two maps, and a key that was replaced or forgotten must not be
used again. `Fresh` says that the cache agrees with the public keys. The methods
that derive keys keep it and add no public key but the keyring's own
(`Refreshed`); `remember` and `forget` keep it because they drop what was derived.

`Current` follows a whole sequence of calls: the public key held for a name is
the one last remembered, or the keyring's own if there is none.

The public key that counts is read off the calls alone (`lastRemembered`), and
`Current.keyFor` says that the key `_key` finds is derived from it. So after any calls
on a new keyring, also those that raise, whatever is sealed or opened under a key is so
under that of the public key last remembered for the name and not since forgotten
(`applyAll_keys`). Which key that is does not depend on whether `seal` then raises at
the text.
-/

namespace Ciphertext

open Act

/-- What the keyring returns or raises for what came of opening. -/
def Opened.result : Opened → Except ClientErr (Option Str)
  | .plaintext text => .ok (some text)
  | .failed => .ok none
  | .raised e => .error (.py e)

namespace Keyring

variable [Crypto]

/-- What has been derived comes from the public keys. -/
def Fresh (k : Keyring) : Prop := ∀ user derived, PyDict.get k.derived user = some derived →
  ∃ pubkey, PyDict.get k.pubkeys user = some pubkey ∧ Crypto.keyFor k.identity pubkey = .ok derived

/-- A keyring before and after a method that derives keys: at most it holds its own
public key under its own name as well. -/
structure Refreshed (k k' : Keyring) : Prop where
  identity : k'.identity = k.identity
  me : k'.me = k.me
  pubkeys : ∀ user, PyDict.get k'.pubkeys user = PyDict.get k.pubkeys user ∨
    (user ≠ [] ∧ user = k.me) ∧ PyDict.get k.pubkeys user = none ∧
      PyDict.get k'.pubkeys user = some (Crypto.publicB64 k.identity)
  fresh : k'.Fresh

theorem Refreshed.refl {k : Keyring} (h : k.Fresh) : k.Refreshed k := ⟨rfl, rfl, fun _ => .inl rfl, h⟩

theorem Refreshed.trans {k₁ k₂ k₃ : Keyring} (h : k₁.Refreshed k₂) (h' : k₂.Refreshed k₃) : k₁.Refreshed k₃ := by
  refine ⟨h'.identity.trans h.identity, h'.me.trans h.me, fun user => ?_, h'.fresh⟩
  have h₁ := h.pubkeys user
  have h₂ := h'.pubkeys user
  rw [h.identity, h.me] at h₂
  cases h₁ with
  | inl hsame =>
    rw [hsame] at h₂
    exact h₂
  | inr hown =>
    obtain ⟨hme, hnone, hown⟩ := hown
    cases h₂ with
    | inl hsame => exact .inr ⟨hme, hnone, hsame.trans hown⟩
    | inr hnot =>
      rw [hown] at hnot
      cases hnot.2.1

/-- Methods that keep the cache in order. -/
abbrev Lazily (k k' : Keyring) : Prop := k.Fresh → k.Refreshed k'

theorem Lazily.refl (k : Keyring) : Lazily k k := fun h => .refl h

theorem Lazily.trans (k₁ k₂ k₃ : Keyring) (h : Lazily k₁ k₂) (h' : Lazily k₂ k₃) : Lazily k₁ k₃ :=
  fun hf => (h hf).trans (h' (h hf).fresh)

/-- Taking over one's own key derives nothing that is stale. -/
theorem adopt_lazily (user : Str) (k : Keyring) : Lazily k (adopt user k) := by
  obtain ⟨hidentity, hme, hderived⟩ := adopt_rest user k
  intro hf
  refine ⟨hidentity, hme, fun v => ?_, fun v derived hd => ?_⟩
  · rw [get_adopt]
    by_cases hv : (user ≠ [] ∧ user = k.me) ∧ v = user
    · rw [if_pos hv]
      cases hp : PyDict.get k.pubkeys v with
      | none => exact .inr ⟨hv.2 ▸ hv.1, rfl, rfl⟩
      | some p => exact .inl rfl
    · rw [if_neg hv]
      exact .inl rfl
  · rw [hderived] at hd
    obtain ⟨pubkey, hp, hkey⟩ := hf v derived hd
    rw [hidentity, get_adopt, hp]
    refine ⟨pubkey, ?_, hkey⟩
    split
    · rfl
    · rfl

/-- The public key `_key` looks at. -/
def held (k : Keyring) (user : Str) : Option Str := PyDict.get (adopt user k).pubkeys user

/-- There is a public key under this name, or it is our own. -/
def Finds (k : Keyring) (user : Str) : Prop := k.knows user = true ∨ user ≠ [] ∧ user = k.me

/-- The key that is looked at was remembered for the name, or is the identity's under its
own name. -/
theorem held_cases {k : Keyring} {user pubkey : Str} (h : k.held user = some pubkey) :
    PyDict.get k.pubkeys user = some pubkey ∨ (user ≠ [] ∧ user = k.me) ∧ pubkey = Crypto.publicB64 k.identity := by
  unfold held at h
  rw [get_adopt] at h
  by_cases hme : (user ≠ [] ∧ user = k.me) ∧ user = user
  · rw [if_pos hme] at h
    cases hp : PyDict.get k.pubkeys user with
    | some p =>
      rw [hp] at h
      exact .inl h
    | none =>
      rw [hp] at h
      exact .inr ⟨hme.1, (Option.some.inj h).symm⟩
  · rw [if_neg hme] at h
    exact .inl h

/-- A key is found where one is looked at. -/
theorem finds_iff {k : Keyring} {user : Str} : k.Finds user ↔ (k.held user).isSome = true := by
  unfold Finds held knows PyDict.has
  rw [get_adopt]
  by_cases hme : (user ≠ [] ∧ user = k.me) ∧ user = user
  · rw [if_pos hme]
    exact iff_of_true (.inr hme.1) rfl
  · rw [if_neg hme]
    exact ⟨fun h => h.resolve_right fun hself => hme ⟨hself, rfl⟩, .inl⟩

/-- The key `_key` comes to is that of the public key it looks at. -/
theorem Fresh.keyOf_eq {k : Keyring} (h : k.Fresh) (user : Str) :
    k.keyOf user = match k.held user with
      | none => .ok none
      | some pubkey => match Crypto.keyFor k.identity pubkey with
        | .ok derived => .ok (some derived)
        | .error e => .error (.py e) := by
  unfold keyOf held
  cases hd : PyDict.get k.derived user with
  | none => rfl
  | some derived =>
    obtain ⟨pubkey, hp, hkey⟩ := h user derived hd
    have hadopted : PyDict.get (adopt user k).pubkeys user = some pubkey := by
      rw [get_adopt, hp]
      split
      · rfl
      · rfl
    rw [hadopted]
    dsimp only
    rw [hkey]

/-- Without a public key there is none to seal under. -/
theorem Fresh.keyOf_none {k : Keyring} (h : k.Fresh) {user : Str} (hno : ¬ k.Finds user) : k.keyOf user = .ok none := by
  rw [finds_iff, Bool.not_eq_true, Option.isSome_eq_false_iff, Option.isNone_iff_eq_none] at hno
  rw [h.keyOf_eq, hno]

/-- With one, it is the key derived from it, whether it has been derived before or not. -/
theorem Fresh.keyOf_finds {k : Keyring} (h : k.Fresh) {user : Str} (hf : k.Finds user) {derived : Key}
    (hkey : ∀ pubkey, k.held user = some pubkey → Crypto.keyFor k.identity pubkey = .ok derived) :
    k.keyOf user = .ok (some derived) := by
  obtain ⟨pubkey, hp⟩ := Option.isSome_iff_exists.mp (finds_iff.mp hf)
  rw [h.keyOf_eq, hp]
  dsimp only
  rw [hkey pubkey hp]

/-- `_key` derives at most the key it returns. -/
theorem key_lazily (user : Str) : Steps Lazily (key user) := by
  refine Steps.bind Lazily.trans (steps_modify (adopt_lazily user)) fun _ => steps_get fun k hf => ?_
  cases PyDict.get k.derived user with
  | some derived => exact .refl hf
  | none =>
    cases hp : PyDict.get k.pubkeys user with
    | none => exact .refl hf
    | some pubkey =>
      dsimp only
      cases hkey : Crypto.keyFor k.identity pubkey with
      | error e => exact .refl hf
      | ok derived =>
        refine ⟨rfl, rfl, fun _ => .inl rfl, fun u d hd => ?_⟩
        -- the entry that is new comes from the public key just looked up
        have hd : PyDict.get (PyDict.insert k.derived user derived) u = some d := hd
        by_cases hu : u = user
        · rw [hu, PyDict.get_insert_self] at hd
          obtain rfl := Option.some.inj hd
          exact ⟨pubkey, hu ▸ hp, hkey⟩
        · rw [PyDict.get_insert_ne _ _ hu] at hd
          exact hf u d hd

theorem lazily_stepwise : Stepwise Lazily :=
  ⟨Lazily.refl, Lazily.trans, key_lazily, fun _ hf => ⟨rfl, rfl, fun _ => .inl rfl, hf⟩⟩

/-- The keyring `seal_for_members` goes on with: under the sender's name it holds a
public key, the own one if there was none. -/
theorem get_selfKey (k : Keyring) (sender user : Str) :
    PyDict.get (({ k with me := sender } : Keyring).selfKey).pubkeys user =
      if user = sender then some ((PyDict.get k.pubkeys user).getD (Crypto.publicB64 k.identity))
      else PyDict.get k.pubkeys user := by
  show PyDict.get (PyDict.setDefault k.pubkeys sender (Crypto.publicB64 k.identity)) user = _
  unfold PyDict.setDefault
  by_cases hhas : PyDict.has k.pubkeys sender = true
  · rw [if_pos hhas]
    by_cases hu : user = sender
    · obtain ⟨p, hp⟩ := Option.isSome_iff_exists.mp hhas
      rw [if_pos hu, hu, hp]
      rfl
    · rw [if_neg hu]
  · rw [if_neg hhas]
    by_cases hu : user = sender
    · rw [if_pos hu, hu, PyDict.get_insert_self, Option.not_isSome_iff_eq_none.mp hhas]
      rfl
    · rw [if_neg hu, PyDict.get_insert_ne _ _ hu]

/-- With one's own name set, nothing that has been derived is stale. -/
theorem Fresh.selfKey {k : Keyring} (h : k.Fresh) (sender : Str) : ({ k with me := sender } : Keyring).selfKey.Fresh := by
  intro user derived hd
  obtain ⟨pubkey, hp, hkey⟩ := h user derived hd
  refine ⟨pubkey, ?_, hkey⟩
  rw [get_selfKey, hp]
  split
  · rfl
  · rfl

/-- Sealing for a room sets the own name, and derives keys after that. -/
theorem sealForMembers_refreshed {k : Keyring} (h : k.Fresh) (members : List Str) (text sender : Str) :
    ({ k with me := sender } : Keyring).selfKey.Refreshed (exec (sealForMembers members text sender) k).2 :=
  lazily_stepwise.sealForMembers members text sender k (h.selfKey sender)

/-! ## Sequences of calls -/

/-- A call on a keyring. -/
inductive KeyringCall where
  | remember (user pubkey : Str)
  | forget (user : Str)
  | seal' (user text sender : Str)
  | sealForMembers (members : List Str) (text sender : Str)
  | open' (user ciphertext nonce sender : Json)

/-- The keyring a call leaves, also when it raises. -/
def apply (k : Keyring) : KeyringCall → Keyring
  | .remember user pubkey => k.remember user pubkey
  | .forget user => k.forget user
  | .seal' user text sender => (exec (seal' user text sender) k).2
  | .sealForMembers members text sender => (exec (sealForMembers members text sender) k).2
  | .open' user ciphertext nonce sender => (exec (open' user ciphertext nonce sender) k).2

/-- The keyring after some calls, however they ended. -/
def applyAll (k : Keyring) (calls : List KeyringCall) : Keyring := calls.foldl apply k

omit [Crypto] in
/-- What a call makes of the public key remembered for a name. -/
def KeyringCall.note (user : Str) (known : Option Str) : KeyringCall → Option Str
  | .remember v pubkey => if v = user then some pubkey else known
  | .forget v => if v = user then none else known
  | _ => known

omit [Crypto] in
/-- The public key most recently remembered for a name and not since forgotten. -/
def lastRemembered (calls : List KeyringCall) (user : Str) : Option Str := calls.foldl (KeyringCall.note user) none

/-- A keyring of this identity that holds what was last remembered, and its own
public key at most besides. -/
structure Current (own : Identity) (known : Str → Option Str) (k : Keyring) : Prop where
  identity : k.identity = own
  fresh : k.Fresh
  remembered : ∀ user pubkey, known user = some pubkey → PyDict.get k.pubkeys user = some pubkey
  held : ∀ user pubkey, PyDict.get k.pubkeys user = some pubkey →
    pubkey = (known user).getD (Crypto.publicB64 own)

section Current

variable {own : Identity} {known : Str → Option Str} {k k' : Keyring}

/-- Deriving does not change which public keys are held. -/
theorem Current.refreshed (h : Current own known k) (hr : k.Refreshed k') : Current own known k' := by
  refine ⟨hr.identity.trans h.identity, hr.fresh, fun user pubkey hknown => ?_, fun user pubkey hget => ?_⟩
  · have hget := h.remembered user pubkey hknown
    cases hr.pubkeys user with
    | inl hsame => exact hsame.trans hget
    | inr hown =>
      rw [hget] at hown
      cases hown.2.1
  · cases hr.pubkeys user with
    | inl hsame => exact h.held user pubkey (hsame.symm.trans hget)
    | inr hown =>
      obtain ⟨-, hnone, hown⟩ := hown
      obtain rfl := Option.some.inj (hget.symm.trans hown)
      -- nothing was remembered for this name
      cases hknown : known user with
      | none => rw [h.identity]; rfl
      | some pubkey =>
        rw [h.remembered user pubkey hknown] at hnone
        cases hnone

/-- Neither does taking over one's own. -/
theorem Current.selfKey (h : Current own known k) (sender : Str) :
    Current own known ({ k with me := sender } : Keyring).selfKey := by
  refine ⟨h.identity, h.fresh.selfKey sender, fun user pubkey hknown => ?_, fun user pubkey hget => ?_⟩
  · rw [get_selfKey, h.remembered user pubkey hknown]
    split
    · rfl
    · rfl
  · rw [get_selfKey] at hget
    cases hp : PyDict.get k.pubkeys user with
    | some p =>
      have hsame : some p = some pubkey := by
        rw [hp] at hget
        split at hget
        · exact hget
        · exact hget
      obtain rfl := Option.some.inj hsame
      exact h.held user p hp
    | none =>
      rw [hp] at hget
      by_cases hu : user = sender
      · rw [if_pos hu] at hget
        cases hknown : known user with
        | none =>
          rw [← h.identity]
          exact (Option.some.inj hget).symm
        | some p =>
          rw [h.remembered user p hknown] at hp
          cases hp
      · rw [if_neg hu] at hget
        cases hget

omit [Crypto] in
/-- `remember` replaces the key of one name. -/
theorem get_remember (k : Keyring) (user pubkey v : Str) : PyDict.get (k.remember user pubkey).pubkeys v =
    if user = v then some pubkey else PyDict.get k.pubkeys v := by
  unfold Keyring.remember
  by_cases hsame : PyDict.get k.pubkeys user = some pubkey
  · rw [if_pos hsame]
    by_cases hv : user = v
    · rw [if_pos hv, ← hv, hsame]
    · rw [if_neg hv]
  · rw [if_neg hsame]
    by_cases hv : user = v
    · rw [if_pos hv, ← hv]
      exact PyDict.get_insert_self ..
    · rw [if_neg hv]
      exact PyDict.get_insert_ne _ _ fun h => hv h.symm

/-- A KEY frame makes its key the current one for the name it is about, -/
theorem Current.remember (h : Current own known k) (user pubkey : Str) :
    Current own (fun v => if user = v then some pubkey else known v) (k.remember user pubkey) := by
  have hget := get_remember k user pubkey
  have hid : (k.remember user pubkey).identity = k.identity := by
    unfold Keyring.remember
    split
    · rfl
    · rfl
  refine ⟨hid.trans h.identity, fun v derived hd => ?_, fun v p hknown => ?_, fun v p hheld => ?_⟩
  · rw [hid]
    -- what is still derived belongs to a name whose public key is the same
    have hstill : PyDict.get k.derived v = some derived ∧
        PyDict.get (k.remember user pubkey).pubkeys v = PyDict.get k.pubkeys v := by
      unfold Keyring.remember at hd ⊢
      by_cases hsame : PyDict.get k.pubkeys user = some pubkey
      · rw [if_pos hsame] at hd ⊢
        exact ⟨hd, rfl⟩
      · rw [if_neg hsame] at hd ⊢
        have hv : v ≠ user := by
          intro hv
          rw [hv, PyDict.get_erase_self] at hd
          cases hd
        exact ⟨(PyDict.get_erase_ne _ hv).symm.trans hd, PyDict.get_insert_ne _ _ hv⟩
    obtain ⟨p, hp, hkey⟩ := h.fresh v derived hstill.1
    exact ⟨p, hstill.2.trans hp, hkey⟩
  · rw [hget]
    by_cases hv : user = v
    · rw [if_pos hv] at hknown ⊢
      exact hknown
    · rw [if_neg hv] at hknown ⊢
      exact h.remembered v p hknown
  · rw [hget] at hheld
    by_cases hv : user = v
    · rw [if_pos hv] at hheld ⊢
      exact (Option.some.inj hheld).symm
    · rw [if_neg hv] at hheld ⊢
      exact h.held v p hheld

/-- and a refusal takes the name's key away. -/
theorem Current.forget (h : Current own known k) (user : Str) :
    Current own (fun v => if user = v then none else known v) (k.forget user) := by
  have hget : ∀ {ν : Type} (d : List (Str × ν)) (v : Str),
      PyDict.get (PyDict.erase d user) v = if user = v then none else PyDict.get d v := by
    intro ν d v
    by_cases hv : user = v
    · rw [if_pos hv, ← hv]
      exact PyDict.get_erase_self ..
    · rw [if_neg hv]
      exact PyDict.get_erase_ne _ fun h => hv h.symm
  refine ⟨h.identity, fun v derived hd => ?_, fun v p hknown => ?_, fun v p hheld => ?_⟩
  · have hd : PyDict.get (PyDict.erase k.derived user) v = some derived := hd
    rw [hget] at hd
    by_cases hv : user = v
    · rw [if_pos hv] at hd
      cases hd
    · rw [if_neg hv] at hd
      obtain ⟨p, hp, hkey⟩ := h.fresh v derived hd
      exact ⟨p, (hget _ v).trans ((if_neg hv).trans hp), hkey⟩
  · refine (hget _ v).trans ?_
    by_cases hv : user = v
    · rw [if_pos hv] at hknown
      cases hknown
    · rw [if_neg hv] at hknown ⊢
      exact h.remembered v p hknown
  · have hheld : PyDict.get (PyDict.erase k.pubkeys user) v = some p := hheld
    rw [hget] at hheld
    by_cases hv : user = v
    · rw [if_pos hv] at hheld
      cases hheld
    · rw [if_neg hv] at hheld ⊢
      exact h.held v p hheld

/-- One call. -/
theorem Current.apply (h : Current own known k) (c : KeyringCall) :
    Current own (fun user => c.note user (known user)) (k.apply c) := by
  cases c with
  | remember user pubkey => exact h.remember user pubkey
  | forget user => exact h.forget user
  | seal' user text sender => exact h.refreshed (lazily_stepwise.seal' user text sender k h.fresh)
  | sealForMembers members text sender =>
    exact (h.selfKey sender).refreshed (sealForMembers_refreshed h.fresh members text sender)
  | open' user ciphertext nonce sender => exact h.refreshed (lazily_stepwise.open' user ciphertext nonce sender k h.fresh)

/-- After any calls the current keys are those the calls have left. -/
theorem Current.applyAll (h : Current own known k) (calls : List KeyringCall) :
    Current own (fun user => calls.foldl (KeyringCall.note user) (known user)) (k.applyAll calls) := by
  induction calls generalizing k known with
  | nil => exact h
  | cons c calls ih => exact ih (h.apply c)

/-- **The key `_key` finds** is that of the public key last remembered. -/
theorem Current.keyFor (h : Current own known k) {user : Str} {derived : Key}
    (hkey : (exec (key user) k).1 = .ok (some derived)) :
    Crypto.keyFor own ((known user).getD (Crypto.publicB64 own)) = .ok derived := by
  rw [(exec_key_keyOf user k).1, keyOf] at hkey
  cases hd : PyDict.get k.derived user with
  | some d =>
    rw [hd] at hkey
    obtain rfl := Option.some.inj (Except.ok.inj hkey)
    obtain ⟨pubkey, hp, hderived⟩ := h.fresh user d hd
    rw [← h.held user pubkey hp, ← h.identity]
    exact hderived
  | none =>
    rw [hd] at hkey
    dsimp only at hkey
    have hcurrent : Current own known (adopt user k) := h.refreshed (adopt_lazily user k h.fresh)
    cases hp : PyDict.get (adopt user k).pubkeys user with
    | none =>
      rw [hp] at hkey
      cases hkey
    | some pubkey =>
      rw [hp, h.identity] at hkey
      dsimp only at hkey
      rw [← hcurrent.held user pubkey hp]
      cases hfor : Crypto.keyFor own pubkey with
      | error e =>
        rw [hfor] at hkey
        cases hkey
      | ok d =>
        rw [hfor] at hkey
        obtain rfl := Option.some.inj (Except.ok.inj hkey)
        rfl

/-! ## What sealing and opening use -/

/-- What `seal` returns or raises is decided by the key `_key` finds. -/
theorem exec_seal_of_key {user : Str} {derived : Key} (hkey : (exec (key user) k).1 = .ok (some derived))
    (text sender : Str) :
    ∃ nonce, (exec (seal' user text sender) k).1 =
      ((Crypto.seal' derived text sender nonce).map some).mapError .py := by
  unfold seal'
  rw [exec_bind]
  cases hrun : exec (key user) k with
  | mk r k' =>
    rw [hrun] at hkey
    dsimp only at hkey
    rw [hkey]
    dsimp only
    rw [exec_bind, exec_sealWith]
    refine ⟨k'.urandom k'.drawn, ?_⟩
    cases Crypto.seal' derived text sender (k'.urandom k'.drawn) with
    | ok sealed => rfl
    | error e => rfl

/-- So is what `open` does. -/
theorem exec_open_of_key {user : Str} {derived : Key} (hkey : (exec (key user) k).1 = .ok (some derived))
    (ciphertext nonce sender : Json) :
    (exec (open' (.str user) ciphertext nonce sender) k).1 = (Crypto.open' derived ciphertext nonce sender).result := by
  unfold open'
  rw [exec_bind]
  cases hrun : exec (key user) k with
  | mk r k' =>
    rw [hrun] at hkey
    dsimp only at hkey ⊢
    rw [hkey]
    dsimp only
    cases Crypto.open' derived ciphertext nonce sender with
    | plaintext text => rfl
    | failed => rfl
    | raised e => rfl

/-- Sealed under the key of that name. -/
def SealedFor (own : Identity) (known : Str → Option Str) (text sender name : Str) (sealed : Str × Str) : Prop :=
  ∃ derived nonce, Crypto.keyFor own ((known name).getD (Crypto.publicB64 own)) = .ok derived ∧
    Crypto.seal' derived text sender nonce = .ok sealed

/-- What is sealed for a name is sealed under its current key, -/
theorem Current.seal_ends (h : Current own known k) (user text sender : Str) :
    Ends (seal' user text sender) k
      (fun r k' => Current own known k' ∧ ∀ sealed, r = some sealed → SealedFor own known text sender user sealed)
      fun _ _ => True := by
  have hkey := ends_exec (key user) k
  refine Ends.bind ((hkey.and_steps (key_lazily user)).mono (fun held k' h => h) fun _ _ _ => trivial) fun held k' hk' => ?_
  obtain ⟨hlazily, hrun⟩ := hk'
  have hcurrent : Current own known k' := h.refreshed (hlazily h.fresh)
  cases held with
  | none => exact ends_pure ⟨hcurrent, nofun⟩
  | some derived =>
    have hfor := h.keyFor (congrArg Prod.fst hrun)
    have hdrawn := lazily_stepwise.sealWith derived text sender k' hcurrent.fresh
    unfold Ends
    dsimp only
    rw [exec_sealWith] at hdrawn
    rw [exec_bind, exec_sealWith]
    cases hsealed : Crypto.seal' derived text sender (k'.urandom k'.drawn) with
    | error e => trivial
    | ok sealed =>
      refine ⟨hcurrent.refreshed hdrawn, fun sealed' heq => ?_⟩
      obtain rfl := Option.some.inj heq
      exact ⟨derived, k'.urandom k'.drawn, hfor, hsealed⟩

/-- for each of some names, -/
theorem Current.sealEach_ends (text sender : Str) (names : List Str) : ∀ {k : Keyring}, Current own known k →
    Ends (sealEach text sender names) k
      (fun envelopes _ => ∀ e ∈ envelopes, SealedFor own known text sender e.1 e.2) fun _ _ => True := by
  induction names with
  | nil => exact fun _ => ends_pure nofun
  | cons name names ih =>
    intro k h
    refine (h.seal_ends name text sender).bind fun sealed k' hk' => ?_
    cases sealed with
    | none => exact ends_throw trivial
    | some sealed =>
      refine (ih hk'.1).bind fun rest _ hrest => ends_pure fun e he => ?_
      cases he with
      | head => exact hk'.2 sealed rfl
      | tail _ he => exact hrest e he

/-- and for everyone in a room. -/
theorem Current.sealForMembers_ends (h : Current own known k) (members : List Str) (text sender : Str) :
    Ends (sealForMembers members text sender) k
      (fun r _ => ∀ envelopes, r = some envelopes → ∀ e ∈ envelopes, SealedFor own known text sender e.1 e.2)
      fun _ _ => True := by
  have hk₁ : Current own known ({ k with me := sender } : Keyring).selfKey := h.selfKey sender
  refine ends_modify_bind ?_
  have hlooked : Ends (anyUnknown (Str.sorted (sender :: members).dedup)) ({ k with me := sender } : Keyring).selfKey
      (fun _ k' => Current own known k') (fun _ _ => True) :=
    ((lazily_stepwise.anyUnknown _).ends _).mono (fun _ _ hl => hk₁.refreshed (hl hk₁.fresh)) fun _ _ _ => trivial
  refine hlooked.bind fun unknown k₂ hk₂ => ?_
  cases unknown with
  | true => exact ends_pure nofun
  | false =>
    refine (hk₂.sealEach_ends text sender _).bind fun envelopes _ he => ends_pure fun envelopes' henv => ?_
    obtain rfl := Option.some.inj henv
    exact he

end Current

/-- Any calls on a new keyring. -/
theorem current_applyAll (own : Identity) (me : Str) (urandom : Nat → List UInt8) (calls : List KeyringCall) :
    Current own (lastRemembered calls) (Keyring.applyAll { identity := own, me, urandom } calls) := by
  have hstart : Current own (fun _ => none) { identity := own, me, urandom } := ⟨rfl, nofun, nofun, nofun⟩
  exact hstart.applyAll calls

/-- **No stale key is used.** After any calls on a new keyring the derived keys are
those of the public keys it holds, and whatever is sealed or opened under a key is so
under that of the public key most recently remembered for the name and not since
forgotten, or of the keyring's own if there is none. -/
theorem applyAll_keys (own : Identity) (me : Str) (urandom : Nat → List UInt8) (calls : List KeyringCall) :
    let k := Keyring.applyAll { identity := own, me, urandom } calls
    let pubkey := fun user => (lastRemembered calls user).getD (Crypto.publicB64 own)
    (∀ user derived, PyDict.get k.derived user = some derived →
      ∃ p, PyDict.get k.pubkeys user = some p ∧ Crypto.keyFor own p = .ok derived) ∧
    (∀ user derived, (exec (key user) k).1 = .ok (some derived) →
      Crypto.keyFor own (pubkey user) = .ok derived ∧
      (∀ text sender, ∃ nonce, (exec (seal' user text sender) k).1 =
        ((Crypto.seal' derived text sender nonce).map some).mapError .py) ∧
      ∀ ciphertext nonce sender, (exec (open' (.str user) ciphertext nonce sender) k).1 =
        (Crypto.open' derived ciphertext nonce sender).result) ∧
    ∀ members text sender envelopes, (exec (sealForMembers members text sender) k).1 = .ok (some envelopes) →
      ∀ e ∈ envelopes, ∃ derived nonce, Crypto.keyFor own (pubkey e.1) = .ok derived ∧
        Crypto.seal' derived text sender nonce = .ok e.2 := by
  -- The four parts are read off one invariant of the calls.
  have hcurrent := current_applyAll own me urandom calls
  intro k pubkey
  refine ⟨fun user derived hd => ?_, fun user derived hkey => ⟨hcurrent.keyFor hkey, fun text sender => ?_,
    fun ciphertext nonce sender => ?_⟩, fun members text sender envelopes hsealed => ?_⟩
  · rw [← hcurrent.identity]
    exact hcurrent.fresh user derived hd
  · exact exec_seal_of_key hkey text sender
  · exact exec_open_of_key hkey ciphertext nonce sender
  · have hends := hcurrent.sealForMembers_ends members text sender
    unfold Ends at hends
    cases hrun : exec (sealForMembers members text sender) k with
    | mk r k' =>
      rw [hrun] at hsealed
      dsimp only at hsealed
      subst hsealed
      rw [show exec (sealForMembers members text sender) _ = _ from hrun] at hends
      exact hends envelopes rfl

end Keyring

end Ciphertext
