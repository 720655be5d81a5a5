import Ciphertext.Client.Controller
import Mathlib.Data.List.Dedup

/-!
# What the controller's methods leave alone

Only few methods touch what the later results are about: who is in which room,
who we are, who is online, whose keys we hold, which texts wait. `Aside` is the
relation between a controller before and after all the others: these fields are
as they were, and the trace has grown by calls. It is a preorder, so it is
checked method by method along the text of each. `LateKeys` and `Releases` then need
no more than one lemma for each method they pass (`file_aside`, `incomingMessage_aside`,
`historyResult_aside` are the long ones).

The keyring may derive a key along the way. It stays `Consistent`: what it has derived
comes from the public keys it holds, and once it knows its own name it holds its
own key too. `Keyring.Same` is deriving and no more, and `Keyring.Grows` is what
sealing for a room adds to it, the sender's own name and key. The functions of the
keyring have one lemma each that says how they end, returned or raised, of which
`sealForMembers_ends` is the last: it returns one envelope for each name, in order, or
stops at a text that cannot be encoded or at a key that is none or missing.
-/

namespace Ciphertext

open Act

/-! ## The keyring -/

namespace Keyring

variable [Crypto]

/-- What every method of a keyring keeps. -/
structure Consistent (k : Keyring) : Prop where
  derived : ∀ u key, PyDict.get k.derived u = some key →
    ∃ pubkey, PyDict.get k.pubkeys u = some pubkey ∧ Crypto.keyFor k.identity pubkey = .ok key
  self : k.me ≠ [] → k.knows k.me = true

/-- A keyring that has been told nothing. -/
theorem Consistent.fresh (identity : Identity) (urandom : Nat → List UInt8) : ({ identity, urandom } : Keyring).Consistent :=
  ⟨fun _ _ h => (nomatch h), fun h => absurd rfl h⟩

/-- Another state of a keyring, with the same keys in it. -/
structure Same (k k' : Keyring) : Prop where
  identity : k'.identity = k.identity
  me : k'.me = k.me
  pubkeys : k'.pubkeys = k.pubkeys
  consistent : k'.Consistent

/-- Nothing is done, and what is derived is still right. -/
theorem Same.refl {k : Keyring} (h : k.Consistent) : k.Same k := ⟨rfl, rfl, rfl, h⟩

/-- One after the other; that the last one is consistent is enough. -/
theorem Same.trans {k₁ k₂ k₃ : Keyring} (h : k₁.Same k₂) (h' : k₂.Same k₃) : k₁.Same k₃ :=
  ⟨h'.identity.trans h.identity, h'.me.trans h.me, h'.pubkeys.trans h.pubkeys, h'.consistent⟩

/-- Whose key is known does not change. -/
theorem Same.knows {k k' : Keyring} (h : k.Same k') (u : Str) : k'.knows u = k.knows u := by
  rw [Keyring.knows, Keyring.knows, h.pubkeys]

/-- Own name known, own key held: nothing to add. -/
theorem selfKey_eq {k : Keyring} (h : k.knows k.me = true) : k.selfKey = k := by
  unfold Keyring.knows at h
  rw [selfKey, PyDict.setDefault, if_pos h]

/-- Keyring methods that add no public key. -/
abbrev Derives (k k' : Keyring) : Prop := k.Consistent → k.Same k'

/-- What does nothing derives nothing. -/
theorem Derives.refl (k : Keyring) : Derives k k := fun h => .refl h

/-- Two calls that only derive, one after the other. -/
theorem Derives.trans (k₁ k₂ k₃ : Keyring) (h : Derives k₁ k₂) (h' : Derives k₂ k₃) :
    Derives k₁ k₃ := fun hs => (h hs).trans (h' (h hs).consistent)

/-- A consistent keyring has its own key already, and `_self_key` does nothing. -/
theorem adopt_eq {k : Keyring} (h : k.Consistent) (user : Str) : k.adopt user = k := by
  unfold adopt
  split
  · next hu =>
    simp only [Bool.and_eq_true, Bool.not_eq_true', List.isEmpty_eq_false_iff, decide_eq_true_eq] at hu
    exact selfKey_eq (h.self (hu.2 ▸ hu.1))
  · rfl

/-- The same, of the program. -/
theorem exec_adopt {k : Keyring} (h : k.Consistent) (user : Str) :
    exec (modify (adopt user) : KeyringM PUnit) k = (.ok ⟨⟩, k) := by
  rw [exec_modify, adopt_eq h]

/-- A key can be derived from what is published for this user. -/
def Usable (k : Keyring) (user : Str) : Prop :=
  ∀ pubkey, PyDict.get k.pubkeys user = some pubkey →
    ∃ key, Crypto.keyFor k.identity pubkey = .ok key

/-- A usable key stays usable: it is the same key, agreed on with the same identity. -/
theorem Same.usable {k k' : Keyring} (h : k.Same k') {u : Str} (hu : k.Usable u) : k'.Usable u := by
  intro pubkey hp
  rw [h.pubkeys] at hp
  rw [h.identity]
  exact hu pubkey hp

/-- The key shared with a user, as the public keys determine it. -/
def shared (k : Keyring) (user : Str) : Except ClientErr (Option Key) :=
  match PyDict.get k.pubkeys user with
  | none => .ok none
  | some pubkey => match Crypto.keyFor k.identity pubkey with
    | .ok key => .ok (some key)
    | .error e => .error (.py e)

/-- The key shared with a user depends on the public keys and the identity alone. -/
theorem Same.shared {k k' : Keyring} (h : k.Same k') (user : Str) : k'.shared user = k.shared user := by
  rw [Keyring.shared, Keyring.shared, h.pubkeys, h.identity]

/-- **What `_key` returns**, and that it changes nothing but what is derived. -/
theorem exec_key {k : Keyring} (h : k.Consistent) (user : Str) :
    (exec (key user) k).1 = k.shared user ∧ k.Same (exec (key user) k).2 := by
  unfold key shared
  rw [exec_bind, exec_adopt h]
  dsimp only
  rw [exec_bind, exec_get]
  dsimp only
  cases hd : PyDict.get k.derived user with
  | some key =>
    obtain ⟨pubkey, hp, hkey⟩ := h.derived user key hd
    rw [hp]
    dsimp only
    rw [hkey]
    exact ⟨rfl, .refl h⟩
  | none =>
    cases hp : PyDict.get k.pubkeys user with
    | none => exact ⟨rfl, .refl h⟩
    | some pubkey =>
      dsimp only
      cases hkey : Crypto.keyFor k.identity pubkey with
      | error e => exact ⟨rfl, .refl h⟩
      | ok key =>
        refine ⟨rfl, rfl, rfl, rfl, fun u key' hu => ?_, h.self⟩
        -- the one new derived key is that of the user, from the key published
        have hu : PyDict.get (PyDict.insert k.derived user key) u = some key' := hu
        by_cases hu' : u = user
        · rw [hu', PyDict.get_insert_self] at hu
          cases hu
          rw [hu']
          exact ⟨pubkey, hp, hkey⟩
        · rw [PyDict.get_insert_ne _ _ hu'] at hu
          exact h.derived u key' hu

/-- The key is found where one is published. -/
theorem shared_knows {k : Keyring} {user : Str} {held : Option Key} (h : k.shared user = .ok held) :
    held.isSome = k.knows user := by
  unfold shared at h
  unfold knows PyDict.has
  cases hp : PyDict.get k.pubkeys user with
  | none =>
    rw [hp] at h
    cases h
    rfl
  | some pubkey =>
    rw [hp] at h
    dsimp only at h
    split at h
    · cases h
      rfl
    · cases h

/-- Where a key comes out, there was a public key and it was one. -/
theorem shared_usable {k : Keyring} {user : Str} {key : Key} (h : k.shared user = .ok (some key)) :
    k.Usable user := by
  intro pubkey hp
  unfold shared at h
  rw [hp] at h
  dsimp only at h
  split at h
  · next derived hkey => exact ⟨derived, hkey⟩
  · cases h

/-- It raises only on a public key that is none. -/
theorem key_ends {k : Keyring} (h : k.Consistent) (user : Str) :
    Ends (key user) k (fun held k' => k.Same k' ∧ k.shared user = .ok held)
      (fun _ k' => k.Same k' ∧ ¬ k.Usable user) := by
  obtain ⟨hfst, hsame⟩ := exec_key h user
  refine (ends_exec (key user) k).mono (fun held k' hrun => ?_) fun e k' hrun => ?_
  · rw [hrun] at hfst hsame
    exact ⟨hsame, hfst.symm⟩
  · rw [hrun] at hfst hsame
    refine ⟨hsame, fun husable => ?_⟩
    have hfst : Except.error e = k.shared user := hfst
    unfold shared at hfst
    split at hfst
    · cases hfst
    · next pubkey hp =>
      obtain ⟨key, hkey⟩ := husable pubkey hp
      rw [hkey] at hfst
      cases hfst

/-- Sealing reads both as UTF-8. -/
def Encodes (text sender : Str) : Prop := text.encodable = true ∧ sender.encodable = true

instance (text sender : Str) : Decidable (Encodes text sender) := inferInstanceAs (Decidable (_ ∧ _))

/-- Sealed under the key shared with that name. -/
def SealedUnder (k : Keyring) (text sender : Str) (e : Str × Str × Str) : Prop :=
  ∃ key nonce, k.shared e.1 = .ok (some key) ∧ Crypto.seal' key text sender nonce = .ok e.2

/-- An envelope sealed under a key of the one is sealed under a key of the other. -/
theorem Same.sealedUnder {k k' : Keyring} (h : k.Same k') {text sender : Str} {e : Str × Str × Str}
    (he : k'.SealedUnder text sender e) : k.SealedUnder text sender e := by
  obtain ⟨key, nonce, hkey, he⟩ := he
  exact ⟨key, nonce, (h.shared e.1).symm.trans hkey, he⟩

/-- An envelope is sealed under a usable key, -/
theorem SealedUnder.usable {k : Keyring} {text sender : Str} {e : Str × Str × Str}
    (h : k.SealedUnder text sender e) : k.Usable e.1 := by
  obtain ⟨key, nonce, hkey, -⟩ := h
  exact shared_usable hkey

/-- and its text and sender have an encoding. -/
theorem SealedUnder.encodes {k : Keyring} {text sender : Str} {e : Str × Str × Str}
    (h : k.SealedUnder text sender e) : Encodes text sender := by
  obtain ⟨key, nonce, -, hsealed⟩ := h
  by_contra hno
  rw [Crypto.seal_error key nonce hno] at hsealed
  cases hsealed

/-- Sealing for somebody raises on a public key that is none, and on what has no encoding. -/
theorem seal_ends {k : Keyring} (h : k.Consistent) (user text sender : Str) :
    Ends (seal' user text sender) k
      (fun r k' => k.Same k' ∧ r.isSome = k.knows user ∧
        ∀ sealed, r = some sealed → k.SealedUnder text sender (user, sealed))
      (fun _ k' => k.Same k' ∧ ¬ (k.Usable user ∧ Encodes text sender)) := by
  refine Ends.bind ((key_ends h user).mono (fun _ _ hq => hq) fun _ _ hx => ⟨hx.1, fun hboth => hx.2 hboth.1⟩) ?_
  intro held k' hheld
  obtain ⟨hsame, hheld⟩ := hheld
  have hknows := shared_knows hheld
  cases held with
  | none => exact ends_pure ⟨hsame, hknows, nofun⟩
  | some key =>
    have hdrawn : k.Same { k' with drawn := k'.drawn + 1 } :=
      hsame.trans ⟨rfl, rfl, rfl, hsame.consistent.derived, hsame.consistent.self⟩
    unfold Ends
    dsimp only
    rw [exec_bind, exec_sealWith]
    by_cases hs : Encodes text sender
    · rw [Crypto.seal_ok key _ hs.1 hs.2]
      refine ⟨hdrawn, hknows, fun sealed heq => ?_⟩
      obtain rfl := Option.some.inj heq
      exact ⟨key, k'.urandom k'.drawn, hheld, Crypto.seal_ok key _ hs.1 hs.2⟩
    · rw [Crypto.seal_error key _ hs]
      exact ⟨hdrawn, fun hboth => hs hboth.2⟩

/-- `_key` derives at most. -/
theorem key_derives (user : Str) : Steps Derives (key user) := fun _ h => (exec_key h user).2

/-- Deriving is an order the single calls of a program may be checked against. -/
theorem derives_stepwise : Stepwise Derives :=
  ⟨Derives.refl, Derives.trans, key_derives, fun _ h => ⟨rfl, rfl, rfl, h.derived, h.self⟩⟩

/-- What opening comes to is determined by the public keys. -/
theorem Same.open' {k k' : Keyring} (h : k.Same k') (hs : k.Consistent) (user ciphertext nonce sender : Json) :
    (exec (Keyring.open' user ciphertext nonce sender) k').1 =
      (exec (Keyring.open' user ciphertext nonce sender) k).1 := by
  unfold Keyring.open'
  split
  · next u =>
    have hk := (exec_key hs u).1
    have hk' := (exec_key h.consistent u).1
    rw [h.shared] at hk'
    rw [exec_bind, exec_bind]
    rcases he : exec (key u) k with ⟨e | r, k₁⟩ <;> rcases he' : exec (key u) k' with ⟨e' | r', k₁'⟩ <;>
      rw [he] at hk <;> rw [he'] at hk' <;> rw [← hk] at hk' <;> cases hk'
    · rfl
    · cases r with
      | none => rfl
      | some key =>
        dsimp only
        split <;> rfl
  · split
    · rfl
    · rfl

/-! ### Sealing for a room -/

/-- The first line of `seal_for_members`. -/
def named (k : Keyring) (sender : Str) : Keyring := ({ k with me := sender } : Keyring).selfKey

/-- Learning one's own name leaves the other keys alone. -/
theorem named_get {k : Keyring} {sender u : Str} (hu : u ≠ sender) :
    PyDict.get (k.named sender).pubkeys u = PyDict.get k.pubkeys u := by
  unfold named selfKey PyDict.setDefault
  split
  · rfl
  · exact PyDict.get_insert_ne _ _ hu

/-- Afterwards one's own key is there: the one remembered for that name, or the identity's.
-/
theorem named_get_self (k : Keyring) (sender : Str) :
    PyDict.get (k.named sender).pubkeys sender =
      some ((PyDict.get k.pubkeys sender).getD (Crypto.publicB64 k.identity)) := by
  unfold named selfKey PyDict.setDefault PyDict.has
  cases hk : PyDict.get k.pubkeys sender with
  | none => simp
  | some pubkey => simpa using hk

/-- With its own key under its own name the keyring is still consistent. -/
theorem named_consistent {k : Keyring} (h : k.Consistent) (sender : Str) : (k.named sender).Consistent := by
  refine ⟨fun u key hu => ?_, fun _ => ?_⟩
  · obtain ⟨pubkey, hp, hkey⟩ := h.derived u key hu
    refine ⟨pubkey, ?_, hkey⟩
    by_cases hs : u = sender
    · rw [hs, named_get_self, ← hs, hp]
      rfl
    · rw [named_get hs]
      exact hp
  · show (PyDict.get (k.named sender).pubkeys sender).isSome = true
    rw [named_get_self]
    rfl

/-- The keyring of `sender` after it sealed for a room: it knows its own name and
key, and of the others what it knew. -/
structure Grows (sender : Str) (k k' : Keyring) : Prop where
  identity : k'.identity = k.identity
  pubkeys : ∀ u, PyDict.get k'.pubkeys u = PyDict.get (k.named sender).pubkeys u
  consistent : k'.Consistent

/-- First the name is learnt, and then keys are derived. -/
theorem Grows.trans_same {sender : Str} {k₁ k₂ k₃ : Keyring} (h : k₁.Grows sender k₂)
    (h' : k₂.Same k₃) : k₁.Grows sender k₃ :=
  ⟨h'.identity.trans h.identity, fun u => by rw [h'.pubkeys]; exact h.pubkeys u, h'.consistent⟩

/-- Nobody else's key is known because of it. -/
theorem Grows.knows {sender u : Str} {k k' : Keyring} (h : k.Grows sender k') (hu : u ≠ sender) :
    k'.knows u = k.knows u := by
  rw [Keyring.knows, Keyring.knows, PyDict.has, PyDict.has, h.pubkeys u, named_get hu]

/-- One's own is. -/
theorem Grows.own {sender : Str} {k k' : Keyring} (h : k.Grows sender k') :
    k'.knows sender = true := by
  rw [Keyring.knows, PyDict.has, h.pubkeys sender, named_get_self]
  rfl

/-- Learning the name is what growing means. -/
theorem named_grows {k : Keyring} (h : k.Consistent) (sender : Str) : k.Grows sender (k.named sender) :=
  ⟨rfl, fun _ => rfl, named_consistent h sender⟩

/-- Sealing for a room adds one's own name and key, however it ends. -/
theorem sealForMembers_grows {k : Keyring} (h : k.Consistent) (members : List Str) (text sender : Str) :
    k.Grows sender (exec (sealForMembers members text sender) k).2 := by
  have hrest : (k.named sender).Same (exec (sealForMembers members text sender) k).2 :=
    derives_stepwise.sealForMembers members text sender k (named_consistent h sender)
  exact (named_grows h sender).trans_same hrest

/-- Not all of these keys are keys, or something else is not as it should be, and that is
why the keyring raised. -/
def Unfit (k : Keyring) (names : List Str) (fit : Prop) (k' : Keyring) : Prop :=
  k.Same k' ∧ ¬ ((∀ u ∈ names, k.Usable u) ∧ fit)

section Unfit

variable {fit : Prop}

/-- The first name is the one that does not do. -/
theorem Unfit.head {k k' : Keyring} {name : Str} (h : k.Same k' ∧ ¬ (k.Usable name ∧ fit)) (names : List Str) :
    k.Unfit (name :: names) fit k' :=
  ⟨h.1, fun hall => h.2 ⟨hall.1 name (List.mem_cons_self ..), hall.2⟩⟩

/-- It is further down the list. -/
theorem Unfit.tail {k₁ k₂ k₃ : Keyring} {names : List Str} (h : k₂.Unfit names fit k₃) (hs : k₁.Same k₂)
    (name : Str) : k₁.Unfit (name :: names) fit k₃ := by
  refine ⟨hs.trans h.1, fun hall => h.2 ⟨fun u hu => ?_, hall.2⟩⟩
  exact hs.usable (hall.1 u (List.mem_cons_of_mem _ hu))

end Unfit

/-- Where all names are known, the search for an unknown one finds none, or a key on the way
is none. -/
theorem anyUnknown_ends {names : List Str} : ∀ {k : Keyring}, k.Consistent →
    (∀ u ∈ names, k.knows u = true) →
    Ends (anyUnknown names) k (fun r k' => k.Same k' ∧ r = false) (fun _ k' => k.Unfit names True k') := by
  induction names with
  | nil => exact fun h _ => ⟨.refl h, rfl⟩
  | cons name names ih =>
    intro k h hknows
    have hraise : ∀ {k'}, k.Same k' ∧ ¬ k.Usable name → k.Unfit (name :: names) True k' := fun hx =>
      .head ⟨hx.1, fun hboth => hx.2 hboth.1⟩ names
    refine ((key_ends h name).mono (fun _ _ hq => hq) fun _ _ hx => hraise hx).bind ?_
    intro held k' hheld
    obtain ⟨hsame, hheld⟩ := hheld
    have hsome := shared_knows hheld
    rw [hknows name (List.mem_cons_self ..)] at hsome
    obtain ⟨key, rfl⟩ := Option.isSome_iff_exists.mp hsome
    have hrest := ih hsame.consistent fun u hu => by
      rw [hsame.knows]
      exact hknows u (List.mem_cons_of_mem _ hu)
    exact hrest.mono (fun _ _ hq => ⟨hsame.trans hq.1, hq.2⟩) fun _ _ hx => hx.tail hsame name

/-- The dictionary has one entry for each name, sealed for that name. -/
theorem sealEach_ends (text sender : Str) {names : List Str} : ∀ {k : Keyring}, k.Consistent →
    (∀ u ∈ names, k.knows u = true) →
    Ends (sealEach text sender names) k
      (fun envelopes k' => k.Same k' ∧ envelopes.map Prod.fst = names ∧
        ∀ e ∈ envelopes, k.SealedUnder text sender e)
      (fun _ k' => k.Unfit names (Encodes text sender) k') := by
  induction names with
  | nil => exact fun h _ => ⟨.refl h, rfl, nofun⟩
  | cons name names ih =>
    intro k h hknows
    refine ((seal_ends h name text sender).mono (fun _ _ hq => hq) fun _ _ hx => .head hx names).bind ?_
    intro r k' hr
    obtain ⟨hsame, hsome, hsealed⟩ := hr
    rw [hknows name (List.mem_cons_self ..)] at hsome
    obtain ⟨sealed, rfl⟩ := Option.isSome_iff_exists.mp hsome
    have hrest := ih hsame.consistent fun u hu => by
      rw [hsame.knows]
      exact hknows u (List.mem_cons_of_mem _ hu)
    refine (hrest.mono (fun _ _ hq => hq) fun _ _ hx => hx.tail hsame name).bind fun envelopes k'' he => ?_
    obtain ⟨hsame', hnames, henvelopes⟩ := he
    refine ends_pure ⟨hsame.trans hsame', congrArg (name :: ·) hnames, fun e he => ?_⟩
    cases he with
    | head => exact hsealed sealed rfl
    | tail _ he => exact hsame.sealedUnder (henvelopes e he)

/-- What `seal_for_members` returns for everybody. -/
structure Envelopes (k : Keyring) (members : List Str) (text sender : Str) (envelopes : List (Str × Str × Str)) :
    Prop where
  names : envelopes.map Prod.fst = Str.sorted (sender :: members).dedup
  sealed : ∀ e ∈ envelopes, (k.named sender).SealedUnder text sender e

/-- **`seal_for_members` seals** when nobody's key is missing, unless one of the
keys is none or what is sealed has no encoding. -/
theorem sealForMembers_ends {k : Keyring} (h : k.Consistent) {members : List Str} (text : Str)
    {sender : Str} (hknows : ∀ u ∈ members, u ≠ sender → k.knows u = true) :
    Ends (sealForMembers members text sender) k
      (fun r k' => k.Grows sender k' ∧ ∃ envelopes, r = some envelopes ∧ k.Envelopes members text sender envelopes)
      (fun _ k' => k.Grows sender k' ∧
        ¬ ((∀ u ∈ sender :: members, (k.named sender).Usable u) ∧ Encodes text sender)) := by
  have hg := named_grows h sender
  have hmem : ∀ u ∈ Str.sorted (sender :: members).dedup, u ∈ sender :: members :=
    fun u hu => List.mem_dedup.mp (Str.mem_sorted.mp hu)
  have hall : ∀ u ∈ Str.sorted (sender :: members).dedup, (k.named sender).knows u = true := by
    intro u hu
    by_cases hs : u = sender
    · rw [hs]
      exact hg.own
    · rw [hg.knows hs]
      exact hknows u ((List.mem_cons.mp (hmem u hu)).resolve_left hs) hs
  have hnamed : exec (modify fun k : Keyring => ({ k with me := sender } : Keyring).selfKey :
      KeyringM PUnit) k = (.ok ⟨⟩, k.named sender) := rfl
  unfold sealForMembers Ends
  rw [exec_bind, hnamed]
  refine Ends.bind ((anyUnknown_ends hg.consistent hall).mono (fun _ _ hq => hq) fun _ _ hx => ?_) ?_
  · exact ⟨hg.trans_same hx.1, fun hall => hx.2 ⟨fun u hu => hall.1 u (hmem u hu), trivial⟩⟩
  intro r k' hr
  obtain ⟨hsame, rfl⟩ := hr
  have heach := sealEach_ends text sender hsame.consistent fun u hu => by
    rw [hsame.knows]
    exact hall u hu
  refine Ends.bind (heach.mono (fun _ _ hq => hq) fun _ _ hx => ?_) fun envelopes k'' he => ?_
  · refine ⟨(hg.trans_same hsame).trans_same hx.1, fun hall => hx.2 ⟨fun u hu => ?_, hall.2⟩⟩
    exact hsame.usable (hall.1 u (hmem u hu))
  · obtain ⟨hs, hnames, hsealed⟩ := he
    exact ends_pure ⟨(hg.trans_same hsame).trans_same hs, envelopes, rfl, hnames,
      fun e he => hsame.sealedUnder (hsealed e he)⟩

/-- There is one for the sender at least. -/
theorem Envelopes.encodes {k : Keyring} {members : List Str} {text sender : Str}
    {envelopes : List (Str × Str × Str)} (h : k.Envelopes members text sender envelopes) : Encodes text sender := by
  have hmem : sender ∈ envelopes.map Prod.fst := by
    rw [h.names]
    exact Str.mem_sorted.mpr (List.mem_dedup.mpr (List.mem_cons_self ..))
  obtain ⟨e, he, -⟩ := List.mem_map.mp hmem
  exact (h.sealed e he).encodes

/-- Everyone an envelope is for has a usable key. -/
theorem Envelopes.usable {k : Keyring} {members : List Str} {text sender : Str} {envelopes : List (Str × Str × Str)}
    (h : k.Envelopes members text sender envelopes) {u : Str} (hu : u ∈ sender :: members) :
    (k.named sender).Usable u := by
  have hmem : u ∈ envelopes.map Prod.fst := by
    rw [h.names]
    exact Str.mem_sorted.mpr (List.mem_dedup.mpr hu)
  obtain ⟨e, he, rfl⟩ := List.mem_map.mp hmem
  exact (h.sealed e he).usable

end Keyring

/-! ## The controller -/

namespace ChatController

/-- The calls of a stretch of the trace. -/
def callEntries (xs : List (Call × Bool)) : List Entry := xs.map fun x => .called x.1 x.2

/-- The controller after a call. -/
def afterCall (c : ChatController) (x : Call) : ChatController :=
  { c with trace := c.trace ++ [.called x (c.connection c.trace.length).isSome] }

/-- A call goes on the trace, and raises where the connection says so. -/
theorem exec_call (x : Call) (c : ChatController) :
    exec (call x) c =
      (match c.connection c.trace.length with
        | some stamp => .ok stamp
        | none => .error .notConnected, c.afterCall x) := by
  unfold call
  rw [exec_bind, exec_get]
  simp only [exec_bind, exec_modify, afterCall]
  cases c.connection c.trace.length with
  | some stamp => rfl
  | none => rfl

/-- The parts of the model that are looked at here. -/
def Keeps (f : ChatModel → ChatModel) : Prop :=
  ∀ m, (f m).username = m.username ∧ (f m).rooms = m.rooms ∧ (f m).roster = m.roster

/-- Who is typing is no part of it. -/
theorem setTyping_keeps (key : Str) (user : Json) (on : Bool) :
    Keeps fun m => (m.setTyping key user on).1 := by
  intro m
  obtain ⟨typing, es, hset, -⟩ := m.setTyping_eq key user on
  dsimp only
  rw [hset]
  exact ⟨rfl, rfl, rfl⟩

/-- Neither are messages: they end the typing of who wrote them. -/
theorem addMessage_keeps (key : Str) (message : Message) :
    Keeps fun m => (m.addMessage key message).1 := by
  intro m
  have hadded : Keeps fun m => (m.added key message).1 := by
    intro m
    unfold ChatModel.added
    dsimp only
    split
    · exact ⟨rfl, rfl, rfl⟩
    · exact setTyping_keeps key message.sender false _
  obtain ⟨⟨es, hes⟩, -⟩ := ChatModel.addMessage_added m key message
  dsimp only
  rw [hes]
  exact hadded m

/-- Neither are ticks. -/
theorem setReceipt_keeps (key id state : Str) : Keeps fun m => m.setReceipt key id state := by
  intro m
  simp only [ChatModel.setReceipt]
  split
  · exact ⟨rfl, rfl, rfl⟩
  · exact ⟨rfl, rfl, rfl⟩

variable [Crypto]

/-- A controller before and after a method that is not about rooms, names,
presence or keys. -/
structure Aside (c c' : ChatController) : Prop where
  username : c'.model.username = c.model.username
  rooms : c'.model.rooms = c.model.rooms
  roster : c'.model.roster = c.model.roster
  held : c'.held = c.held
  connection : c'.connection = c.connection
  keyring : ∀ k, c.keyring = some k → k.Consistent → ∃ k', c'.keyring = some k' ∧ k.Same k'
  trace : ∃ xs, c'.trace = c.trace ++ callEntries xs

/-- Nothing has been done and nothing called. -/
theorem Aside.refl (c : ChatController) : c.Aside c :=
  ⟨rfl, rfl, rfl, rfl, rfl, fun k hk hs => ⟨k, hk, .refl hs⟩, [], by simp [callEntries]⟩

/-- The calls of the second come behind those of the first. -/
theorem Aside.trans (c₁ c₂ c₃ : ChatController) (h : c₁.Aside c₂) (h' : c₂.Aside c₃) :
    c₁.Aside c₃ := by
  refine ⟨h'.username.trans h.username, h'.rooms.trans h.rooms, h'.roster.trans h.roster,
    h'.held.trans h.held, h'.connection.trans h.connection, fun k hk hs => ?_, ?_⟩
  · obtain ⟨k', hk', hsame⟩ := h.keyring k hk hs
    obtain ⟨k'', hk'', hsame'⟩ := h'.keyring k' hk' hsame.consistent
    exact ⟨k'', hk'', hsame.trans hsame'⟩
  · obtain ⟨xs, hxs⟩ := h.trace
    obtain ⟨ys, hys⟩ := h'.trace
    exact ⟨xs ++ ys, by rw [hys, hxs, callEntries, callEntries, callEntries, List.map_append,
      List.append_assoc]⟩

/-- Sequencing, with the preorder filled in. -/
theorem aside_bind {α β : Type} {m : ClientM α} {f : α → ClientM β} (hm : Steps Aside m)
    (hf : ∀ a, Steps Aside (f a)) : Steps Aside (m >>= f) := Steps.bind Aside.trans hm hf

/-- A result leaves everything alone, -/
theorem aside_pure {α : Type} (a : α) : Steps Aside (pure a : ClientM α) := steps_pure Aside.refl a

/-- and so does an exception. -/
theorem aside_throw {α : Type} (e : ClientErr) : Steps Aside (throw e : ClientM α) :=
  steps_throw Aside.refl e

/-- A loop does if its body does. -/
theorem aside_forM {β : Type} {xs : List β} {f : β → ClientM PUnit} (hf : ∀ x, Steps Aside (f x)) :
    Steps Aside (xs.forM f) := steps_forM Aside.refl Aside.trans hf

/-- A change of fields that are not looked at here. -/
theorem aside_modify {f : ChatController → ChatController}
    (h : ∀ c, (f c).model = c.model ∧ (f c).held = c.held ∧ (f c).connection = c.connection ∧
      (f c).keyring = c.keyring ∧ (f c).trace = c.trace) :
    Steps Aside (modify f : ClientM PUnit) := by
  refine steps_modify fun c => ?_
  obtain ⟨hmodel, hheld, hconn, hkeyring, htrace⟩ := h c
  refine ⟨by rw [hmodel], by rw [hmodel], by rw [hmodel], hheld, hconn, fun k hk hs => ?_, [], ?_⟩
  · exact ⟨k, hkeyring.trans hk, .refl hs⟩
  · rw [htrace]
    exact (List.append_nil _).symm

/-- A call is put on the trace, whether it goes through or raises. -/
theorem afterCall_aside (c : ChatController) (x : Call) : c.Aside (c.afterCall x) :=
  ⟨rfl, rfl, rfl, rfl, rfl, fun k hk hs => ⟨k, hk, .refl hs⟩, [(x, _)], rfl⟩

/-- The same, of the program that makes the call. -/
theorem call_aside (x : Call) : Steps Aside (call x) := by
  intro c
  rw [exec_call]
  exact afterCall_aside c x

/-- The same, where its result is dropped. -/
theorem call_unit_aside (x : Call) : Steps Aside (do let _ ← call x : ClientM Unit) :=
  aside_bind (call_aside x) fun _ => aside_pure _

/-- A receipt that cannot be sent is given up. -/
theorem tryReceipt_aside (target ref : Json) (state : Str) : Steps Aside (tryReceipt target ref state) :=
  Steps.tryCatch Aside.trans (call_unit_aside _) fun _ => aside_pure _

/-- A change of the model is one if the model's own fields of interest are kept, -/
theorem onModel_aside {f : ChatModel → ChatModel} (hf : Keeps f) : Steps Aside (onModel f) := by
  refine steps_modify fun c => ?_
  obtain ⟨hname, hrooms, hroster⟩ := hf c.model
  exact ⟨hname, hrooms, hroster, rfl, rfl, fun k hk hs => ⟨k, hk, .refl hs⟩, [],
    (List.append_nil _).symm⟩

/-- and also if the change may raise. -/
theorem onModel'_aside {f : ChatModel → ChatModel × Except PyErr Unit} (hf : Keeps fun m => (f m).1) :
    Steps Aside (onModel' f) := by
  refine steps_get fun c => ?_
  have hmodel : c.Aside (exec (onModel fun _ => (f c.model).1) c).2 := onModel_aside hf c
  rw [exec_bind]
  cases (f c.model).2 with
  | ok u => exact hmodel
  | error e => exact hmodel

/-- A computation without effects has none. -/
theorem lift_aside {α : Type} (r : Except PyErr α) : Steps Aside (lift r) := by
  cases r with
  | ok a => exact aside_pure a
  | error e => exact aside_throw _

/-- Looking at a name's first character may raise, and does nothing else. -/
theorem startsRoom_aside (v : Json) : Steps Aside (startsRoom v) := by
  cases v with
  | str s => exact aside_pure _
  | _ => exact aside_throw _

/-- So may a timestamp. -/
theorem timeOf_aside (ts : Int) : Steps Aside (timeOf ts) :=
  steps_ite (aside_pure _) (steps_get fun c => Aside.refl c)

/-! ### Gestures -/

/-- `select` sends receipts for what is unread and tells the model. -/
theorem select_aside (key : Str) : Steps Aside (select key) := by
  have hkeeps : Keeps fun m => m.select key := fun _ => ⟨rfl, rfl, rfl⟩
  refine steps_get fun c => ?_
  refine aside_bind (onModel_aside hkeeps) (fun _ => ?_) c
  refine steps_ite (aside_pure _) ?_
  exact aside_forM fun m => tryReceipt_aside m.sender m.id "READ"

/-- Selecting `None` raises, once the model has changed. -/
theorem selectNone_aside : Steps Aside selectNone := by
  have hkeeps : Keeps fun m => m.conversationNone.selectNone := fun _ => ⟨rfl, rfl, rfl⟩
  exact aside_bind (onModel_aside hkeeps) fun _ => aside_throw _

/-- `typing` is one call, if a conversation is active. -/
theorem typing_aside (on : Bool) : Steps Aside (typing on) := by
  refine steps_get fun c => ?_
  cases c.model.active with
  | none => exact Aside.refl c
  | some active => exact call_unit_aside _ c

/-- `request_history` is one call, for the key given or the active one. -/
theorem requestHistory_aside (key : Option Str) (limit : Int) :
    Steps Aside (requestHistory key limit) := by
  refine steps_get fun c => ?_
  dsimp only
  cases (key.filter fun k => !k.isEmpty).or c.model.active with
  | none => exact Aside.refl c
  | some target => exact call_unit_aside _ c

/-- Joining a room and inviting are two calls. -/
theorem joinAndInvite_aside (room : Str) (members : List Str) :
    Steps Aside (joinAndInvite room members) :=
  aside_bind (call_unit_aside _) fun _ => steps_ite (call_unit_aside _) (aside_pure _)

/-- `open_room` remembers whom to invite, and joins the room or asks for it. -/
theorem openRoom_aside (room : Str) (members : List Str) : Steps Aside (openRoom room members) := by
  refine aside_bind (aside_modify fun _ => ⟨rfl, rfl, rfl, rfl, rfl⟩) fun _ => ?_
  refine steps_get fun c => ?_
  exact steps_ite (joinAndInvite_aside room members) (call_unit_aside _) c

/-- `open_conversation` selects it, opens a room, or asks for the user's key first. -/
theorem openConversation_aside (user : Str) : Steps Aside (openConversation user) := by
  refine steps_get fun c => ?_
  refine steps_ite (aside_pure _) (steps_ite (openRoom_aside _ _) (steps_ite (aside_pure _)
    (steps_ite (select_aside _) ?_))) c
  exact aside_bind (aside_modify fun _ => ⟨rfl, rfl, rfl, rfl, rfl⟩) fun _ => call_unit_aside _

/-! ### Frames -/

/-- A keyring method that adds no key. -/
theorem onKeyring_aside {α : Type} {c : ChatController} {k : Keyring} (hk : c.keyring = some k)
    {m : Keyring.KeyringM α} (hm : Steps Keyring.Derives m) :
    c.Aside (exec (onKeyring k m) c).2 := by
  have hstep : c.Aside { c with keyring := some (exec m k).2 } := by
    refine ⟨rfl, rfl, rfl, rfl, rfl, fun k' hk' hs => ⟨_, rfl, ?_⟩, [], (List.append_nil _).symm⟩
    rw [hk] at hk'
    cases hk'
    exact hm k hs
  unfold onKeyring
  rw [exec_bind, exec_modify]
  cases (exec m k).1 with
  | ok a => exact hstep
  | error e => exact hstep

/-- The same, with what is done with the result. -/
theorem onKeyring_bind_aside {α β : Type} {c : ChatController} {k : Keyring} (hk : c.keyring = some k)
    {m : Keyring.KeyringM α} (hm : Steps Keyring.Derives m) {f : α → ClientM β}
    (hf : ∀ a, Steps Aside (f a)) : c.Aside (exec (onKeyring k m >>= f) c).2 := by
  have h := onKeyring_aside hk hm
  rw [exec_bind]
  rcases he : exec (onKeyring k m) c with ⟨e | a, c'⟩ <;> rw [he] at h
  · exact h
  · exact Aside.trans _ _ _ h (hf a c')

/-- A frame that waits for a key is in a list that nobody else looks at. -/
theorem keepAwaiting_aside (f : Frame) (peer : Json) : Steps Aside (keepAwaiting f peer) := by
  refine steps_get fun c => ?_
  refine aside_bind ?_ (fun _ => ?_) c
  · exact aside_modify fun _ => ⟨rfl, rfl, rfl, rfl, rfl⟩
  · exact steps_ite (call_unit_aside _) (aside_pure _)

/-- A message that came is reported, at most. -/
theorem reportDelivery_aside (f : Frame) (key : Json) : Steps Aside (reportDelivery f key) := by
  refine steps_ite (aside_bind (startsRoom_aside key) fun room => ?_) (aside_pure _)
  exact steps_ite (tryReceipt_aside _ _ _) (aside_pure _)

/-- The conversation that was asked for is selected. -/
theorem openPendingUser_aside : Steps Aside openPendingUser := by
  refine steps_get fun c => ?_
  cases c.pendingUser with
  | none => exact Aside.refl c
  | some user =>
    dsimp only
    split
    · refine aside_bind ?_ (fun _ => select_aside user) c
      exact aside_modify fun _ => ⟨rfl, rfl, rfl, rfl, rfl⟩
    · exact Aside.refl c

/-- An ERROR frame forgets what was asked for, or joins the room that exists already. -/
theorem onError_aside (code : Str) : Steps Aside (onError code) := by
  refine steps_ite (aside_modify fun _ => ⟨rfl, rfl, rfl, rfl, rfl⟩) (steps_ite ?_ (steps_ite
    (aside_modify fun _ => ⟨rfl, rfl, rfl, rfl, rfl⟩) (aside_pure _)))
  refine steps_get fun c => ?_
  cases c.pendingRoom with
  | none => exact Aside.refl c
  | some p => exact joinAndInvite_aside p.1 p.2 c

/-- Opening under the keyring derives keys, whichever of the two ways it is done. -/
theorem opening_aside {m : Keyring.KeyringM (Option Str)} (hm : Steps Keyring.Derives m) (body nonce : Json) :
    Steps Aside (opening body nonce m) := by
  refine steps_get fun c => ?_
  cases hk : c.keyring with
  | none => exact Aside.refl c
  | some k =>
    dsimp only
    split
    · exact Aside.refl c
    · refine onKeyring_bind_aside hk hm fun text => ?_
      cases text with
      | some text => exact aside_pure _
      | none => exact aside_pure _

/-- `_plaintext` opens with the peer's key, -/
theorem plaintext_aside (f : Frame) (peer : Json) : Steps Aside (plaintext f peer) := by
  rw [plaintext_eq]
  exact opening_aside (Keyring.derives_stepwise.open' _ _ _ _) _ _

/-- and `_file` puts what comes out into the model. -/
theorem file_aside (f : Frame) (key : Json) : Steps Aside (file f key) := by
  refine aside_bind (reportDelivery_aside f key) fun _ => aside_bind (plaintext_aside f _) fun body =>
    aside_bind (timeOf_aside f.ts) fun ts => ?_
  cases key with
  | str key =>
    exact aside_bind (aside_modify fun _ => ⟨rfl, rfl, rfl, rfl, rfl⟩) fun _ => onModel'_aside (addMessage_keeps key _)
  | _ => exact aside_throw _

/-- `_incoming_message` files or keeps the frame; a key that is missing is asked for. -/
theorem incomingMessage_aside (f : Frame) : Steps Aside (incomingMessage f) := by
  refine aside_bind (startsRoom_aside _) fun room => ?_
  dsimp only
  refine steps_ite (aside_pure _) ?_
  refine steps_get fun c => ?_
  split
  · exact Aside.refl c
  · exact keepAwaiting_aside f _ c
  · exact file_aside f _ c

/-- `_deliver_awaiting` files what waited. -/
theorem deliverAwaiting_aside (user : Str) : Steps Aside (deliverAwaiting user) := by
  refine steps_get fun c => ?_
  refine aside_bind ?_ (fun _ => ?_) c
  · exact aside_modify fun _ => ⟨rfl, rfl, rfl, rfl, rfl⟩
  · exact aside_forM fun f => aside_bind (startsRoom_aside _) fun room => file_aside f _

variable [Runtime]

/-- A RECEIPT frame sets a tick. -/
theorem receipt_aside (f : Frame) : Steps Aside (receipt f) :=
  steps_ite (onModel_aside (setReceipt_keeps _ _ _)) (aside_pure _)

omit [Runtime] in
/-- A TYPING frame says who is typing. -/
theorem incomingTyping_aside (f : Frame) : Steps Aside (incomingTyping f) := by
  refine steps_ite (aside_pure _) ?_
  refine aside_bind (startsRoom_aside _) fun room => ?_
  dsimp only
  split
  · exact onModel'_aside (setTyping_keeps _ _ _)
  · exact steps_ite (aside_pure _) (aside_throw _)

/-- `_stored_plaintext` opens a row with its own key or the peer's. -/
theorem storedPlaintext_aside (row : Dict) (key me : Str) : Steps Aside (storedPlaintext row key me) := by
  obtain ⟨body, peer, author, h⟩ := storedPlaintext_eq row key me
  rw [h]
  exact opening_aside (Keyring.derives_stepwise.open' _ _ _ _) _ _

/-- All rows of a page, one after the other. -/
theorem storedMessages_aside (key : Str) (username : Option Str) (rows : List Json) :
    Steps Aside (storedMessages key username rows) := by
  induction rows with
  | nil => exact aside_pure _
  | cons row rows ih =>
    refine aside_bind ?_ fun m => aside_bind ih fun ms => aside_pure _
    cases row with
    | dict row =>
      exact aside_bind (storedPlaintext_aside row key _) fun body => aside_bind (timeOf_aside 0)
        fun now => aside_bind (lift_aside _) fun ts => aside_pure _
    | _ => exact aside_throw _

/-- A HISTORY_RESULT puts them into the conversation. -/
theorem historyResult_aside (f : Frame) : Steps Aside (historyResult f) := by
  refine steps_ite (aside_pure _) ?_
  refine steps_get fun c => ?_
  have hkeeps : ∀ key ms, Keeps fun m => m.loadHistory key ms := fun _ _ _ => ⟨rfl, rfl, rfl⟩
  exact aside_bind (lift_aside _) (fun rows => aside_bind (storedMessages_aside _ _ rows) fun ms =>
    onModel_aside (hkeeps _ ms)) c

end ChatController

end Ciphertext
