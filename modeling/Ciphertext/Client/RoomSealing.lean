import Ciphertext.Client.Releasing
import Ciphertext.Client.DerivedKeys

/-!
# Sealing for a room

`seal_for_members` seals once for every member and once for the sender, or not
at all. Whether it does is decided by the public keys the keyring holds when it
is called; what it returns is sealed for each name under the key the two of them
share, and the member's own keyring comes to the same key.

`AllOrNothing` says all of this of one call, and `applyAll_sealForMembers_iff` when it
holds, after any calls on a new keyring: exactly if somebody's key is missing, or the
text and the sender's name have an encoding. A lone surrogate has none, and
`envelope.seal` raises for it before the cipher sees it. What is assumed of the cipher
is that two identities come to the same key and that opening undoes sealing; the cipher
of `Envelope` does both, and `exchangeCrypto` is a small one that does.
-/

namespace Ciphertext

open Act

namespace Keyring

variable [Crypto]

/-- Every public key that is held is one. -/
def WellFormed (k : Keyring) : Prop := ∀ user, k.Usable user

theorem Same.wellFormed {k k' : Keyring} (h : k.Same k') (hw : k.WellFormed) : k'.WellFormed :=
  fun user => h.usable (hw user)

theorem shared_cases {k : Keyring} (hw : k.WellFormed) (user : Str) :
    (∃ key, k.shared user = .ok (some key)) ∨ k.shared user = .ok none ∧ k.knows user = false := by
  unfold shared knows PyDict.has
  cases hp : PyDict.get k.pubkeys user with
  | none => exact .inr ⟨rfl, rfl⟩
  | some pubkey =>
    obtain ⟨key, hkey⟩ := hw user pubkey hp
    dsimp only
    rw [hkey]
    exact .inl ⟨key, rfl⟩

/-- `_key`, when nothing it meets is malformed. -/
theorem key_returns {k : Keyring} (h : k.Consistent) (hw : k.WellFormed) (user : Str) :
    Ends (key user) k (fun held k' => k.Same k' ∧ k.shared user = .ok held) fun _ _ => False :=
  (key_ends h user).mono (fun _ _ hq => hq) fun _ _ hx => hx.2 (hw user)

/-- The test of `seal_for_members`. -/
theorem anyUnknown_returns (names : List Str) : ∀ {k : Keyring}, k.Consistent → k.WellFormed →
    Ends (anyUnknown names) k (fun r k' => k.Same k' ∧ (r = true ↔ ∃ name ∈ names, k.knows name = false))
      fun _ _ => False := by
  induction names with
  | nil => exact fun h _ => ends_pure ⟨.refl h, by simp⟩
  | cons name names ih =>
    intro k h hw
    refine (key_returns h hw name).bind fun held k' hheld => ?_
    obtain ⟨hsame, hheld⟩ := hheld
    cases held with
    | none =>
      refine ends_pure ⟨hsame, iff_of_true rfl ⟨name, List.mem_cons_self .., ?_⟩⟩
      cases shared_cases hw name with
      | inl hkey =>
        obtain ⟨key, hkey⟩ := hkey
        cases hkey.symm.trans hheld
      | inr hnone => exact hnone.2
    | some key =>
      have hknows := (shared_knows hheld).symm
      refine (ih hsame.consistent (hsame.wellFormed hw)).mono (fun r k'' hr => ?_) fun _ _ hx => hx
      refine ⟨hsame.trans hr.1, hr.2.trans ⟨fun hmem => ?_, fun hmem => ?_⟩⟩
      · obtain ⟨u, hu, hnot⟩ := hmem
        exact ⟨u, List.mem_cons_of_mem _ hu, (hsame.knows u).symm.trans hnot⟩
      · obtain ⟨u, hu, hnot⟩ := hmem
        cases hu with
        | head =>
          rw [hknows] at hnot
          cases hnot
        | tail _ hu => exact ⟨u, hu, (hsame.knows u).trans hnot⟩

/-- The dictionary it returns. -/
theorem sealEach_returns (text sender : Str) (names : List Str) {k : Keyring} (h : k.Consistent) (hw : k.WellFormed)
    (hknows : ∀ name ∈ names, k.knows name = true) :
    Ends (sealEach text sender names) k
      (fun envelopes k' => k.Same k' ∧ envelopes.map Prod.fst = names ∧ ∀ e ∈ envelopes, k.SealedUnder text sender e)
      fun _ _ => ¬ Encodes text sender := by
  refine (sealEach_ends text sender h hknows).mono (fun _ _ hq => hq) fun _ _ hx hs => ?_
  exact hx.2 ⟨fun u _ => hw u, hs⟩

/-- The first line of `seal_for_members` puts the sender's own key where it is found. -/
theorem Fresh.named_consistent {k : Keyring} (h : k.Fresh) (sender : Str) : (k.named sender).Consistent := by
  refine ⟨h.selfKey sender, fun _ => ?_⟩
  show (PyDict.get (k.named sender).pubkeys sender).isSome = true
  rw [named_get_self]
  rfl

/-- **`seal_for_members`**, when no key it meets is malformed: `none` if somebody's
key is missing, and else a sealed copy for everyone, or an exception for what has no
encoding. -/
theorem sealForMembers_returns {k : Keyring} (h : k.Fresh) (members : List Str) (text sender : Str)
    (hw : (k.named sender).WellFormed) :
    Ends (sealForMembers members text sender) k
      (fun r k' => k.Grows sender k' ∧
        ((r = none ∧ ∃ name ∈ members, name ≠ sender ∧ k.knows name = false) ∨
          (¬ ∃ name ∈ members, name ≠ sender ∧ k.knows name = false) ∧ ∃ envelopes, r = some envelopes ∧
            envelopes.map Prod.fst = Str.sorted (sender :: members).dedup ∧
            ∀ e ∈ envelopes, (k.named sender).SealedUnder text sender e))
      fun _ _ => (¬ ∃ name ∈ members, name ≠ sender ∧ k.knows name = false) ∧ ¬ Encodes text sender := by
  have hcons := h.named_consistent sender
  have hgrows : k.Grows sender (k.named sender) := ⟨rfl, fun _ => rfl, hcons⟩
  have hmem : ∀ {name}, name ∈ Str.sorted (sender :: members).dedup ↔ name = sender ∨ name ∈ members := by
    intro name
    rw [Str.mem_sorted, List.mem_dedup, List.mem_cons]
  -- who is unknown once the sender is not
  have hunknown : (∃ name ∈ Str.sorted (sender :: members).dedup, (k.named sender).knows name = false) ↔
      ∃ name ∈ members, name ≠ sender ∧ k.knows name = false := by
    constructor
    · intro hex
      obtain ⟨name, hname, hnot⟩ := hex
      have hne : name ≠ sender := by
        intro hs
        rw [hs, hgrows.own] at hnot
        cases hnot
      exact ⟨name, (hmem.mp hname).resolve_left hne, hne, (hgrows.knows hne).symm.trans hnot⟩
    · intro hex
      obtain ⟨name, hname, hne, hnot⟩ := hex
      exact ⟨name, hmem.mpr (.inr hname), (hgrows.knows hne).trans hnot⟩
  refine ends_modify_bind ?_
  refine Ends.bind ((anyUnknown_returns _ hcons hw).mono (fun _ _ hq => hq) fun _ _ hx => hx.elim) fun r k₁ hr => ?_
  obtain ⟨hsame, hr⟩ := hr
  rw [hunknown] at hr
  cases r with
  | true => exact ends_pure ⟨hgrows.trans_same hsame, .inl ⟨rfl, hr.mp rfl⟩⟩
  | false =>
    have hnobody : ¬ ∃ name ∈ members, name ≠ sender ∧ k.knows name = false := fun hex => by cases hr.mpr hex
    have hall : ∀ name ∈ Str.sorted (sender :: members).dedup, k₁.knows name = true := by
      intro name hname
      rw [hsame.knows]
      by_contra hnot
      exact hnobody (hunknown.mp ⟨name, hname, Bool.not_eq_true _ ▸ hnot⟩)
    have heach := sealEach_returns text sender _ hsame.consistent (hsame.wellFormed hw) hall
    refine Ends.bind (heach.mono (fun _ _ hq => hq) fun _ _ hx => ⟨hnobody, hx⟩) fun envelopes k₂ he => ?_
    obtain ⟨hsame', hnames, henvelopes⟩ := he
    exact ends_pure ⟨(hgrows.trans_same hsame).trans_same hsame',
      .inr ⟨hnobody, envelopes, rfl, hnames, fun e he => hsame.sealedUnder (henvelopes e he)⟩⟩

/-! ## Opening an envelope -/

/-- The keyring opens an envelope of the sender to this text. -/
def OpensTo (k : Keyring) (sender : Str) (sealed : Str × Str) (text : Str) : Prop :=
  (exec (open' (.str sender) (.str sealed.1) (.str sealed.2) (.str sender)) k).1 = .ok (some text)

/-- The key of a public key that is held. -/
theorem Fresh.keyOf_held {k : Keyring} (h : k.Fresh) {user pubkey : Str} (hget : PyDict.get k.pubkeys user = some pubkey)
    {derived : Key} (hkey : Crypto.keyFor k.identity pubkey = .ok derived) : k.keyOf user = .ok (some derived) := by
  have hheld : k.held user = some pubkey := by
    unfold held
    rw [get_adopt, hget]
    split
    · rfl
    · rfl
  rw [h.keyOf_eq, hheld]
  dsimp only
  rw [hkey]

theorem Fresh.opensTo {k : Keyring} (h : k.Fresh) {sender pubkey : Str}
    (hget : PyDict.get k.pubkeys sender = some pubkey) {derived : Key}
    (hkey : Crypto.keyFor k.identity pubkey = .ok derived) {sealed : Str × Str} {text : Str}
    (hopen : Crypto.open' derived (.str sealed.1) (.str sealed.2) (.str sender) = .plaintext text) :
    k.OpensTo sender sealed text := by
  have hheld : (exec (key sender) k).1 = .ok (some derived) :=
    (exec_key_keyOf sender k).1.trans (h.keyOf_held hget hkey)
  unfold OpensTo
  rw [exec_open_of_key hheld, hopen]
  rfl

omit [Crypto] in
theorem mem_of_lastRemembered {user pubkey : Str} (calls : List KeyringCall) : ∀ known : Option Str,
    calls.foldl (KeyringCall.note user) known = some pubkey →
      known = some pubkey ∨ KeyringCall.remember user pubkey ∈ calls := by
  induction calls with
  | nil => exact fun _ h => .inl h
  | cons c calls ih =>
    intro known h
    cases ih _ h with
    | inr hmem => exact .inr (List.mem_cons_of_mem _ hmem)
    | inl hnote =>
      cases c with
      | remember v p =>
        have hnote : (if v = user then some p else known) = some pubkey := hnote
        by_cases hv : v = user
        · rw [if_pos hv] at hnote
          obtain rfl := Option.some.inj hnote
          exact .inr (hv ▸ List.mem_cons_self ..)
        · rw [if_neg hv] at hnote
          exact .inl hnote
      | forget v =>
        have hnote : (if v = user then none else known) = some pubkey := hnote
        by_cases hv : v = user
        · rw [if_pos hv] at hnote
          cases hnote
        · rw [if_neg hv] at hnote
          exact .inl hnote
      | _ => exact .inl hnote

/-- After calls that remembered only public keys that are ones, and no other
person's under the sender's name, nothing malformed is met. -/
theorem Current.named_wellFormed {own : Identity} {calls : List KeyringCall} {k : Keyring}
    (h : Current own (lastRemembered calls) k) (sender : Str)
    (hown : ∃ key, Crypto.keyFor own (Crypto.publicB64 own) = .ok key)
    (hwell : ∀ user pubkey, KeyringCall.remember user pubkey ∈ calls → ∃ key, Crypto.keyFor own pubkey = .ok key) :
    (k.named sender).WellFormed := by
  have hnamed : Current own (lastRemembered calls) (k.named sender) := h.selfKey sender
  intro user pubkey hget
  rw [hnamed.identity, hnamed.held user pubkey hget]
  cases hknown : lastRemembered calls user with
  | none => exact hown
  | some p => exact hwell user p ((mem_of_lastRemembered calls none hknown).resolve_left nofun)

/-- What is sealed under a public key opens for whoever it belongs to. -/
theorem SealedUnder.opensTo {k m : Keyring} {text sender name : Str} {sealed : Str × Str}
    (h : k.SealedUnder text sender (name, sealed))
    (hexchange : ∀ a b : Identity, ∃ key,
      Crypto.keyFor a (Crypto.publicB64 b) = .ok key ∧ Crypto.keyFor b (Crypto.publicB64 a) = .ok key)
    (hround : Crypto.RoundTrip text sender)
    (hm : m.Fresh) (hname : PyDict.get k.pubkeys name = some (Crypto.publicB64 m.identity))
    (hsender : PyDict.get m.pubkeys sender = some (Crypto.publicB64 k.identity)) : m.OpensTo sender sealed text := by
  obtain ⟨key, nonce, hkey, hsealed⟩ := h
  obtain ⟨key', hours, htheirs⟩ := hexchange k.identity m.identity
  -- both sides of the exchange come to the one key
  have hsame : key' = key := by
    have hkey : k.shared name = .ok (some key) := hkey
    unfold shared at hkey
    rw [hname] at hkey
    dsimp only at hkey
    rw [hours] at hkey
    exact Option.some.inj (Except.ok.inj hkey)
  subst hsame
  exact hm.opensTo hsender htheirs (hround key' nonce sealed hsealed)

/-- One call, on a keyring that holds what was last remembered. -/
theorem Current.sealForMembers_returns {own : Identity} {calls : List KeyringCall} {k : Keyring}
    (h : Current own (lastRemembered calls) k) (members : List Str) {text sender : Str}
    (hexchange : ∀ a b : Identity, ∃ key,
      Crypto.keyFor a (Crypto.publicB64 b) = .ok key ∧ Crypto.keyFor b (Crypto.publicB64 a) = .ok key)
    (hround : Crypto.RoundTrip text sender)
    (hwell : ∀ user pubkey, KeyringCall.remember user pubkey ∈ calls → ∃ key, Crypto.keyFor own pubkey = .ok key)
    (hforeign : ∀ pubkey, lastRemembered calls sender = some pubkey → pubkey = Crypto.publicB64 own) :
    Ends (sealForMembers members text sender) k
      (fun r k' => (r = none ∧ ∃ name ∈ members, name ≠ sender ∧ k.knows name = false) ∨
        (¬ ∃ name ∈ members, name ≠ sender ∧ k.knows name = false) ∧ ∃ envelopes, r = some envelopes ∧
          Encodes text sender ∧ (envelopes.map Prod.fst).Nodup ∧ (∀ name, name ∈ envelopes.map Prod.fst ↔ name ∈ members ∨ name = sender) ∧
          (∀ name sealed, (name, sealed) ∈ envelopes → ∀ m : Keyring, m.Fresh →
            PyDict.get k.pubkeys name = some (Crypto.publicB64 m.identity) →
            PyDict.get m.pubkeys sender = some (Crypto.publicB64 own) → m.OpensTo sender sealed text) ∧
          ∀ sealed, (sender, sealed) ∈ envelopes → k'.OpensTo sender sealed text)
      fun _ _ => (¬ ∃ name ∈ members, name ≠ sender ∧ k.knows name = false) ∧ ¬ Encodes text sender := by
  obtain ⟨_, hself, -⟩ := hexchange own own
  have hidentity : (k.named sender).identity = own := h.identity
  -- the sender's own public key is what the keyring has for them, or comes to have in `seal_for_members`
  have hown : PyDict.get (k.named sender).pubkeys sender = some (Crypto.publicB64 own) := by
    rw [named_get_self, h.identity]
    cases hget : PyDict.get k.pubkeys sender with
    | none => rfl
    | some pubkey =>
      have hheld := h.held sender pubkey hget
      cases hknown : lastRemembered calls sender with
      | none => rw [hheld, hknown]; rfl
      | some p =>
        rw [hheld, hknown]
        exact congrArg some (hforeign p hknown)
  refine (Keyring.sealForMembers_returns h.fresh members text sender
    (h.named_wellFormed sender ⟨_, hself⟩ hwell)).mono (fun r k' hr => ?_) fun _ _ hx => hx
  obtain ⟨hgrows, hr⟩ := hr
  refine hr.imp_right fun hr => ?_
  obtain ⟨hnobody, envelopes, rfl, hnames, hsealed⟩ := hr
  -- the sender is among the names, so at least one envelope was sealed
  have hencodes : Encodes text sender := by
    have hmem : sender ∈ envelopes.map Prod.fst := by
      rw [hnames]
      exact Str.mem_sorted.mpr (List.mem_dedup.mpr (List.mem_cons_self ..))
    obtain ⟨e, he, -⟩ := List.mem_map.mp hmem
    exact (hsealed e he).encodes
  refine ⟨hnobody, envelopes, rfl, hencodes, ?_, fun name => ?_, fun name sealed he m hm hname hsender => ?_, fun sealed he => ?_⟩
  · rw [hnames]
    exact Str.sorted_nodup (List.nodup_dedup _)
  · rw [hnames, Str.mem_sorted, List.mem_dedup, List.mem_cons]
    exact Or.comm
  · have hget : PyDict.get (k.named sender).pubkeys name = some (Crypto.publicB64 m.identity) := by
      by_cases hs : name = sender
      · rw [hs] at hname ⊢
        rw [named_get_self, hname]
        rfl
      · rw [named_get hs]
        exact hname
    exact (hsealed _ he).opensTo hexchange hround hm hget (hidentity ▸ hsender)
  · have hsame : k'.identity = own := hgrows.identity.trans h.identity
    have hheld : PyDict.get k'.pubkeys sender = some (Crypto.publicB64 own) := (hgrows.pubkeys sender).trans hown
    exact (hsealed _ he).opensTo hexchange hround hgrows.consistent.derived (hsame ▸ hown) (hidentity ▸ hheld)

/-- What sealing for a room is to come to, for the keyring `k` of the identity `own`:
`none` exactly when the public key of some other member is not known, and else names
that are the members and the sender, each of whom opens their envelope: a member whose
public key was right and who holds the sender's, and the sender. -/
structure AllOrNothing (own : Identity) (k : Keyring) (members : List Str) (text sender : Str) : Prop where
  none_iff : (exec (sealForMembers members text sender) k).1 = .ok none ↔
    ∃ name ∈ members, name ≠ sender ∧ k.knows name = false
  complete : k.missingKeys (members.filter fun name => name ≠ sender) = [] →
    (exec (sealForMembers members text sender) k).1 ≠ .ok none
  opens : (exec (sealForMembers members text sender) k).1 ≠ .ok none →
    ∃ envelopes, (exec (sealForMembers members text sender) k).1 = .ok (some envelopes) ∧
      (envelopes.map Prod.fst).Nodup ∧ (∀ name, name ∈ envelopes.map Prod.fst ↔ name ∈ members ∨ name = sender) ∧
      (∀ name sealed, (name, sealed) ∈ envelopes → ∀ other me' urandom' calls',
        let m := Keyring.applyAll { identity := other, me := me', urandom := urandom' } calls'
        PyDict.get k.pubkeys name = some (Crypto.publicB64 other) →
        PyDict.get m.pubkeys sender = some (Crypto.publicB64 own) → m.OpensTo sender sealed text) ∧
      ∀ sealed, (sender, sealed) ∈ envelopes →
        (exec (sealForMembers members text sender) k).2.OpensTo sender sealed text

/-- **Room sealing is all or nothing, and opens for everyone**, after any calls on a new
keyring, exactly if the text and the sender's name have an encoding or somebody's key is
missing: `seal` raises for a lone surrogate, out of `seal_for_members`. -/
theorem applyAll_sealForMembers_iff (own : Identity) (me : Str) (urandom : Nat → List UInt8)
    (calls : List KeyringCall) (members : List Str) (text sender : Str)
    (hexchange : ∀ a b : Identity, ∃ key,
      Crypto.keyFor a (Crypto.publicB64 b) = .ok key ∧ Crypto.keyFor b (Crypto.publicB64 a) = .ok key)
    (hround : Crypto.RoundTrip text sender)
    (hwell : ∀ user pubkey, KeyringCall.remember user pubkey ∈ calls → ∃ key, Crypto.keyFor own pubkey = .ok key)
    (hforeign : ∀ pubkey, lastRemembered calls sender = some pubkey → pubkey = Crypto.publicB64 own) :
    let k := Keyring.applyAll { identity := own, me, urandom } calls
    AllOrNothing own k members text sender ↔
      Encodes text sender ∨ ∃ name ∈ members, name ≠ sender ∧ k.knows name = false := by
  intro k
  have hends := (current_applyAll own me urandom calls).sealForMembers_returns members hexchange hround hwell hforeign
  unfold Ends at hends
  cases hrun : exec (sealForMembers members text sender) k with
  | mk r k' =>
    rw [show exec (sealForMembers members text sender) _ = _ from hrun] at hends
    cases r with
    | error e =>
      -- it raised: neither `none` nor a map
      obtain ⟨hnobody, hno⟩ := hends
      refine iff_of_false (fun h => ?_) (not_or.mpr ⟨hno, hnobody⟩)
      have hne : (exec (sealForMembers members text sender) k).1 ≠ .ok none := by
        rw [hrun]
        exact nofun
      obtain ⟨envelopes, hsome, -⟩ := h.opens hne
      rw [hrun] at hsome
      cases hsome
    | ok r =>
      cases hends with
      | inl hnone =>
        obtain ⟨rfl, hex⟩ := hnone
        refine iff_of_true ⟨?_, fun hcomplete => ?_, ?_⟩ (.inr hex)
        · rw [hrun]
          exact iff_of_true rfl hex
        · obtain ⟨name, hname, hne, hnot⟩ := hex
          have hknows := missingKeys_eq_nil.mp hcomplete name (List.mem_filter.mpr ⟨hname, decide_eq_true hne⟩)
          rw [hnot] at hknows
          cases hknows
        · intro hne
          rw [hrun] at hne
          exact absurd rfl hne
      | inr hall =>
        obtain ⟨hnobody, envelopes, rfl, hencodes, hnodup, hnames, hmembers, hsender⟩ := hall
        refine iff_of_true ⟨?_, fun _ => ?_, fun _ => ?_⟩ (.inl hencodes)
        · rw [hrun]
          exact iff_of_false nofun hnobody
        · rw [hrun]
          exact nofun
        · rw [hrun]
          refine ⟨envelopes, rfl, hnodup, hnames, ?_, hsender⟩
          intro name sealed he other me' urandom' calls' m hname hheld
          have hm := current_applyAll other me' urandom' calls'
          exact hmembers name sealed he m hm.fresh (hm.identity.symm ▸ hname) hheld

end Keyring

namespace Sample

/-- Bytes as characters, one each. -/
def chars (bytes : List UInt8) : Str := bytes.map fun b => Fin.ofNat 0x110000 b.toNat

/-- An exchange that adds byte by byte; a public key is a `0` and its bytes. What is
sealed is the key and the text backwards. -/
@[reducible] def exchangeCrypto : Crypto where
  publicB64 identity := 0 :: chars identity
  keyFor identity pubkey := match pubkey with
    | [] => .error .valueError
    | _ :: cs => .ok (List.zipWith (fun b c => b + UInt8.ofNat c.val) identity cs)
  encrypt key text _ nonce := (chars key ++ text.reverse, 0 :: chars nonce)
  open' key ciphertext _ _ := match ciphertext with
    | .str s => if chars key <+: s then .plaintext (s.drop key.length).reverse else .failed
    | _ => .failed

theorem exchangeCrypto_symmetric (a b : Identity) : ∃ key,
    exchangeCrypto.keyFor a (exchangeCrypto.publicB64 b) = .ok key ∧
      exchangeCrypto.keyFor b (exchangeCrypto.publicB64 a) = .ok key := by
  have hadd : ∀ a b : Identity, List.zipWith (fun b c : UInt8 => b + UInt8.ofNat (Fin.ofNat 0x110000 c.toNat).val) a b =
      List.zipWith (fun b c => b + c) a b := by
    intro a b
    refine congrArg (fun f => List.zipWith f a b) (funext fun x => funext fun y => ?_)
    have hy : (Fin.ofNat 0x110000 y.toNat).val = y.toNat := Nat.mod_eq_of_lt (by have := y.toNat_lt; omega)
    rw [hy, UInt8.ofNat_toNat]
  refine ⟨List.zipWith (fun b c => b + c) a b, ?_, ?_⟩
  · show Except.ok (List.zipWith _ a (chars b)) = _
    rw [chars, List.zipWith_map_right, hadd]
  · show Except.ok (List.zipWith _ b (chars a)) = _
    rw [chars, List.zipWith_map_right, hadd, List.zipWith_comm]
    simp only [UInt8.add_comm]

theorem exchangeCrypto_opens (text sender : Str) : exchangeCrypto.RoundTrip text sender := by
  intro key nonce sealed hsealed
  obtain ⟨-, rfl⟩ := exchangeCrypto.seal_eq_ok hsealed
  show (if chars key <+: chars key ++ text.reverse then
    Opened.plaintext ((chars key ++ text.reverse).drop key.length).reverse else .failed) = _
  have hlength : key.length = (chars key).length := (List.length_map _).symm
  rw [if_pos (List.prefix_append ..), hlength, List.drop_left, List.reverse_reverse]

end Sample

section Concrete

open Keyring Sample

attribute [local instance] exchangeCrypto

/-- `b`'s key is remembered. -/
def knowsB : List KeyringCall := [.remember "b" (exchangeCrypto.publicB64 [2])]

/-- `a` and `b` in a room. -/
theorem applyAll_sealForMembers_two :
    ∃ envelopes, (exec (sealForMembers ["b", "a"] "hi" "a")
        (applyAll { identity := [1], urandom := fun _ => [] } knowsB)).1 = .ok (some envelopes) ∧
    ∀ sealed, (("b" : Str), sealed) ∈ envelopes →
      (applyAll { identity := [2], urandom := fun _ => [] } [.remember "a" (exchangeCrypto.publicB64 [1])]).OpensTo
        "a" sealed "hi" := by
  have hall := (applyAll_sealForMembers_iff [1] [] (fun _ => []) knowsB ["b", "a"] "hi" "a" exchangeCrypto_symmetric
    (exchangeCrypto_opens _ _)
    (fun user pubkey h => by
      obtain ⟨rfl, rfl⟩ := KeyringCall.remember.inj (List.mem_singleton.mp h)
      exact ⟨_, rfl⟩)
    (fun pubkey h => by cases h)).mpr (.inl (by decide))
  obtain ⟨envelopes, henvelopes, -, -, hmembers, -⟩ := hall.opens (hall.complete (by decide))
  exact ⟨envelopes, henvelopes, fun sealed he => hmembers "b" sealed he [2] [] (fun _ => [])
    [.remember "a" (exchangeCrypto.publicB64 [1])] (by decide) (by decide)⟩

/-- A text that is half of a pair of surrogates gets neither `none` nor a map. -/
theorem sealForMembers_surrogate :
    ¬ AllOrNothing [1] (applyAll { identity := [1], urandom := fun _ => [] } knowsB) ["b", "a"] [0xD800] "a" := by
  intro h
  obtain ⟨envelopes, hsome, -⟩ := h.opens (by decide)
  revert hsome
  rw [show (exec (sealForMembers ["b", "a"] [0xD800] "a")
    (applyAll { identity := [1], urandom := fun _ => [] } knowsB)).1 = .error (.py .unicodeEncodeError) from by decide]
  exact nofun

end Concrete

end Ciphertext
