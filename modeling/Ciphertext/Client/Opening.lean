import Ciphertext.Client.Controller

/-!
# Which rows can be read

A row of a HISTORY_RESULT becomes a message unless something in it raises: it is
no object, its time is no number, or its body raises when it is opened. What a
row opens with is derived and kept the first time, so the rows before it do not
matter (`storedMessages_ends`): the keyring as it was decides.

`storedMessages_ends` is what `Legible`, `LateKeys` and `OwnRows` use: all rows become
messages, each with the text it has under that keyring, or the first that cannot be read
raises. Deriving a key changes nothing that decides this, because the derived keys come
from the public ones (`Keyring.Consistent`).
-/

namespace Ciphertext

open Act

namespace Keyring

variable [Crypto]

/-- The key `_key` comes to: the derived one, or what the public key gives. -/
def keyOf (k : Keyring) (user : Str) : Except ClientErr (Option Key) :=
  match PyDict.get k.derived user with
  | some derived => .ok (some derived)
  | none =>
    match PyDict.get (adopt user k).pubkeys user with
    | none => .ok none
    | some pubkey => match Crypto.keyFor k.identity pubkey with
      | .ok derived => .ok (some derived)
      | .error e => .error (.py e)

/-- Nothing any key comes to is different. -/
def SameKeys (k k' : Keyring) : Prop := ∀ user, k'.keyOf user = k.keyOf user

/-- Adopting our own key touches only the public keys. -/
theorem adopt_rest (user : Str) (k : Keyring) :
    (adopt user k).identity = k.identity ∧ (adopt user k).me = k.me ∧ (adopt user k).derived = k.derived := by
  unfold adopt
  split
  · exact ⟨rfl, rfl, rfl⟩
  · exact ⟨rfl, rfl, rfl⟩

/-- The one entry that may be new is our own. -/
theorem get_adopt (user v : Str) (k : Keyring) :
    PyDict.get (adopt user k).pubkeys v =
      if (user ≠ [] ∧ user = k.me) ∧ v = user then some ((PyDict.get k.pubkeys v).getD (Crypto.publicB64 k.identity))
      else PyDict.get k.pubkeys v := by
  unfold adopt
  by_cases hme : user ≠ [] ∧ user = k.me
  · obtain ⟨hne, hme⟩ := hme
    subst hme
    rw [if_pos (by simpa using hne)]
    show PyDict.get (PyDict.setDefault k.pubkeys k.me (Crypto.publicB64 k.identity)) v = _
    unfold PyDict.setDefault
    by_cases hv : v = k.me
    · subst hv
      by_cases hhas : PyDict.has k.pubkeys k.me = true
      · obtain ⟨p, hp⟩ := Option.isSome_iff_exists.mp hhas
        rw [if_pos hhas, if_pos ⟨⟨hne, rfl⟩, rfl⟩, hp]
        rfl
      · rw [if_neg hhas, if_pos ⟨⟨hne, rfl⟩, rfl⟩, PyDict.get_insert_self, Option.not_isSome_iff_eq_none.mp hhas]
        rfl
    · rw [if_neg fun h : _ ∧ v = k.me => hv h.2]
      by_cases hhas : PyDict.has k.pubkeys k.me = true
      · rw [if_pos hhas]
      · rw [if_neg hhas]
        exact PyDict.get_insert_ne _ _ hv
  · rw [if_neg (by simpa using hme), if_neg (fun h => hme h.1)]

/-- Adopting the own name shows in nobody's key. -/
theorem adopt_sameKeys (user : Str) (k : Keyring) : k.SameKeys (adopt user k) := by
  obtain ⟨hidentity, hme, hderived⟩ := adopt_rest user k
  intro v
  have hget : PyDict.get (adopt v (adopt user k)).pubkeys v = PyDict.get (adopt v k).pubkeys v := by
    rw [get_adopt, get_adopt, get_adopt, hme, hidentity]
    by_cases hv : (v ≠ [] ∧ v = k.me) ∧ v = v
    · rw [if_pos hv, if_pos hv]
      split
      · rfl
      · rfl
    · rw [if_neg hv, if_neg hv, if_neg]
      intro h
      obtain ⟨h, rfl⟩ := h
      exact hv ⟨h, rfl⟩
  unfold keyOf
  rw [hget, hidentity, hderived]

/-- Nor does keeping the key that was derived. -/
theorem derive_sameKeys {user : Str} {k : Keyring} {derived : Key} (h : k.keyOf user = .ok (some derived)) :
    k.SameKeys { k with derived := PyDict.insert k.derived user derived } := by
  intro v
  by_cases hv : v = user
  · subst hv
    rw [h]
    unfold keyOf
    dsimp only
    rw [PyDict.get_insert_self]
  · have hget : PyDict.get (adopt v { k with derived := PyDict.insert k.derived user derived }).pubkeys v =
        PyDict.get (adopt v k).pubkeys v := (get_adopt v v _).trans (get_adopt v v k).symm
    unfold keyOf
    dsimp only
    rw [PyDict.get_insert_ne _ _ hv, hget]

/-- `_key` answers what `keyOf` says, and no key comes to anything else afterwards. -/
theorem exec_key_keyOf (user : Str) (k : Keyring) :
    (exec (key user) k).1 = k.keyOf user ∧ k.SameKeys (exec (key user) k).2 := by
  obtain ⟨hidentity, hme, hderived⟩ := adopt_rest user k
  have hsame := adopt_sameKeys user k
  unfold key keyOf
  rw [exec_bind, exec_modify]
  dsimp only
  rw [exec_bind, exec_get]
  dsimp only
  rw [hderived, hidentity]
  cases hd : PyDict.get k.derived user with
  | some derived => exact ⟨rfl, hsame⟩
  | none =>
    cases hp : PyDict.get (adopt user k).pubkeys user with
    | none => exact ⟨rfl, hsame⟩
    | some pubkey =>
      dsimp only
      cases hkey : Crypto.keyFor k.identity pubkey with
      | error e => exact ⟨rfl, hsame⟩
      | ok derived =>
        have hthen : (adopt user k).keyOf user = .ok (some derived) := by
          rw [hsame user, keyOf, hd]
          dsimp only
          rw [hp]
          dsimp only
          rw [hkey]
        exact ⟨rfl, fun v => (derive_sameKeys hthen v).trans (hsame v)⟩

/-- Opening a body does not raise: a key that there is to try is one, and does not
raise on this. -/
def Opens (k : Keyring) (user : Str) (ciphertext nonce sender : Json) : Prop :=
  ∃ held, k.keyOf user = .ok held ∧ ∀ key e, held = some key → Crypto.open' key ciphertext nonce sender ≠ .raised e

/-- So what can be opened is the same. -/
theorem SameKeys.opens {k k' : Keyring} (h : k.SameKeys k') (user : Str) (ciphertext nonce sender : Json) :
    k'.Opens user ciphertext nonce sender ↔ k.Opens user ciphertext nonce sender := by
  unfold Opens
  rw [h user]

/-- `_key`, in a judgement. -/
theorem key_ends_keyOf (user : Str) (k : Keyring) :
    Ends (key user) k (fun held k' => k.SameKeys k' ∧ k.keyOf user = .ok held) fun e _ => k.keyOf user = .error e := by
  obtain ⟨hres, hsame⟩ := exec_key_keyOf user k
  refine (ends_exec (key user) k).mono (fun held k' h => ?_) fun e k' h => ?_
  · rw [h] at hres hsame
    exact ⟨hsame, hres.symm⟩
  · rw [h] at hres
    exact hres.symm

/-- **Opening succeeds exactly for what the keyring opens**. -/
theorem open_ends (user : Str) (ciphertext nonce sender : Json) (k : Keyring) :
    Ends (open' (.str user) ciphertext nonce sender) k
      (fun _ k' => k.SameKeys k' ∧ k.Opens user ciphertext nonce sender)
      fun _ _ => ¬ k.Opens user ciphertext nonce sender := by
  refine ((key_ends_keyOf user k).mono (fun _ _ h => h) fun e _ h hopens => ?_).bind fun held k' h => ?_
  · obtain ⟨held, hheld, -⟩ := hopens
    cases h.symm.trans hheld
  · obtain ⟨hsame, hheld⟩ := h
    cases held with
    | none => exact ends_pure ⟨hsame, none, hheld, nofun⟩
    | some key =>
      have hno : ∀ r, Crypto.open' key ciphertext nonce sender = r → (∀ e, r ≠ .raised e) →
          k.Opens user ciphertext nonce sender := by
        intro r hopen hr
        refine ⟨some key, hheld, fun key' e hkey hraise => ?_⟩
        obtain rfl := Option.some.inj hkey
        exact hr e (hopen.symm.trans hraise)
      dsimp only
      cases hopen : Crypto.open' key ciphertext nonce sender with
      | raised e =>
        refine ends_throw fun hopens => ?_
        obtain ⟨held, hheld', h⟩ := hopens
        exact h key e (Except.ok.inj (hheld'.symm.trans hheld)) hopen
      | plaintext text => exact ends_pure ⟨hsame, hno _ hopen nofun⟩
      | failed => exact ends_pure ⟨hsame, hno _ hopen nofun⟩

end Keyring

namespace ChatController

variable [Crypto] [Runtime]

/-- The body of a row can be looked at. -/
def BodyOpens (keyring : Option Keyring) (key me : Str) (row : Dict) : Prop :=
  ∀ k, keyring = some k → (Json.get row "n").truthy = true →
    k.Opens (if ((Json.get row "from").orElse (.str [])).pyStr ≠ me then ((Json.get row "from").orElse (.str [])).pyStr
        else if key.isRoom then me else key)
      (.str ((Json.get row "body").orElse (.str [])).pyStr) (.str (Json.get row "n").pyStr)
      (.str ((Json.get row "from").orElse (.str [])).pyStr)

/-- A row becomes a message. -/
def Reads (keyring : Option Keyring) (key me : Str) : Json → Prop
  | .dict row => BodyOpens keyring key me row ∧ ∃ ts, ((Json.get row "ts").orElse (.int 0)).pyInt = .ok ts
  | _ => False

/-- The keyring has more derived, at most. -/
def KeepsKeys (c c' : ChatController) : Prop := Option.Rel Keyring.SameKeys c.keyring c'.keyring

omit [Runtime] in
theorem KeepsKeys.refl (c : ChatController) : c.KeepsKeys c := by
  unfold KeepsKeys
  cases c.keyring with
  | none => exact .none
  | some k => exact .some fun _ => rfl

/-- So the same rows can be read. -/
theorem KeepsKeys.reads {c c' : ChatController} (h : c.KeepsKeys c') (key me : Str) (row : Json) :
    Reads c'.keyring key me row ↔ Reads c.keyring key me row := by
  unfold KeepsKeys at h
  cases hk : c.keyring with
  | none =>
    rw [hk] at h
    cases hk' : c'.keyring with
    | none => exact .rfl
    | some k' => rw [hk'] at h; cases h
  | some k =>
    rw [hk] at h
    cases hk' : c'.keyring with
    | none => rw [hk'] at h; cases h
    | some k' =>
      rw [hk'] at h
      cases h with
      | some hsame =>
        cases row with
        | dict row =>
          refine and_congr_left' ⟨fun h k₁ hk₁ hn => ?_, fun h k₁ hk₁ hn => ?_⟩
          · obtain rfl := Option.some.inj hk₁
            exact (hsame.opens _ _ _ _).mp (h k' rfl hn)
          · obtain rfl := Option.some.inj hk₁
            exact (hsame.opens _ _ _ _).mpr (h k rfl hn)
        | _ => exact .rfl

omit [Runtime] in
/-- What is said of the keyring is said of the controller that has it. -/
theorem onKeyring_ends {α : Type} {c : ChatController} {k : Keyring} {m : Keyring.KeyringM α} {P : Prop}
    (hk : c.keyring = some k) (h : Ends m k (fun _ k' => k.SameKeys k' ∧ P) fun _ _ => ¬ P) :
    Ends (onKeyring k m) c (fun _ c' => c.KeepsKeys c' ∧ P) fun _ _ => ¬ P := by
  unfold Ends at h ⊢
  unfold onKeyring
  rw [exec_bind, exec_modify]
  dsimp only
  cases hm : exec m k with
  | mk r k' =>
    rw [hm] at h
    cases r with
    | error e => exact h
    | ok a =>
      refine ⟨?_, h.2⟩
      show Option.Rel Keyring.SameKeys c.keyring (some k')
      rw [hk]
      exact .some h.1

/-- The body of a row is had exactly if it opens. -/
theorem storedPlaintext_ends (row : Dict) (key me : Str) (c : ChatController) :
    Ends (storedPlaintext row key me) c (fun _ c' => c.KeepsKeys c' ∧ BodyOpens c.keyring key me row)
      fun _ _ => ¬ BodyOpens c.keyring key me row := by
  unfold storedPlaintext
  dsimp only
  refine ends_get ?_
  cases hk : c.keyring with
  | none => exact ends_pure ⟨.refl c, nofun⟩
  | some k =>
    dsimp only
    by_cases hn : (Json.get row "n").truthy = true
    · rw [if_neg (by simpa using hn)]
      refine ((onKeyring_ends hk (Keyring.open_ends _ _ _ _ k)).mono (fun _ _ h => h) fun e _ h hopens => ?_).bind
        fun text c' h => ?_
      · exact h (hopens k rfl hn)
      · have hopens : BodyOpens (some k) key me row := by
          intro k₁ hk₁ _
          obtain rfl := Option.some.inj hk₁
          exact h.2
        cases text with
        | none => exact ends_pure ⟨h.1, hopens⟩
        | some text => exact ends_pure ⟨h.1, hopens⟩
    · rw [if_pos (by simpa using hn)]
      exact ends_pure ⟨.refl c, fun _ _ hn' => absurd hn' hn⟩

omit [Crypto] in
/-- Whether a time is a number does not depend on the clock. -/
theorem ts_ends (ts : Json) (now : Int) (c : ChatController) :
    Ends (lift (ts.orElse (.int now)).pyInt) c (fun _ c' => c' = c ∧ ∃ n, (ts.orElse (.int 0)).pyInt = .ok n)
      fun _ _ => ¬ ∃ n, (ts.orElse (.int 0)).pyInt = .ok n := by
  unfold Json.orElse
  by_cases hts : ts.truthy = true
  · rw [if_pos hts, if_pos hts]
    cases hn : ts.pyInt with
    | ok n => exact ends_pure ⟨rfl, n, rfl⟩
    | error e => exact ends_throw nofun
  · rw [if_neg hts, if_neg hts]
    exact ends_pure ⟨rfl, 0, rfl⟩

/-- What becomes of a row. -/
def StoredAs (username : Option Str) (row : Json) (m : Message) : Prop :=
  ∃ d, row = .dict d ∧ m.id = .str (Json.getD d "id" (.str [])).pyStr ∧
    m.mine = decide (Json.get d "from" = (username.map .str).getD .null) ∧ m.state = "SENT"

/-- A row becomes a message exactly if it reads. -/
theorem storedMessage_ends (key : Str) (username : Option Str) (row : Json) (c : ChatController) :
    Ends (storedMessage key username row) c
      (fun m c' => c.KeepsKeys c' ∧ StoredAs username row m ∧ Reads c.keyring key (username.getD []) row)
      fun _ _ => ¬ Reads c.keyring key (username.getD []) row := by
  cases row with
  | dict d =>
    refine ((storedPlaintext_ends d key (username.getD []) c).mono (fun _ _ h => h) fun _ _ h hr => h hr.1).bind
      fun body c₁ hbody => ?_
    have hclock : Ends (timeOf 0) c₁ (fun _ c₂ => c₂ = c₁) fun _ _ => False := rfl
    refine (hclock.mono (fun _ _ h => h) fun _ _ h => h.elim).bind fun now c₂ hc => ?_
    subst hc
    refine ((ts_ends _ now c₂).mono (fun _ _ h => h) fun _ _ h hr => h hr.2).bind fun ts c₃ hts => ?_
    obtain ⟨rfl, hts⟩ := hts
    exact ends_pure ⟨hbody.1, ⟨d, rfl, rfl, rfl, rfl⟩, hbody.2, hts⟩
  | _ => exact ends_throw id

/-- **The rows** all become messages, or one of them cannot be read. -/
theorem storedMessages_ends (key : Str) (username : Option Str) (rows : List Json) : ∀ c : ChatController,
    Ends (storedMessages key username rows) c
      (fun ms _ => List.Forall₂ (StoredAs username) rows ms ∧ ∀ row ∈ rows, Reads c.keyring key (username.getD []) row)
      fun _ _ => ¬ ∀ row ∈ rows, Reads c.keyring key (username.getD []) row := by
  induction rows with
  | nil => exact fun _ => ends_pure ⟨.nil, nofun⟩
  | cons row rows ih =>
    intro c
    refine ((storedMessage_ends key username row c).mono (fun _ _ h => h) fun _ _ h hr => h (hr row (.head _))).bind
      fun m c₁ hm => ?_
    obtain ⟨hkeys, hone, hread⟩ := hm
    -- the rest is read with the keyring the row before leaves
    have hrest : (∀ row' ∈ rows, Reads c₁.keyring key (username.getD []) row') ↔
        ∀ row' ∈ rows, Reads c.keyring key (username.getD []) row' :=
      forall₂_congr fun row' _ => hkeys.reads key _ row'
    refine ((ih c₁).mono (fun _ _ h => h) fun _ _ h hr => h (hrest.mpr fun row' hrow' => hr row' (.tail _ hrow'))).bind
      fun ms c₂ hms => ?_
    exact ends_pure ⟨.cons hone hms.1, List.forall_mem_cons.mpr ⟨hread, hrest.mp hms.2⟩⟩

end ChatController

end Ciphertext
