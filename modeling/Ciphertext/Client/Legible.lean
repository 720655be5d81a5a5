import Ciphertext.Client.Envelope
import Ciphertext.Client.StoredRows

/-!
# Rows that cannot be read

`_stored_plaintext` puts the placeholder in the place of a body it cannot open, but
catches `DecryptionFailed` only. Two failures come as something else: a public key
that is none, which `key_for` raises on, and authenticated bytes that are no UTF-8.
Either leaves the whole page out. `historyResult_shows_iff` says that nothing else
does.

It is an equivalence over any rows, after any calls on the keyring: the page is shown, a
message for each row in its order, exactly if no row has either of these, and else the
frame raises and nothing of the page is loaded. `Opening` has the same of one row, with
the other ways in which a row raises, a time that is no number and a row that is no
object.
-/

namespace Ciphertext

open Act

namespace ChatController

variable [Runtime]

omit [Runtime] in
/-- A row of strings, and a time. -/
structure StringRow (d : Dict) (id sender body nonce : Str) (ts : Int) : Prop where
  id : Json.get d "id" = .str id
  sender : Json.get d "from" = .str sender
  body : Json.get d "body" = .str body
  nonce : Json.get d "n" = .str nonce
  ts : Json.get d "ts" = .int ts

/-- A message that shows the row: its text as it is, or decrypted, or the placeholder. -/
structure Displays [Crypto] (k : Keyring) (key me : Str) (d : Dict) (m : Message) : Prop where
  id : m.id = Json.get d "id"
  sender : m.sender = Json.get d "from"
  body : Json.get d "n" = .str [] ∧ m.body = Json.get d "body" ∨ m.body = .str undecryptable ∨
    ∃ derived text, k.keyOf (rowPeer d key me) = .ok (some derived) ∧ m.body = .str text ∧
      Crypto.open' derived (Json.get d "body") (Json.get d "n") (Json.get d "from") = .plaintext text

variable {d : Dict} {id sender body nonce : Str} {ts : Int}

omit [Runtime] in
/-- A field that is there is read without its default. -/
theorem getD_of_get {v default : Json} {name : Str} (h : Json.get d name = v) (hv : v ≠ .null) :
    Json.getD d name default = v := by
  unfold Json.get Json.getD at h
  unfold Json.getD
  cases hl : d.lookup name with
  | some w =>
    rw [hl] at h
    exact h
  | none =>
    rw [hl] at h
    exact absurd h.symm hv

omit [Runtime] in
theorem truthy_iff (s : Str) : (Json.str s).truthy = true ↔ s ≠ [] := by
  cases s with
  | nil => simp [Json.truthy]
  | cons _ _ => simp [Json.truthy]

/-- What a row is shown as is what it displays. -/
theorem Shown.displays [Crypto] (h : StringRow d id sender body nonce ts) {k : Keyring} {key : Str} {username : Option Str}
    {m : Message} (hm : Shown (some k) key username d m) : Displays k key (username.getD []) d m := by
  refine ⟨?_, ?_, ?_⟩
  · rw [hm.id, getD_of_get h.id nofun, h.id]
    rfl
  · rw [hm.sender, getD_of_get h.sender nofun, h.sender]
    rfl
  · have hbody := hm.body
    unfold rowBody at hbody
    rw [h.sender, h.body, h.nonce, orElse_str, orElse_str] at hbody
    simp only [Json.pyStr_str] at hbody
    rw [h.sender, h.body, h.nonce]
    by_cases hn : nonce = []
    · subst hn
      exact .inl ⟨rfl, (Except.ok.inj hbody).symm⟩
    · refine .inr ?_
      rw [if_neg (by simpa [truthy_iff] using hn)] at hbody
      unfold Keyring.openWith at hbody
      cases hkey : k.keyOf (rowPeer d key (username.getD [])) with
      | error e =>
        rw [hkey] at hbody
        cases hbody
      | ok held =>
        rw [hkey] at hbody
        cases held with
        | none => exact .inl (Except.ok.inj hbody).symm
        | some derived =>
          dsimp only at hbody
          cases hopen : Crypto.open' derived (.str body) (.str nonce) (.str sender) with
          | plaintext text =>
            rw [hopen] at hbody
            exact .inr ⟨derived, text, rfl, (Except.ok.inj hbody).symm, hopen⟩
          | failed =>
            rw [hopen] at hbody
            exact .inl (Except.ok.inj hbody).symm
          | raised e =>
            rw [hopen] at hbody
            cases hbody

/-- The row can be read, or is reported in its place: the public key that is held for
its peer is one, and the bytes it authenticates are text. -/
def Legible [Primitives] (k : Keyring) (key me : Str) (d : Dict) : Prop :=
  ∀ sender body nonce, Json.get d "from" = .str sender → Json.get d "body" = .str body →
    Json.get d "n" = .str nonce → nonce ≠ [] → ∀ pubkey, k.held (rowPeer d key me) = some pubkey →
    ∃ derived, Envelope.keyFor k.identity pubkey = .ok derived ∧
      ∀ bytes, Envelope.authenticated derived body nonce sender = some bytes → (Str.ofUtf8 bytes).isSome = true

omit [Runtime] in
/-- Opening raises on bytes that are no text only. -/
theorem open_ne_raised_iff [Primitives] (derived : Key) (body nonce sender : Str) :
    (∀ e, Envelope.open' derived (.str body) (.str nonce) (.str sender) ≠ .raised e) ↔
      ∀ bytes, Envelope.authenticated derived body nonce sender = some bytes → (Str.ofUtf8 bytes).isSome = true := by
  rw [Envelope.open_str]
  cases Envelope.authenticated derived body nonce sender with
  | none => exact iff_of_true nofun nofun
  | some bytes =>
    show (∀ e, Envelope.decoded bytes ≠ .raised e) ↔ _
    unfold Envelope.decoded
    cases htext : Str.ofUtf8 bytes with
    | none =>
      refine iff_of_false (fun h => h .valueError rfl) fun h => ?_
      have hsome := h bytes rfl
      rw [htext] at hsome
      cases hsome
    | some text =>
      refine iff_of_true nofun fun bytes' hbytes => ?_
      obtain rfl := Option.some.inj hbytes
      rw [htext]
      rfl

/-- A row of strings can be read exactly if it is legible. -/
theorem reads_iff_legible [Primitives] (h : StringRow d id sender body nonce ts) {k : Keyring} (hf : k.Fresh)
    (key me : Str) : Reads (some k) key me (.dict d) ↔ Legible k key me d := by
  -- a fresh keyring opens under the key derived from the public key it holds now
  have hopens : ∀ user, k.Opens user (.str body) (.str nonce) (.str sender) ↔ ∀ pubkey, k.held user = some pubkey →
      ∃ derived, Envelope.keyFor k.identity pubkey = .ok derived ∧
        ∀ bytes, Envelope.authenticated derived body nonce sender = some bytes → (Str.ofUtf8 bytes).isSome = true := by
    intro user
    unfold Keyring.Opens
    rw [hf.keyOf_eq]
    cases k.held user with
    | none => exact iff_of_true ⟨none, rfl, nofun⟩ nofun
    | some pubkey =>
      dsimp only
      cases hkey : Crypto.keyFor k.identity pubkey with
      | error e =>
        refine iff_of_false (fun h => ?_) fun h => ?_
        · obtain ⟨held, hheld, -⟩ := h
          cases hheld
        · obtain ⟨derived, hderived, -⟩ := h pubkey rfl
          cases hkey.symm.trans hderived
      | ok derived =>
        constructor
        · intro hopen p hp
          obtain rfl := Option.some.inj hp
          obtain ⟨held, hheld, hno⟩ := hopen
          exact ⟨derived, hkey, (open_ne_raised_iff ..).mp fun e => hno derived e (Except.ok.inj hheld).symm⟩
        · intro hall
          obtain ⟨derived', hkey', hbytes⟩ := hall pubkey rfl
          obtain rfl := Except.ok.inj (hkey.symm.trans hkey')
          refine ⟨some derived, rfl, fun key e hheld => ?_⟩
          obtain rfl := Option.some.inj hheld
          exact (open_ne_raised_iff ..).mpr hbytes e
  -- the time is a number already
  have hts : ∃ n, ((Json.get d "ts").orElse (.int 0)).pyInt = .ok n := by
    rw [h.ts]
    unfold Json.orElse
    split
    · exact ⟨ts, rfl⟩
    · exact ⟨0, rfl⟩
  have hreads : Reads (some k) key me (.dict d) ↔ (∀ k', some k = some k' → (Json.get d "n").truthy = true →
      k'.Opens (rowPeer d key me) (.str ((Json.get d "body").orElse (.str [])).pyStr) (.str (Json.get d "n").pyStr)
        (.str ((Json.get d "from").orElse (.str [])).pyStr)) ∧ ∃ n, ((Json.get d "ts").orElse (.int 0)).pyInt = .ok n :=
    .rfl
  unfold Legible
  rw [hreads, h.sender, h.body, h.nonce, orElse_str, orElse_str, truthy_iff]
  constructor
  · intro hread sender' body' nonce' hsender hbody hnonce hne pubkey hp
    obtain rfl := Json.str.inj hsender
    obtain rfl := Json.str.inj hbody
    obtain rfl := Json.str.inj hnonce
    exact (hopens _).mp (hread.1 k rfl hne) pubkey hp
  · intro hlegible
    refine ⟨fun k' hk' hne => ?_, hts⟩
    obtain rfl := Option.some.inj hk'
    exact (hopens _).mpr (hlegible sender body nonce rfl rfl rfl hne)

/-- **A page is shown**, a message for each row in their order, exactly if every row is
legible; else the frame raises. -/
theorem historyResult_shows_iff [Primitives] {own : Identity} {me : Str} {urandom : Nat → List UInt8}
    {calls : List Keyring.KeyringCall} {k : Keyring} (hkeyring : k = Keyring.applyAll { identity := own, me, urandom } calls)
    {c : ChatController} (hk : c.keyring = some k) {f : Frame} (ht : f.type = .historyResult)
    (hkey : (historyKey f).truthy = true) {rows : List Dict} (hrows : f.get "messages" = .list (rows.map .dict))
    (hform : ∀ d ∈ rows, ∃ id sender body nonce ts, StringRow d id sender body nonce ts) :
    ((exec (onFrame f) c).1 = .ok () ∧
      List.Forall₂ (Displays k (historyKey f).pyStr (c.model.username.getD [])) rows
        ((exec (onFrame f) c).2.model.conversation (historyKey f).pyStr).messages) ↔
    ∀ d ∈ rows, Legible k (historyKey f).pyStr (c.model.username.getD []) d := by
  have hfresh : k.Fresh := hkeyring ▸ (Keyring.current_applyAll own me urandom calls).fresh
  have hiter : iter ((f.get "messages").orElse (.list [])) = .ok (rows.map .dict) := by
    rw [hrows]
    cases rows with
    | nil => rfl
    | cons _ _ => rfl
  have hlegible : (∀ row ∈ rows.map .dict, Reads c.keyring (historyKey f).pyStr (c.model.username.getD []) row) ↔
      ∀ d ∈ rows, Legible k (historyKey f).pyStr (c.model.username.getD []) d := by
    rw [List.forall_mem_map, hk]
    refine forall₂_congr fun d hd => ?_
    obtain ⟨id, sender, body, nonce, ts, hd⟩ := hform d hd
    exact reads_iff_legible hd hfresh _ _
  -- the loop reads every row or raises at the first that it cannot read
  have hends := onFrame_historyResult c ht hkey hiter
  unfold Ends at hends
  cases hrun : exec (onFrame f) c with
  | mk r c' =>
    rw [hrun] at hends
    cases r with
    | error e => exact iff_of_false (fun h => by cases h.1) fun h => hends.1 (hlegible.mpr h)
    | ok a =>
      obtain ⟨hread, -, ms, hmodel, hms⟩ := hends
      refine iff_of_true ⟨rfl, ?_⟩ (hlegible.mp hread)
      have hmessages : (c'.model.conversation (historyKey f).pyStr).messages = ms := by
        rw [hmodel]
        rw [ChatModel.conversation_loadHistory, if_pos rfl]
      rw [hmessages]
      have hrows' := (List.forall₂_and_left rows ms).mpr ⟨hform, List.forall₂_map_left_iff.mp hms⟩
      refine hrows'.imp fun d m h => ?_
      obtain ⟨⟨id, sender, body, nonce, ts, hd⟩, d', hd', hshown⟩ := h
      obtain rfl := Json.dict.inj hd'
      exact (hk ▸ hshown).displays hd

end ChatController

namespace Sample

/-- Keys of 32 bytes, an exchange that adds byte by byte, and a cipher that puts the key
before the text. -/
@[reducible] def bytePrimitives : Primitives where
  publicBytes identity := identity
  exchange identity peer := if peer.length = 32 then some (List.zipWith (· + ·) identity peer) else none
  hkdf sharedSecret _ := sharedSecret
  encrypt key _ data _ := key ++ data
  decrypt key _ data _ := if key <+: data then some (data.drop key.length) else none

def identityOf (b : UInt8) : Identity := List.replicate 32 b

/-- A row with an envelope from `sender`. -/
def sealedRow (sender body : Str) : Dict :=
  [("id", .str "m"), ("from", .str sender), ("body", .str body), ("n", .str "AAAA"), ("ts", .int 1)]

def roomPage (rows : List Dict) : Frame where
  type := .historyResult
  data := [("room", .str "#r"), ("messages", .list (rows.map .dict))]
  id := .str "h"
  ts := 0

end Sample

section Concrete

open Keyring ChatController Envelope Sample

attribute [local instance] bytePrimitives sampleRuntime

/-- A client that remembers these public keys. -/
def reader (calls : List KeyringCall) : ChatController where
  keyring := some (applyAll { identity := identityOf 1, urandom := fun _ => [] } calls)
  connection _ := none
  clock _ := 0

/-- What `c` sealed for it. -/
def legibleRow : Dict := sealedRow "c" (b64 (identityOf 3 ++ Str.utf8 "hi"))

/-- The page raises when `b`'s public key is none, and when `b` sealed a byte that is no
text; either way `c`'s message is not shown. -/
theorem roomPage_raises :
    (exec (onFrame (roomPage [legibleRow, sealedRow "b" "AAAA"]))
        (reader [.remember "c" (b64 (identityOf 2)), .remember "b" "x"])).1 = .error (.py .valueError) ∧
    ((exec (onFrame (roomPage [legibleRow, sealedRow "b" "AAAA"]))
        (reader [.remember "c" (b64 (identityOf 2)), .remember "b" "x"])).2.model.conversation "#r").messages = [] ∧
    (exec (onFrame (roomPage [legibleRow, sealedRow "b" (b64 (identityOf 5 ++ [0xff]))]))
        (reader [.remember "c" (b64 (identityOf 2)), .remember "b" (b64 (identityOf 4))])).1 = .error (.py .valueError) ∧
    ((exec (onFrame (roomPage [legibleRow, sealedRow "b" (b64 (identityOf 5 ++ [0xff]))]))
        (reader [.remember "c" (b64 (identityOf 2)), .remember "b" (b64 (identityOf 4))])).2.model.conversation
          "#r").messages = [] := by
  decide +kernel

/-- `c`'s row alone. -/
theorem roomPage_shows_iff :
    ((exec (onFrame (roomPage [legibleRow])) (reader [.remember "c" (b64 (identityOf 2))])).1 = .ok () ∧
      List.Forall₂ (Displays (applyAll { identity := identityOf 1, urandom := fun _ => [] }
          [.remember "c" (b64 (identityOf 2))]) "#r" []) [legibleRow]
        ((exec (onFrame (roomPage [legibleRow])) (reader [.remember "c" (b64 (identityOf 2))])).2.model.conversation
          "#r").messages) ↔
    ∀ d ∈ [legibleRow], Legible (applyAll { identity := identityOf 1, urandom := fun _ => [] }
      [.remember "c" (b64 (identityOf 2))]) "#r" [] d := by
  have hkey : (historyKey (roomPage [legibleRow])).truthy = true := by decide
  have hrow : StringRow legibleRow "m" "c" (b64 (identityOf 3 ++ Str.utf8 "hi")) "AAAA" 1 :=
    ⟨by decide, by decide, by decide, by decide, by decide⟩
  refine historyResult_shows_iff rfl rfl rfl hkey rfl fun d hd => ?_
  obtain rfl := List.mem_singleton.mp hd
  exact ⟨_, _, _, _, _, hrow⟩

end Concrete

end Ciphertext
