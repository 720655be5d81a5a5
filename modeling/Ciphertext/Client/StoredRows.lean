import Ciphertext.Client.Ticks

/-!
# What the rows of a HISTORY_RESULT show

The body of a stored row is opened with the key of whoever it was sealed to or by.
Opening one row changes no key, so what every row shows is decided by the keyring as
it was when the frame came in (`rowBody`), and the conversation is the rows in their
order (`step_shows`).

That a page is loaded whole or not at all is `onFrame_historyResult`. Whether the rows
are one's own or a peer's decides the key (`opener`), and a row in the clear shows
itself; neither depends on what has been shown before.
-/

namespace Ciphertext

open Act

namespace Keyring

variable [Crypto]

/-- What `open` comes to. -/
def openWith (k : Keyring) (user : Str) (ciphertext nonce sender : Json) : Except ClientErr (Option Str) :=
  match k.keyOf user with
  | .error e => .error e
  | .ok none => .ok none
  | .ok (some key) => (Crypto.open' key ciphertext nonce sender).result

/-- Opening returns what the held keys make of the row, and leaves the keys. -/
theorem exec_open (user : Str) (ciphertext nonce sender : Json) (k : Keyring) :
    (exec (open' (.str user) ciphertext nonce sender) k).1 = k.openWith user ciphertext nonce sender ∧
      k.SameKeys (exec (open' (.str user) ciphertext nonce sender) k).2 := by
  obtain ⟨hkey, hsame⟩ := exec_key_keyOf user k
  unfold open' openWith
  rw [exec_bind]
  dsimp only
  rw [← hkey]
  cases hrun : exec (key user) k with
  | mk r k' =>
    rw [hrun] at hsame
    cases r with
    | error e => exact ⟨rfl, hsame⟩
    | ok held =>
      cases held with
      | none => exact ⟨rfl, hsame⟩
      | some key =>
        dsimp only
        cases Crypto.open' key ciphertext nonce sender with
        | plaintext text => exact ⟨rfl, hsame⟩
        | failed => exact ⟨rfl, hsame⟩
        | raised e => exact ⟨rfl, hsame⟩

/-- So with the same keys a row opens alike. -/
theorem SameKeys.openWith {k k' : Keyring} (h : k.SameKeys k') (user : Str) (ciphertext nonce sender : Json) :
    k'.openWith user ciphertext nonce sender = k.openWith user ciphertext nonce sender := by
  unfold Keyring.openWith
  rw [h user]

end Keyring

namespace ChatController

variable [Crypto] [Runtime]

omit [Crypto] [Runtime] in
/-- An empty string is a string. -/
theorem orElse_str (s : Str) : (Json.str s).orElse (.str []) = .str s := by
  cases s with
  | nil => rfl
  | cons _ _ => rfl

/-- Whose key opens a row: the other party's, or our own for our copy of a room message. -/
def rowPeer (row : Dict) (key me : Str) : Str :=
  if ((Json.get row "from").orElse (.str [])).pyStr ≠ me then ((Json.get row "from").orElse (.str [])).pyStr
  else if key.isRoom then me else key

/-- The body a row shows. -/
def rowBody (keyring : Option Keyring) (key me : Str) (row : Dict) : Except ClientErr Json :=
  match keyring with
  | none => .ok (.str ((Json.get row "body").orElse (.str [])).pyStr)
  | some k =>
    if !(Json.get row "n").truthy then .ok (.str ((Json.get row "body").orElse (.str [])).pyStr)
    else (k.openWith (rowPeer row key me) (.str ((Json.get row "body").orElse (.str [])).pyStr)
        (.str (Json.get row "n").pyStr) (.str ((Json.get row "from").orElse (.str [])).pyStr)).map
      fun text => .str (text.getD undecryptable)

omit [Runtime] in
theorem KeepsKeys.trans {c₁ c₂ c₃ : ChatController} (h : c₁.KeepsKeys c₂) (h' : c₂.KeepsKeys c₃) : c₁.KeepsKeys c₃ := by
  unfold KeepsKeys at h h' ⊢
  cases h₁ : c₁.keyring with
  | none =>
    rw [h₁] at h
    cases h₂ : c₂.keyring with
    | none => rwa [h₂] at h'
    | some k => rw [h₂] at h; cases h
  | some k₁ =>
    rw [h₁] at h
    cases h₂ : c₂.keyring with
    | none => rw [h₂] at h; cases h
    | some k₂ =>
      rw [h₂] at h h'
      cases h₃ : c₃.keyring with
      | none => rw [h₃] at h'; cases h'
      | some k₃ =>
        rw [h₃] at h'
        cases h with
        | some h =>
          cases h' with
          | some h' => exact .some fun user => (h' user).trans (h user)

/-- What a row shows is a matter of the keys held. -/
theorem KeepsKeys.rowBody {c c' : ChatController} (h : c.KeepsKeys c') (key me : Str) (row : Dict) :
    rowBody c'.keyring key me row = rowBody c.keyring key me row := by
  unfold KeepsKeys at h
  cases hk : c.keyring with
  | none =>
    rw [hk] at h
    cases hk' : c'.keyring with
    | none => rfl
    | some k => rw [hk'] at h; cases h
  | some k =>
    rw [hk] at h
    cases hk' : c'.keyring with
    | none => rw [hk'] at h; cases h
    | some k' =>
      rw [hk'] at h
      cases h with
      | some h =>
        unfold ChatController.rowBody
        dsimp only
        rw [h.openWith]

omit [Runtime] [Crypto] in
/-- A keyring method, on the keyring that is there. -/
theorem exec_onKeyring {α : Type} (k : Keyring) (m : Keyring.KeyringM α) (c : ChatController) :
    exec (onKeyring k m) c = ((exec m k).1, { c with keyring := some (exec m k).2 }) := by
  unfold onKeyring
  rw [exec_bind, exec_modify]
  cases (exec m k).1 with
  | ok a => rfl
  | error e => rfl

/-- `_stored_plaintext` shows that, and leaves the keys as they are. -/
theorem exec_storedPlaintext (row : Dict) (key me : Str) (c : ChatController) :
    (exec (storedPlaintext row key me) c).1 = rowBody c.keyring key me row ∧
      c.KeepsKeys (exec (storedPlaintext row key me) c).2 := by
  unfold storedPlaintext rowBody
  dsimp only
  rw [exec_bind, exec_get]
  dsimp only
  cases hk : c.keyring with
  | none => exact ⟨rfl, .refl c⟩
  | some k =>
    dsimp only
    by_cases hn : (!(Json.get row "n").truthy) = true
    · rw [if_pos hn, if_pos hn]
      exact ⟨rfl, .refl c⟩
    · rw [if_neg hn, if_neg hn]
      obtain ⟨hres, hsame⟩ := Keyring.exec_open (rowPeer row key me) (.str ((Json.get row "body").orElse (.str [])).pyStr)
        (.str (Json.get row "n").pyStr) (.str ((Json.get row "from").orElse (.str [])).pyStr) k
      have hkeys : ∀ k', k.SameKeys k' → c.KeepsKeys { c with keyring := some k' } := by
        intro k' h
        show Option.Rel _ c.keyring (some _)
        rw [hk]
        exact .some h
      rw [← hres, exec_bind, exec_onKeyring]
      unfold rowPeer at hsame ⊢
      cases hrun : exec (Keyring.open' (.str _) (.str ((Json.get row "body").orElse (.str [])).pyStr)
          (.str (Json.get row "n").pyStr) (.str ((Json.get row "from").orElse (.str [])).pyStr)) k with
      | mk r k' =>
        rw [hrun] at hsame
        cases r with
        | error e => exact ⟨rfl, hkeys k' hsame⟩
        | ok text =>
          cases text with
          | none => exact ⟨rfl, hkeys k' hsame⟩
          | some text => exact ⟨rfl, hkeys k' hsame⟩

/-- A row as the conversation has it. -/
structure Shown (keyring : Option Keyring) (key : Str) (username : Option Str) (row : Dict) (m : Message) : Prop where
  body : rowBody keyring key (username.getD []) row = .ok m.body
  id : m.id = .str (Json.getD row "id" (.str [])).pyStr
  sender : m.sender = .str (Json.getD row "from" (.str "?")).pyStr
  mine : m.mine = decide (Json.get row "from" = (username.map .str).getD .null)

/-- A message made later from the same row is the same. -/
theorem KeepsKeys.shown {c c' : ChatController} (h : c.KeepsKeys c') {key : Str} {username : Option Str} {row : Dict}
    {m : Message} (hm : Shown c'.keyring key username row m) : Shown c.keyring key username row m :=
  ⟨(h.rowBody key _ row).symm.trans hm.body, hm.id, hm.sender, hm.mine⟩

/-- A row becomes its message, or raises, -/
theorem storedMessage_shown (key : Str) (username : Option Str) (row : Json) (c : ChatController) :
    Ends (storedMessage key username row) c
      (fun m c' => c.KeepsKeys c' ∧ ∃ d, row = .dict d ∧ Shown c.keyring key username d m)
      fun _ c' => c.KeepsKeys c' := by
  cases row with
  | dict d =>
    have hbody : Ends (storedPlaintext d key (username.getD [])) c
        (fun body c' => c.KeepsKeys c' ∧ rowBody c.keyring key (username.getD []) d = .ok body)
        fun _ c' => c.KeepsKeys c' := by
      obtain ⟨hres, hkeys⟩ := exec_storedPlaintext d key (username.getD []) c
      refine (ends_exec _ c).mono (fun body c' hrun => ?_) fun e c' hrun => ?_
      · rw [hrun] at hres hkeys
        exact ⟨hkeys, hres.symm⟩
      · rw [hrun] at hkeys
        exact hkeys
    refine hbody.bind fun body c₁ h => ?_
    have hclock : Ends (timeOf 0) c₁ (fun _ c₂ => c₂ = c₁) fun _ c' => c.KeepsKeys c' := rfl
    refine hclock.bind fun now c₂ hc => ?_
    subst hc
    cases ((Json.get d "ts").orElse (.int now)).pyInt with
    | error e => exact ends_throw h.1
    | ok ts => exact ends_pure ⟨h.1, d, rfl, h.2, rfl, rfl, rfl⟩
  | _ => exact ends_throw (.refl c)

/-- and the rows of a page theirs, in order, or the first that raises ends it. -/
theorem storedMessages_shown (key : Str) (username : Option Str) (rows : List Json) : ∀ c : ChatController,
    Ends (storedMessages key username rows) c
      (fun ms c' => c.KeepsKeys c' ∧
        List.Forall₂ (fun row m => ∃ d, row = .dict d ∧ Shown c.keyring key username d m) rows ms)
      fun _ c' => c.KeepsKeys c' := by
  induction rows with
  | nil => exact fun c => ends_pure ⟨.refl c, .nil⟩
  | cons row rows ih =>
    intro c
    refine (storedMessage_shown key username row c).bind fun m c₁ hm => ?_
    obtain ⟨hkeys, hone⟩ := hm
    -- the rest is shown with the keyring the row before leaves
    refine ((ih c₁).mono (fun _ _ h => h) fun _ _ h => hkeys.trans h).bind fun ms c₂ hms => ?_
    refine ends_pure ⟨hkeys.trans hms.1, .cons hone (hms.2.imp fun row m h => ?_)⟩
    obtain ⟨d, hd, hshown⟩ := h
    exact ⟨d, hd, hkeys.shown hshown⟩

/-- **A HISTORY_RESULT** loads its rows, in their order, or one of them raises and
nothing is loaded. -/
theorem onFrame_historyResult (c : ChatController) {f : Frame} (ht : f.type = .historyResult)
    (hkey : (historyKey f).truthy = true) {rows : List Json}
    (hrows : iter ((f.get "messages").orElse (.list [])) = .ok rows) :
    Ends (onFrame f) c
      (fun _ c' => (∀ row ∈ rows, Reads c.keyring (historyKey f).pyStr (c.model.username.getD []) row) ∧
        c.KeepsKeys c' ∧ ∃ ms, c'.model = c.model.loadHistory (historyKey f).pyStr ms ∧
          List.Forall₂ (fun row m => ∃ d, row = .dict d ∧ Shown c.keyring (historyKey f).pyStr c.model.username d m) rows ms)
      fun _ c' => (¬ ∀ row ∈ rows, Reads c.keyring (historyKey f).pyStr (c.model.username.getD []) row) ∧
        c.KeepsKeys c' ∧ c'.model = c.model := by
  unfold onFrame
  refine ends_modify_bind ?_
  rw [ht]
  dsimp only
  unfold historyResult
  dsimp only
  rw [if_neg (by simpa [historyKey] using hkey)]
  refine ends_get ?_
  rw [hrows]
  have hlift : Ends (lift (.ok rows)) (c.receiving f) (fun a c₁ => a = rows ∧ c₁ = c.receiving f) fun _ _ => False :=
    ends_pure ⟨rfl, rfl⟩
  refine (hlift.mono (fun _ _ h => h) fun _ _ h => h.elim).bind fun a c₁ ha => ?_
  obtain ⟨rfl, rfl⟩ := ha
  have hmodel : Moves [] [] (storedMessages (historyKey f).pyStr c.model.username a) := storedMessages_moves _ _ a
  have hread := storedMessages_ends (historyKey f).pyStr c.model.username a (c.receiving f)
  have hshown := storedMessages_shown (historyKey f).pyStr c.model.username a (c.receiving f)
  refine Ends.bind (((hread.and hshown).and_steps hmodel).mono (fun _ _ h => h) fun e c₁ h => ?_) fun ms c₁ h => ?_
  · obtain ⟨hmoved, hno, hkeys⟩ := h
    exact ⟨hno, hkeys, hmoved.moved.eq_of_nil⟩
  · obtain ⟨hmoved, ⟨-, hall⟩, hkeys, hms⟩ := h
    exact ⟨hall, hkeys, ms, congrArg (ChatModel.loadHistory · _ ms) hmoved.moved.eq_of_nil, hms⟩

end ChatController

end Ciphertext
