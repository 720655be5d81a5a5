import Ciphertext.Client.Aside

/-!
# Sending and holding

What `send` and `_hold` do, each in one statement: a text whose keys are all here goes
out (`send_ready`), any other is held and the missing keys are asked for
(`send_waits`). Where they raise, the statement says what was in the way: a
connection that is down, a text that cannot be encoded, a key that is none
(`Blocked`).

`needs` is whose keys a target takes, our own apart, and `outstanding` which of them
have been asked for and not answered; both are read off the state and its trace, so
that what is said about them holds at any moment of a run. A keyring that seals may
learn its own name and derive keys along the way (`Keyring.Along`); nothing here depends
on which of them it has derived already. `Releasing` has the held texts and what is
filed, in the same way.
-/

namespace Ciphertext

open Act

/-- Where a message of `user` belongs: its room, or `user`. -/
def Frame.place (user : Str) (f : Frame) : Str :=
  match f.target.orElse (.str []) with
  | .str s => if s.isRoom then s else user
  | _ => user

/-- Who stops typing, and where, when it is filed. -/
def Frame.typist (user : Str) (f : Frame) : Str × Json := (f.place user, f.sender.orElse (.str "?"))

namespace ChatController

/-! ## What is waited for -/

/-- Whose keys a text for this target is sealed under, our own apart. -/
def needs (c : ChatController) (target : Str) : List Str :=
  if target.isRoom then (c.model.roomMembers target).filter fun name => name ≠ c.me else [target]

def noKeyMessage : Str := "no public key is published for "

section Asked

variable [Runtime]

/-- Whose key the server answers about: in a KEY frame, or in the refusal. -/
def answers (f : Frame) : Option Str :=
  match f.type with
  | .key => if (f.get "user").truthy then some (f.get "user").pyStr else none
  | .error =>
    if Json.get f.data "code" = .str "NO_KEY" then
      match f.get "message" with
      | .str m => if m.startsWith noKeyMessage then some (m.drop noKeyMessage.length) else none
      | _ => none
    else none
  | _ => none

/-- A request is added when it got through, and one is taken away by an answer. -/
def note (asked : List Str) : Entry → List Str
  | .called (.getKey user) true => asked ++ [user.pyStr]
  | .received f => match answers f with
    | some user => asked.erase user
    | none => asked
  | _ => asked

/-- The keys asked for and not yet answered. -/
def outstanding (trace : List Entry) : List Str := trace.foldl note []

end Asked

/-- The texts held for a target. -/
def texts (c : ChatController) (target : Str) : List Str := (PyDict.get c.held target).getD []

/-- The frames that wait for this user's key. -/
def awaited (c : ChatController) (user : Str) : List Frame :=
  (c.awaiting.find? fun e => e.1 = .str user).elim [] Prod.snd

section Fileable

variable [Crypto]

/-- The frame can be filed: it has a recipient that can be looked at, and opening it
does not raise. -/
def Fileable (k : Keyring) (user : Str) (f : Frame) : Prop :=
  ∃ s, f.target.orElse (.str []) = .str s ∧
    (f.nonce.truthy = true → ∀ e,
      (exec (Keyring.open' (f.sender.orElse (.str (if s.isRoom then s else user)))
        (f.body.orElse (.str [])) f.nonce (f.sender.orElse (.str []))) k).1 ≠ .error e)

end Fileable

end ChatController

/-! ## Keyrings -/

namespace Keyring

theorem mem_missingKeys {k : Keyring} {names : List Str} {u : Str} :
    u ∈ k.missingKeys names ↔ u ∈ names ∧ k.knows u = false := by
  simp [missingKeys]

/-- Nothing is missing when everybody's key is known. -/
theorem missingKeys_eq_nil {k : Keyring} {names : List Str} :
    k.missingKeys names = [] ↔ ∀ u ∈ names, k.knows u = true := by
  rw [List.eq_nil_iff_forall_not_mem]
  refine ⟨fun h u hu => ?_, fun h u hu => ?_⟩
  · by_contra hk
    exact h u (mem_missingKeys.mpr ⟨hu, by simpa using hk⟩)
  · rw [mem_missingKeys] at hu
    rw [h u hu.1] at hu
    exact absurd hu.2 (by decide)

/-- The one name, if its key is not known. -/
theorem missingKeys_singleton {k : Keyring} {u : Str} (h : k.knows u = false) :
    k.missingKeys [u] = [u] := by
  simp [missingKeys, h, Str.sorted]

/-- What is missing depends on what is known. -/
theorem missingKeys_congr {k k' : Keyring} {names : List Str}
    (h : ∀ u ∈ names, k'.knows u = k.knows u) : k'.missingKeys names = k.missingKeys names := by
  unfold missingKeys
  congr 1
  exact List.filter_congr fun u hu => by rw [h u (List.mem_dedup.mp hu)]

/-- Exactly that user is known besides. -/
theorem remember_knows (k : Keyring) (user pubkey v : Str) :
    (k.remember user pubkey).knows v = (decide (v = user) || k.knows v) := by
  unfold remember knows PyDict.has
  by_cases hv : v = user
  · subst hv
    split
    · next h => simp [h]
    · simp
  · split
    · simp [hv]
    · simp [hv, PyDict.get_insert_ne]

variable [Crypto]

/-- Another public key leaves the keyring in order: what was derived from the old one is
dropped. -/
theorem remember_consistent {k : Keyring} (h : k.Consistent) (user pubkey : Str) :
    (k.remember user pubkey).Consistent := by
  have hme : (k.remember user pubkey).me = k.me := by
    unfold remember
    split
    · rfl
    · rfl
  refine ⟨fun u key hu => ?_, fun hne => ?_⟩
  · unfold remember at hu ⊢
    split
    · next hsame =>
      rw [if_pos hsame] at hu
      exact h.derived u key hu
    · next hother =>
      rw [if_neg hother] at hu
      -- what was derived from the old key is gone
      have hne : u ≠ user := by
        rintro rfl
        rw [PyDict.get_erase_self] at hu
        cases hu
      rw [PyDict.get_erase_ne _ hne] at hu
      rw [PyDict.get_insert_ne _ _ hne]
      exact h.derived u key hu
  · rw [hme] at hne ⊢
    rw [remember_knows, h.self hne, Bool.or_true]

/-- The keyring of `me` along the way of sending: of the others it knows what it
knew, and of itself at most its own key besides. -/
structure Along (me : Str) (k k' : Keyring) : Prop where
  identity : k'.identity = k.identity
  others : ∀ u, u ≠ me → PyDict.get k'.pubkeys u = PyDict.get k.pubkeys u
  own : PyDict.get k'.pubkeys me = PyDict.get k.pubkeys me ∨
    PyDict.get k'.pubkeys me = PyDict.get (k.named me).pubkeys me
  consistent : k'.Consistent

/-- Deriving keys is on the way of sending. -/
theorem Same.along {k k' : Keyring} (h : k.Same k') (me : Str) : k.Along me k' :=
  ⟨h.identity, fun u _ => by rw [h.pubkeys], .inl (by rw [h.pubkeys]), h.consistent⟩

/-- So is learning one's own key. -/
theorem Grows.along {k k' : Keyring} {me : Str} (h : k.Grows me k') : k.Along me k' :=
  ⟨h.identity, fun u hu => (h.pubkeys u).trans (named_get hu), .inr (h.pubkeys me), h.consistent⟩

/-- Under the name it seals with, the keyring has the same public keys before and after. -/
theorem Along.named_get {k k' : Keyring} {me : Str} (h : k.Along me k') (u : Str) :
    PyDict.get (k'.named me).pubkeys u = PyDict.get (k.named me).pubkeys u := by
  by_cases hu : u = me
  · rw [hu, named_get_self, named_get_self, h.identity]
    rcases h.own with ho | ho
    · rw [ho]
    · rw [ho, named_get_self]
      rfl
  · rw [Keyring.named_get hu, Keyring.named_get hu, h.others u hu]

/-- A key that was there is the one that is there once the own name is known. -/
theorem SealedUnder.named {k : Keyring} {text sender : Str} {e : Str × Str × Str} (h : k.SealedUnder text sender e)
    (me : Str) : (k.named me).SealedUnder text sender e := by
  obtain ⟨key, nonce, hkey, he⟩ := h
  refine ⟨key, nonce, ?_, he⟩
  have hget : PyDict.get (k.named me).pubkeys e.1 = PyDict.get k.pubkeys e.1 := by
    by_cases hu : e.1 = me
    · have hknows := shared_knows hkey
      rw [hu] at hknows ⊢
      obtain ⟨pubkey, hp⟩ := Option.isSome_iff_exists.mp hknows.symm
      rw [named_get_self, hp]
      rfl
    · exact named_get hu
  unfold shared at hkey ⊢
  rw [hget]
  exact hkey

/-- So the keys it shares with the others are the same. -/
theorem Along.named_shared {k k' : Keyring} {me : Str} (h : k.Along me k') (u : Str) :
    (k'.named me).shared u = (k.named me).shared u := by
  have hid : (k'.named me).identity = (k.named me).identity := h.identity
  unfold shared
  rw [h.named_get, hid]

theorem Along.trans {k₁ k₂ k₃ : Keyring} {me : Str} (h : k₁.Along me k₂) (h' : k₂.Along me k₃) :
    k₁.Along me k₃ := by
  refine ⟨h'.identity.trans h.identity, fun u hu => (h'.others u hu).trans (h.others u hu), ?_,
    h'.consistent⟩
  rcases h'.own with ho | ho
  · rw [ho]
    exact h.own
  · exact .inr (ho.trans (h.named_get me))

/-- Of anybody else it knows what it knew. -/
theorem Along.knows {k k' : Keyring} {me u : Str} (h : k.Along me k') (hu : u ≠ me) :
    k'.knows u = k.knows u := by
  rw [Keyring.knows, Keyring.knows, PyDict.has, PyDict.has, h.others u hu]

/-- A key that could be used can still be used. -/
theorem Along.usable {k k' : Keyring} {me u : Str} (h : k.Along me k')
    (hu : (k.named me).Usable u) : (k'.named me).Usable u := by
  intro pubkey hp
  rw [h.named_get] at hp
  have hid : (k'.named me).identity = (k.named me).identity := h.identity
  rw [hid]
  exact hu pubkey hp

end Keyring

/-! ## Sending -/

namespace ChatController

/-- A keyring method changes the keyring. -/
theorem ends_onKeyring {α : Type} {c : ChatController} {k : Keyring} {m : Keyring.KeyringM α}
    {P : α → Keyring → Prop} {Y : ClientErr → Keyring → Prop} (h : Ends m k P Y) :
    Ends (onKeyring k m) c (fun a c' => ∃ k', c' = { c with keyring := some k' } ∧ P a k')
      (fun e c' => ∃ k', c' = { c with keyring := some k' } ∧ Y e k') := by
  unfold onKeyring
  unfold Ends at h ⊢
  rw [exec_bind, exec_modify]
  rcases hm : exec m k with ⟨e | a, k'⟩ <;> rw [hm] at h
  · exact ⟨k', rfl, h⟩
  · exact ⟨k', rfl, h⟩

/-- Plain code that may raise, and what follows. -/
theorem ends_lift {α β : Type} {r : Except PyErr α} {g : α → ClientM β} {c : ChatController}
    {Q : β → ChatController → Prop} {X : ClientErr → ChatController → Prop}
    (hok : ∀ a, r = .ok a → Ends (g a) c Q X) (herr : ∀ e, r = .error e → X (.py e) c) :
    Ends (lift r >>= g) c Q X := by
  cases r with
  | ok a => exact hok a rfl
  | error e => exact herr e rfl

section Sending

variable [Crypto]

/-- A controller before and after sending, the held texts apart. -/
structure Along (c c' : ChatController) : Prop where
  username : c'.model.username = c.model.username
  rooms : c'.model.rooms = c.model.rooms
  connection : c'.connection = c.connection
  keyring : ∀ k, c.keyring = some k → k.Consistent → ∃ k', c'.keyring = some k' ∧ k.Along c.me k'
  trace : ∃ xs, c'.trace = c.trace ++ callEntries xs

theorem Aside.along {c c' : ChatController} (h : c.Aside c') : c.Along c' := by
  refine ⟨h.username, h.rooms, h.connection, fun k hk hs => ?_, h.trace⟩
  obtain ⟨k', hk', hsame⟩ := h.keyring k hk hs
  exact ⟨k', hk', hsame.along c.me⟩

theorem Along.me {c c' : ChatController} (h : c.Along c') : c'.me = c.me := by
  rw [ChatController.me, ChatController.me, h.username]

theorem Along.roomMembers {c c' : ChatController} (h : c.Along c') (room : Str) :
    c'.model.roomMembers room = c.model.roomMembers room := by
  rw [ChatModel.roomMembers, ChatModel.roomMembers, h.rooms]

/-- What a target needs depends on our name and on the rooms, which sending leaves alone. -/
theorem Along.needs {c c' : ChatController} (h : c.Along c') (target : Str) :
    c'.needs target = c.needs target := by
  rw [ChatController.needs, ChatController.needs, h.roomMembers, h.me]

theorem Along.trans {c₁ c₂ c₃ : ChatController} (h : c₁.Along c₂) (h' : c₂.Along c₃) :
    c₁.Along c₃ := by
  refine ⟨h'.username.trans h.username, h'.rooms.trans h.rooms, h'.connection.trans h.connection,
    fun k hk hs => ?_, ?_⟩
  · obtain ⟨k', hk', halong⟩ := h.keyring k hk hs
    obtain ⟨k'', hk'', halong'⟩ := h'.keyring k' hk' halong.consistent
    rw [h.me] at halong'
    exact ⟨k'', hk'', halong.trans halong'⟩
  · obtain ⟨xs, hxs⟩ := h.trace
    obtain ⟨ys, hys⟩ := h'.trace
    exact ⟨xs ++ ys, by rw [hys, hxs, callEntries, callEntries, callEntries, List.map_append,
      List.append_assoc]⟩

/-- Sending to a target, with at most `n` calls. -/
structure Sent (n : Nat) (target : Str) (c c' : ChatController) : Prop where
  along : c.Along c'
  held : c'.held = c.held
  awaiting : c'.awaiting = c.awaiting
  active : c'.model.active = c.model.active
  length : c'.trace.length ≤ c.trace.length + n
  /-- a direct message does not touch our own key -/
  aside : target.isRoom = false → c.Aside c'

theorem Sent.refl (n : Nat) (target : Str) (c : ChatController) : Sent n target c c :=
  ⟨(Aside.refl c).along, rfl, rfl, rfl, Nat.le_add_right .., fun _ => Aside.refl c⟩

/-- One sending after another, and the calls add up. -/
theorem Sent.trans {n n' : Nat} {target : Str} {c₁ c₂ c₃ : ChatController} (h : Sent n target c₁ c₂)
    (h' : Sent n' target c₂ c₃) : Sent (n + n') target c₁ c₃ := by
  refine ⟨h.along.trans h'.along, h'.held.trans h.held, h'.awaiting.trans h.awaiting,
    h'.active.trans h.active, ?_, fun ht => Aside.trans _ _ _ (h.aside ht) (h'.aside ht)⟩
  have h₁ := h.length
  have h₂ := h'.length
  omega

/-- Every public key that the texts for this target are sealed under is one. -/
def Sealable (c : ChatController) (k : Keyring) (target : Str) : Prop :=
  if target.isRoom then ∀ u ∈ c.me :: c.model.roomMembers target, (k.named c.me).Usable u else k.Usable target

/-- Sealing this text for the target does not raise. -/
def Seals (c : ChatController) (k : Keyring) (target text : Str) : Prop :=
  c.Sealable k target ∧ Keyring.Encodes text c.me

/-- What can stop a message that is ready to be sealed. -/
def Blocked (c : ChatController) (k : Keyring) (target text : Str) : Prop :=
  c.connection c.trace.length = none ∨ ¬ c.Seals k target text

/-- The call hands over this text: sealed for the target, or once for everybody in
the room. -/
def Carries (c : ChatController) (k : Keyring) (target text : Str) (x : Call) : Prop :=
  if target.isRoom then ∃ envelopes, x = .message target [] none envelopes ∧
    k.Envelopes (c.model.roomMembers target) text c.me envelopes
  else ∃ sealed, x = .message target sealed.1 (some sealed.2) [] ∧
    (k.named c.me).SealedUnder text c.me (target, sealed)

/-- One text for the target has been handed over; whether that call raised. -/
structure Handing (c : ChatController) (k : Keyring) (target text : Str) (through : Bool) (c' : ChatController) :
    Prop where
  sent : Sent 1 target c c'
  seals : c.Seals k target text
  up : (c.connection c.trace.length).isSome = through
  call : ∃ x, c.Carries k target text x ∧ c'.trace = c.trace ++ callEntries [(x, through)]

/-- Sealing it raised, or the call did. -/
def Stopped (c : ChatController) (k : Keyring) (target text : Str) (c' : ChatController) : Prop :=
  (Sent 0 target c c' ∧ ¬ c.Seals k target text ∧ c'.trace = c.trace) ∨ c.Handing k target text false c'

/-- Making no call is within any number of calls. -/
theorem Sent.weaken {n : Nat} {target : Str} {c c' : ChatController} (h : Sent 0 target c c') : Sent n target c c' := by
  have hlen := h.length
  exact ⟨h.along, h.held, h.awaiting, h.active, by omega, h.aside⟩

/-- Whatever stopped the message was in its way before, and it cost one call at most. -/
theorem Stopped.blocked {c c' : ChatController} {k : Keyring} {target text : Str} (h : c.Stopped k target text c') :
    Sent 1 target c c' ∧ c.Blocked k target text := by
  cases h with
  | inl h => exact ⟨h.1.weaken, .inr h.2.1⟩
  | inr h => exact ⟨h.sent, .inl (by simpa using h.up)⟩

/-- Sealed under a keyring on the way, and no call made. -/
theorem sent_keyring {c : ChatController} {k k' : Keyring} {target : Str} (hk : c.keyring = some k)
    (halong : k.Along c.me k') (hsame : target.isRoom = false → k.Same k') :
    Sent 0 target c { c with keyring := some k' } := by
  refine ⟨⟨rfl, rfl, rfl, fun k₀ hk₀ _ => ⟨k', rfl, ?_⟩, [], (List.append_nil _).symm⟩, rfl, rfl, rfl,
    Nat.le_refl _, fun ht => ⟨rfl, rfl, rfl, rfl, rfl, fun k₀ hk₀ _ => ⟨k', rfl, ?_⟩, [],
      (List.append_nil _).symm⟩⟩
  · rw [hk] at hk₀
    cases hk₀
    exact halong
  · rw [hk] at hk₀
    cases hk₀
    exact hsame ht

/-- A call, and nothing else. -/
theorem sent_afterCall (c : ChatController) (x : Call) (target : Str) :
    Sent 1 target c (c.afterCall x) :=
  ⟨(afterCall_aside c x).along, rfl, rfl, rfl, by simp [afterCall], fun _ => afterCall_aside c x⟩

/-- The call itself, once the text is sealed. -/
theorem handing_call {c : ChatController} {k k' : Keyring} {target text : Str}
    (hsent : Sent 0 target c { c with keyring := some k' }) (hseals : c.Seals k target text) {x : Call}
    (hx : c.Carries k target text x) :
    Ends (do return some (← call x) : ClientM (Option (Str × Int))) { c with keyring := some k' }
      (fun r c' => r.isSome = true ∧ c.Handing k target text true c') (fun _ c' => c.Stopped k target text c') := by
  have hhanding : ∀ through, (c.connection c.trace.length).isSome = through →
      c.Handing k target text through (({ c with keyring := some k' } : ChatController).afterCall x) := by
    intro through hup
    refine ⟨hsent.trans (sent_afterCall { c with keyring := some k' } x target), hseals, hup, x, hx, ?_⟩
    rw [← hup]
    rfl
  unfold Ends
  rw [exec_bind, exec_call]
  cases hc : c.connection c.trace.length with
  | some stamp => exact ⟨rfl, hhanding true (by rw [hc]; rfl)⟩
  | none => exact .inr (hhanding false (by rw [hc]; rfl))

/-- **A text whose keys are all here goes out**, unless the connection is down, one of
the keys is none or the text has no encoding. -/
theorem transmit_ready {c : ChatController} {k : Keyring} {target : Str} (hk : c.keyring = some k)
    (hs : k.Consistent) (hready : k.missingKeys (c.needs target) = []) (text : Str) :
    Ends (transmit target text c.me) c (fun r c' => r.isSome = true ∧ c.Handing k target text true c')
      (fun _ c' => c.Stopped k target text c') := by
  refine ends_get ?_
  rw [hk]
  dsimp only
  split
  -- a room: sealed for every member, and the sender is one
  · next hroom =>
    rw [needs, if_pos hroom] at hready
    refine ends_get ?_
    dsimp only
    rw [hready]
    simp only [List.isEmpty_nil, Bool.not_true, Bool.false_eq_true, if_false]
    have hknows : ∀ u ∈ c.model.roomMembers target, u ≠ c.me → k.knows u = true := fun u hu hme =>
      Keyring.missingKeys_eq_nil.mp hready u (List.mem_filter.mpr ⟨hu, by simpa using hme⟩)
    have hkeyring : ∀ {k'}, k.Grows c.me k' → Sent 0 target c { c with keyring := some k' } :=
      fun hg => sent_keyring hk hg.along fun ht => by rw [hroom] at ht; cases ht
    refine Ends.bind ((ends_onKeyring (Keyring.sealForMembers_ends hs text hknows)).mono
      (fun _ _ hr => hr) fun _ c' hx => ?_) fun r c' hr => ?_
    · obtain ⟨k', rfl, hg, hbad⟩ := hx
      refine .inl ⟨hkeyring hg, fun hseals => hbad ⟨?_, hseals.2⟩, rfl⟩
      have hsealable := hseals.1
      rw [Sealable, if_pos hroom] at hsealable
      exact hsealable
    · obtain ⟨k', rfl, hg, envelopes, rfl, henvelopes⟩ := hr
      refine handing_call (hkeyring hg) ⟨?_, henvelopes.encodes⟩ ?_
      · rw [Sealable, if_pos hroom]
        exact fun u hu => henvelopes.usable hu
      · rw [Carries, if_pos hroom]
        exact ⟨envelopes, rfl, henvelopes⟩
  · next hroom =>
    rw [needs, if_neg hroom] at hready
    have hknows : k.knows target = true :=
      Keyring.missingKeys_eq_nil.mp hready target (List.mem_singleton_self _)
    have hkeyring : ∀ {k'}, k.Same k' → Sent 0 target c { c with keyring := some k' } :=
      fun hsame => sent_keyring hk (hsame.along c.me) fun _ => hsame
    refine Ends.bind ((ends_onKeyring (Keyring.seal_ends hs target text c.me)).mono
      (fun _ _ hr => hr) fun _ c' hx => ?_) fun r c' hr => ?_
    · obtain ⟨k', rfl, hsame, hbad⟩ := hx
      refine .inl ⟨hkeyring hsame, fun hseals => hbad ⟨?_, hseals.2⟩, rfl⟩
      have hsealable := hseals.1
      rwa [Sealable, if_neg hroom] at hsealable
    · obtain ⟨k', rfl, hsame, hsome, hsealed⟩ := hr
      rw [hknows] at hsome
      obtain ⟨sealed, rfl⟩ := Option.isSome_iff_exists.mp hsome
      refine handing_call (hkeyring hsame) ⟨?_, (hsealed sealed rfl).encodes⟩ ?_
      · rw [Sealable, if_neg hroom]
        exact (hsealed sealed rfl).usable
      · rw [Carries, if_neg hroom]
        exact ⟨sealed, rfl, (hsealed sealed rfl).named c.me⟩

/-- Our own message goes on screen, and that does not raise. -/
theorem addOwn_ends (target : Str) {message : Message} (hmine : message.mine = true)
    (c : ChatController) :
    Ends (onModel' fun m => m.addMessage target message) c (fun _ c' => Sent 0 target c c' ∧ c'.trace = c.trace)
      (fun _ _ => False) := by
  have hadd := fun m : ChatModel => m.addMessage_mine target hmine
  have haside : c.Aside (exec (onModel' fun m => m.addMessage target message) c).2 :=
    onModel'_aside (addMessage_keeps target message) c
  unfold onModel' at haside ⊢
  unfold Ends
  simp only [hadd] at haside ⊢
  exact ⟨⟨haside.along, rfl, rfl, rfl, Nat.le_refl _, fun _ => haside⟩, rfl⟩

/-- **The same of `send`**: what was sealed and handed over is put on screen. -/
theorem send_ready {c : ChatController} {k : Keyring} {target : Str} (hk : c.keyring = some k)
    (hs : k.Consistent) (hready : k.missingKeys (c.needs target) = [])
    (hactive : c.model.active = some target) {text : Str} (htext : text.strip.isEmpty = false) :
    Ends (send text) c (fun _ c' => c.Handing k target text true c') (fun _ c' => c.Stopped k target text c') := by
  refine ends_get ?_
  rw [hactive]
  dsimp only
  rw [htext]
  simp only [Bool.false_eq_true, if_false]
  refine ends_get ?_
  refine (transmit_ready hk hs hready text).bind fun r c' hr => ?_
  obtain ⟨hsome, h⟩ := hr
  obtain ⟨stamp, rfl⟩ := Option.isSome_iff_exists.mp hsome
  refine (addOwn_ends target (by rfl) c').mono (fun _ _ hadd => ?_) fun _ _ hadd => hadd.elim
  obtain ⟨x, hx, htrace⟩ := h.call
  exact ⟨h.sent.trans hadd.1, h.seals, h.up, x, hx, hadd.2.trans htrace⟩

/-- A blank text is not sent. -/
theorem send_blank {c : ChatController} {text : Str} (htext : text.strip.isEmpty = true) :
    exec (send text) c = (.ok (), c) := by
  unfold send
  rw [exec_bind, exec_get]
  dsimp only
  cases c.model.active with
  | none => rfl
  | some target =>
    dsimp only
    rw [htext]
    rfl

end Sending

/-! ## Holding -/

section Holding

variable [Runtime]

/-- What is outstanding later is read on from what was outstanding before. -/
theorem outstanding_append (es es' : List Entry) :
    outstanding (es ++ es') = es'.foldl note (outstanding es) := List.foldl_append ..

/-- Calls take no request away. -/
theorem mem_outstanding_calls {es : List Entry} {u : Str} (h : u ∈ outstanding es)
    (xs : List (Call × Bool)) : u ∈ outstanding (es ++ callEntries xs) := by
  rw [outstanding_append]
  generalize outstanding es = asked at h
  induction xs generalizing asked with
  | nil => exact h
  | cons x xs ih =>
    refine ih _ ?_
    obtain ⟨call, through⟩ := x
    unfold note
    split
    · exact List.mem_append_left _ h
    · next he => cases he
    · exact h

/-- A request that got through is outstanding. -/
theorem mem_outstanding_getKey (es : List Entry) (u : Str) :
    u ∈ outstanding (es ++ callEntries [(.getKey (.str u), true)]) := by
  rw [outstanding_append]
  exact List.mem_append_right _ (List.mem_singleton_self u)

/-- Only the trace has changed, by calls. -/
structure Called (c c' : ChatController) : Prop where
  same : c' = { c with trace := c'.trace }
  trace : ∃ xs, c'.trace = c.trace ++ callEntries xs

omit [Runtime] in
theorem Called.refl (c : ChatController) : Called c c := ⟨rfl, [], (List.append_nil _).symm⟩

omit [Runtime] in
theorem Called.trans {c₁ c₂ c₃ : ChatController} (h : Called c₁ c₂) (h' : Called c₂ c₃) :
    Called c₁ c₃ := by
  obtain ⟨xs, hxs⟩ := h.trace
  obtain ⟨ys, hys⟩ := h'.trace
  refine ⟨?_, xs ++ ys, ?_⟩
  · rw [h'.same, h.same]
  · rw [hys, hxs, callEntries, callEntries, callEntries, List.map_append, List.append_assoc]

/-- The keys whose requests get through are outstanding. -/
def Requested (c : ChatController) (fetch : List Str) (c' : ChatController) : Prop :=
  ∀ i u, fetch[i]? = some u →
    (∀ j ≤ i, (c.connection (c.trace.length + j)).isSome = true) → u ∈ outstanding c'.trace

/-- Asking for these keys makes calls and nothing else; those that get through are
outstanding, also when a later one finds the connection gone. -/
theorem requests_ends (fetch : List Str) : ∀ c : ChatController,
    Ends (fetch.forM fun user => do let _ ← call (.getKey (.str user))) c
      (fun _ c' => Called c c' ∧ c.Requested fetch c') (fun _ c' => Called c c' ∧ c.Requested fetch c') := by
  induction fetch with
  | nil => exact fun c => ⟨Called.refl c, fun i u hu => by simp at hu⟩
  | cons user fetch ih =>
    intro c
    have hcalled : Called c (c.afterCall (.getKey (.str user))) := ⟨rfl, [(_, _)], rfl⟩
    have hcall : Ends (do let _ ← call (.getKey (.str user)) : ClientM Unit) c
        (fun _ c' => c' = c.afterCall (.getKey (.str user)) ∧
          (c.connection c.trace.length).isSome = true)
        (fun _ c' => Called c c' ∧ c.Requested (user :: fetch) c') := by
      unfold Ends
      rw [exec_bind, exec_call]
      cases hc : c.connection c.trace.length with
      | some stamp => exact ⟨rfl, rfl⟩
      | none =>
        refine ⟨hcalled, fun i u _ hup => ?_⟩
        have h := hup 0 (Nat.zero_le _)
        rw [Nat.add_zero, hc] at h
        cases h
    refine hcall.bind fun _ c₁ hc₁ => ?_
    obtain ⟨rfl, hup⟩ := hc₁
    have hdone : ∀ c', Called (c.afterCall (.getKey (.str user))) c' ∧
        (c.afterCall (.getKey (.str user))).Requested fetch c' →
        Called c c' ∧ c.Requested (user :: fetch) c' := by
      intro c' h
      refine ⟨hcalled.trans h.1, fun i u hu hall => ?_⟩
      cases i with
      | zero =>
        -- the first request went out, and no later call takes it away
        simp only [List.getElem?_cons_zero, Option.some.injEq] at hu
        obtain ⟨xs, hxs⟩ := h.1.trace
        rw [hxs, ← hu]
        refine mem_outstanding_calls ?_ xs
        have hthrough := mem_outstanding_getKey c.trace user
        rw [afterCall, hup]
        exact hthrough
      | succ i =>
        refine h.2 i u (by simpa using hu) fun j hj => ?_
        have hj' := hall (j + 1) (Nat.succ_le_succ hj)
        have hlen : (c.afterCall (.getKey (.str user))).trace.length = c.trace.length + 1 := by
          simp [afterCall]
        rw [hlen]
        rw [show c.trace.length + 1 + j = c.trace.length + (j + 1) by omega]
        exact hj'
    exact (ih _).mono (fun _ => hdone) (fun _ => hdone)

/-- One more text is held. -/
def holding (c : ChatController) (target text : Str) : ChatController :=
  { c with held := PyDict.insert c.held target ((PyDict.get c.held target).getD [] ++ [text]) }

/-- Holding a text puts it last among the held ones; the keys are asked for only with the
first. -/
theorem hold_ends (c : ChatController) (target text : Str) (fetch : List Str) :
    Ends (hold target text fetch) c
      (fun _ c' => Called (c.holding target text) c' ∧
        (PyDict.has c.held target = false → c.Requested fetch c'))
      (fun _ c' => Called (c.holding target text) c' ∧
        (PyDict.has c.held target = false → c.Requested fetch c')) := by
  refine ends_get ?_
  have hmodify : exec (modify fun c : ChatController => c.holding target text : ClientM PUnit) c =
      (.ok ⟨⟩, c.holding target text) := rfl
  unfold Ends
  dsimp only
  rw [exec_bind]
  erw [hmodify]
  cases PyDict.has c.held target with
  | false =>
    have hrequests : ∀ c', Called (c.holding target text) c' ∧
        (c.holding target text).Requested fetch c' →
        Called (c.holding target text) c' ∧ (false = false → c.Requested fetch c') :=
      fun c' h => ⟨h.1, fun _ => h.2⟩
    exact (requests_ends fetch _).mono (fun _ => hrequests) (fun _ => hrequests)
  | true => exact ⟨Called.refl _, fun h => by cases h⟩

variable [Crypto]

/-- What is left of a text that was typed too early. -/
def Waited (k : Keyring) (target text : Str) (c c' : ChatController) : Prop :=
  ∃ k', k.Same k' ∧ Called (({ c with keyring := some k' } : ChatController).holding target text) c' ∧
    (PyDict.has c.held target = false → c.Requested (k.missingKeys (c.needs target)) c')

omit [Runtime] in
/-- **What is sent too early is held**, and sealing it was no more than a look. -/
theorem transmit_holds {c : ChatController} {k : Keyring} {target : Str} (hk : c.keyring = some k)
    (hs : k.Consistent) (hmissing : k.missingKeys (c.needs target) ≠ []) (text : Str) :
    ∃ k', k.Same k' ∧ exec (transmit target text c.me) c =
      exec (do hold target text (k.missingKeys (c.needs target)); return none) { c with keyring := some k' } := by
  unfold transmit
  rw [exec_bind, exec_get]
  dsimp only
  rw [hk]
  dsimp only
  cases hroom : target.isRoom with
  | true =>
    have hneeds : c.needs target = (c.model.roomMembers target).filter fun name => name ≠ c.me := if_pos hroom
    refine ⟨k, .refl hs, ?_⟩
    rw [if_pos rfl, ← hk]
    unfold sendToRoom
    rw [exec_bind, exec_get]
    dsimp only
    rw [← hneeds, if_pos (by simpa using hmissing)]
  | false =>
    have hneeds : c.needs target = [target] := if_neg (by rw [hroom]; decide)
    have hknows : k.knows target = false := by
      rw [hneeds] at hmissing
      by_contra h
      refine hmissing (Keyring.missingKeys_eq_nil.mpr fun u hu => ?_)
      rw [List.mem_singleton.mp hu]
      simpa using h
    -- no key, nothing to encode for
    have hunknown : k.shared target = .ok none := by
      unfold Keyring.shared
      cases hp : PyDict.get k.pubkeys target with
      | none => rfl
      | some pubkey => simp [Keyring.knows, PyDict.has, hp] at hknows
    have hseal : ∃ k', k.Same k' ∧ exec (Keyring.seal' target text c.me) k = (.ok none, k') := by
      obtain ⟨hkey, hsame⟩ := Keyring.exec_key hs target
      rw [hunknown] at hkey
      refine ⟨_, hsame, ?_⟩
      unfold Keyring.seal'
      rw [exec_bind]
      cases hrun : exec (Keyring.key target) k with
      | mk r k' =>
        rw [hrun] at hkey
        dsimp only at hkey
        rw [hkey]
        rfl
    obtain ⟨k', hsame, hseal⟩ := hseal
    refine ⟨k', hsame, ?_⟩
    have hfetch : k.missingKeys (c.needs target) = [target] := by rw [hneeds, Keyring.missingKeys_singleton hknows]
    have hkeyring : exec (onKeyring k (Keyring.seal' target text c.me)) c =
        (.ok none, { c with keyring := some k' }) := by
      unfold onKeyring
      rw [hseal]
      rfl
    rw [if_neg (by decide), exec_bind, hkeyring, hfetch]

omit [Runtime] in
/-- A text for the active conversation is held when a key it needs is missing. -/
theorem send_holds {c : ChatController} {k : Keyring} {target : Str} (hk : c.keyring = some k)
    (hs : k.Consistent) (hmissing : k.missingKeys (c.needs target) ≠ [])
    (hactive : c.model.active = some target) {text : Str} (htext : text.strip.isEmpty = false) :
    ∃ k', k.Same k' ∧ exec (send text) c =
      exec (hold target text (k.missingKeys (c.needs target))) { c with keyring := some k' } := by
  obtain ⟨k', hsame, htransmit⟩ := transmit_holds hk hs hmissing text
  refine ⟨k', hsame, ?_⟩
  unfold send
  rw [exec_bind, exec_get]
  dsimp only
  rw [hactive]
  dsimp only
  rw [htext]
  simp only [Bool.false_eq_true, if_false]
  rw [exec_bind, exec_get]
  dsimp only
  rw [exec_bind, htransmit, exec_bind]
  rcases exec (hold target text (k.missingKeys (c.needs target))) { c with keyring := some k' } with ⟨e | u, c'⟩
  · rfl
  · rfl

/-- **A text whose keys are not all here is held**, and nothing else happens. -/
theorem send_waits {c : ChatController} {k : Keyring} {target : Str} (hk : c.keyring = some k)
    (hs : k.Consistent) (hmissing : k.missingKeys (c.needs target) ≠ [])
    (hactive : c.model.active = some target) {text : Str} (htext : text.strip.isEmpty = false) :
    Ends (send text) c (fun _ c' => Waited k target text c c') (fun _ c' => Waited k target text c c') := by
  obtain ⟨k', hsame, hsend⟩ := send_holds hk hs hmissing hactive htext
  have hhold := (hold_ends { c with keyring := some k' } target text (k.missingKeys (c.needs target))).mono
    (fun _ _ h => show Waited k target text c _ from ⟨k', hsame, h.1, h.2⟩)
    fun _ _ h => show Waited k target text c _ from ⟨k', hsame, h.1, h.2⟩
  unfold Ends at hhold ⊢
  rw [hsend]
  exact hhold

end Holding

end ChatController

end Ciphertext
