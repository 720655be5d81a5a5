import Ciphertext.Client.Arriving

/-!
# Texts that wait for a key

Every input keeps `Tended`, which is `Waits` with a name that somebody is logged in
under and a keyring that is consistent. Most leave alone what it is about
(`Tended.aside`). `send` may add a text, and asks for what the text needs
(`send_tended`); an answer takes a request away, and is harmless where nothing held
needs that key, or brings it (`key_tended`); a ROOM_STATE and a LOGIN_OK may change whose
keys a held text needs (`roomState_tended`, `loggedIn_tended`).

So a run whose inputs all heed the conditions of `Heeds` never leaves a text stuck
(`waits_of_heeded`). Without them one is, as in `typedEarly_stuck`: the connection is
down when the key is asked for, the call raises, and nobody asks again.
-/

namespace Ciphertext

open Act

namespace ChatController

section Steps

variable [Crypto] [Runtime]

theorem Tended.aside {c c' : ChatController} (h : Tended c) (hc : c.Aside c') : Tended c' := by
  obtain ⟨k, hk, hs, hexp⟩ := h.keyring
  obtain ⟨k', hk', hsame⟩ := hc.keyring k hk hs
  refine ⟨⟨k', hk', hsame.consistent, fun t ht => ?_⟩, hc.username ▸ h.named, hc.held ▸ h.nodup⟩
  rw [hc.held] at ht
  rw [hc.along.needs]
  exact (hexp t ht).mono (fun u _ => hsame.knows u) (mem_outstanding_along hc.along)

theorem Tended.steps {α : Type} {m : ClientM α} (hm : Steps Aside m) {c : ChatController}
    (h : Tended c) : Ends m c (fun _ c' => Tended c') (fun _ c' => Tended c') :=
  (hm.ends c).mono (fun _ _ hc => h.aside hc) fun _ _ hc => h.aside hc

/-- A text goes out. -/
theorem Sent.tended {c c' : ChatController} {n : Nat} {target : Str} (h : Tended c)
    (hc : Sent n target c c') (hown : target.isRoom = true → PyDict.has c.held c.me = false) :
    Tended c' := by
  cases hroom : target.isRoom with
  | false => exact h.aside (hc.aside hroom)
  | true =>
    obtain ⟨k, hk, hs, hexp⟩ := h.keyring
    obtain ⟨k', hk', halong⟩ := hc.along.keyring k hk hs
    refine ⟨⟨k', hk', halong.consistent, fun t ht => ?_⟩, hc.along.username ▸ h.named, hc.held ▸ h.nodup⟩
    rw [hc.held] at ht
    rw [hc.along.needs]
    refine (hexp t ht).mono (fun u hu => halong.knows (ne_me_of_mem_needs ?_ hu))
      (mem_outstanding_along hc.along)
    intro he
    rw [he, hown hroom] at ht
    cases ht

/-- A text is held. -/
theorem Waited.tended {c c' : ChatController} {k : Keyring} {target text : Str} (h : Tended c)
    (hk : c.keyring = some k) (hmissing : k.missingKeys (c.needs target) ≠ [])
    (hasks : PyDict.has c.held target = false → Asks c (k.missingKeys (c.needs target)))
    (hc : Waited k target text c c') : Tended c' := by
  obtain ⟨k₀, hk₀, hs, hexp⟩ := h.keyring
  rw [hk] at hk₀
  cases hk₀
  have hre := hc.reheld hk
  have hold := mem_outstanding_along hre.beyond.along
  obtain ⟨k', hk', hsame⟩ := hre.beyond.keyring k hk hs
  refine ⟨⟨k', hk', hsame.consistent, fun t ht => ?_⟩, hre.beyond.along.username ▸ h.named, hre.nodup h.nodup⟩
  rw [hre.beyond.along.needs]
  refine Expects.mono ?_ (fun u _ => hsame.knows u) (fun _ hu => hu)
  by_cases he : t = target
  · subst he
    cases hheld : PyDict.has c.held t with
    | true => exact ⟨hmissing, fun u hu => hold u ((hexp t hheld).2 u hu)⟩
    | false =>
      -- the first text for this target: what is missing is asked for now
      obtain ⟨-, -, -, hrequested⟩ := hc
      refine ⟨hmissing, fun u hu => ?_⟩
      obtain ⟨i, hi⟩ := List.mem_iff_getElem?.mp hu
      rcases hasks hheld i u hi with hbefore | hup
      · exact hold u hbefore
      · exact hrequested hheld i u hi hup
  · rw [hre.others t he] at ht
    exact (hexp t ht).mono (fun _ _ => rfl) hold

/-- A text is typed. -/
theorem send_tended {c : ChatController} (h : Tended c) {text : Str} (hheeds : Heeds c (.send text)) :
    Ends (send text) c (fun _ c' => Tended c') (fun _ c' => Tended c') := by
  obtain ⟨k, hk, hs, hexp⟩ := h.keyring
  cases hactive : c.model.active with
  | none =>
    refine ends_get ?_
    rw [hactive]
    exact h
  | some target =>
    cases htext : text.strip.isEmpty with
    | true =>
      refine ends_get ?_
      rw [hactive]
      dsimp only
      rw [htext]
      exact h
    | false =>
      have hsend := hheeds k target hk hactive htext
      by_cases hready : k.missingKeys (c.needs target) = []
      · have hown := fun hroom => hsend.2 hroom hready
        exact (send_ready hk hs hready hactive htext).mono (fun _ _ hc => hc.sent.tended h hown)
          fun _ _ hc => hc.blocked.1.tended h hown
      · exact (send_waits hk hs hready hactive htext).mono (fun _ _ hc => hc.tended h hk hready hsend.1)
          fun _ _ hc => hc.tended h hk hready hsend.1

/-! ### Frames -/

omit [Crypto] in
theorem outstanding_noted (c : ChatController) (f : Frame) :
    outstanding (c.noted f).trace = match answers f with
      | some user => (outstanding c.trace).erase user
      | none => outstanding c.trace := outstanding_append _ _

/-- A frame that answers nobody. -/
theorem Tended.noted {c : ChatController} (h : Tended c) {f : Frame} (hf : answers f = none) :
    Tended (c.noted f) := by
  obtain ⟨k, hk, hs, hexp⟩ := h.keyring
  refine ⟨⟨k, hk, hs, fun t ht => ?_⟩, h.named, h.nodup⟩
  rw [outstanding_noted, hf]
  exact hexp t ht

/-- An answer that brings no key. -/
theorem Tended.turnedDown {c : ChatController} (h : Tended c) {f : Frame} {user : Str}
    (hf : answers f = some user) (hheeds : ∀ k, c.keyring = some k → HeedsRefusal c k user) :
    Tended (c.noted f) := by
  obtain ⟨k, hk, hs, hexp⟩ := h.keyring
  refine ⟨⟨k, hk, hs, fun t ht => ⟨(hexp t ht).1, fun u hu => ?_⟩⟩, h.named, h.nodup⟩
  rw [outstanding_noted, hf]
  by_cases he : u = user
  · rw [he]
    exact hheeds k hk t ht (he ▸ hu)
  · exact (List.mem_erase_of_ne he).mpr ((hexp t ht).2 u hu)

/-- The model changes, but for our name and the rooms. -/
theorem Tended.withModel {c : ChatController} (h : Tended c) {m : ChatModel}
    (hname : m.username = c.model.username) (hrooms : m.rooms = c.model.rooms) :
    Tended { c with model := m } := by
  obtain ⟨k, hk, hs, hexp⟩ := h.keyring
  have hneeds : ∀ t, ({ c with model := m } : ChatController).needs t = c.needs t := by
    intro t
    have hme : ({ c with model := m } : ChatController).me = c.me := by
      unfold me
      rw [hname]
    rw [needs, needs, hme, ChatModel.roomMembers, ChatModel.roomMembers, hrooms]
  refine ⟨⟨k, hk, hs, fun t ht => ?_⟩, ?_, h.nodup⟩
  · rw [hneeds t]
    exact hexp t ht
  · show m.username ≠ some []
    rw [hname]
    exact h.named

/-- The controller with the key, ready to send. -/
theorem Tended.arrived {c : ChatController} (h : Tended c) {k : Keyring} (hk : c.keyring = some k)
    {f : Frame} {user : Str} (pubkey : Str) (hanswers : answers f = some user) :
    Arrived { c.noted f with keyring := some (k.remember user pubkey) } (k.remember user pubkey) user := by
  obtain ⟨k₀, hk₀, hs, hexp⟩ := h.keyring
  rw [hk] at hk₀
  cases hk₀
  have hout := outstanding_noted c f
  rw [hanswers] at hout
  -- what is missing now was missing before, and is somebody else's
  have hwaits : ∀ t, PyDict.has c.held t = true → (k.remember user pubkey).missingKeys (c.needs t) ≠ [] →
      Expects (k.remember user pubkey) ((outstanding c.trace).erase user) (c.needs t) := by
    refine fun t ht hne => ⟨hne, fun u hu => ?_⟩
    rw [Keyring.mem_missingKeys, Keyring.remember_knows, Bool.or_eq_false_iff, decide_eq_false_iff_not] at hu
    exact (List.mem_erase_of_ne hu.2.1).mpr
      ((hexp t ht).2 u (Keyring.mem_missingKeys.mpr ⟨hu.1, hu.2.2⟩))
  refine ⟨rfl, Keyring.remember_consistent hs user pubkey, h.named, h.nodup, ?_, fun t ht hne hnot => ?_,
    fun ht hne => ?_⟩
  · rw [Keyring.remember_knows]
    simp
  · show Expects _ (outstanding (c.noted f).trace) (c.needs t)
    rw [hout]
    refine hwaits t ht fun hnil => ?_
    by_cases hroom : t.isRoom = true
    · exact hnot (mem_completed.mpr ⟨ht, hroom, hne, hnil⟩)
    · obtain ⟨hmissing, -⟩ := hexp t ht
      rw [needs, if_neg hroom] at hmissing hnil
      refine hmissing (Keyring.missingKeys_eq_nil.mpr fun u hu => ?_)
      have hu' := Keyring.missingKeys_eq_nil.mp hnil u hu
      rw [List.mem_singleton] at hu
      rw [Keyring.remember_knows, hu] at hu'
      rw [hu]
      simpa [hne] using hu'
  · show Expects _ (outstanding (c.noted f).trace) (c.needs user)
    rw [hout]
    exact hwaits user ht hne

/-- **A KEY frame.** -/
theorem key_tended {c : ChatController} (h : Tended c) {f : Frame} (htype : f.type = .key)
    (hheeds : Heeds c (.frame f)) :
    Ends (key f) (c.noted f) (fun _ c' => Tended c') (fun _ c' => Tended c') := by
  obtain ⟨k, hk, hs, hexp⟩ := h.keyring
  have hframe := hheeds k hk
  unfold HeedsFrame at hframe
  rw [htype] at hframe
  have hanswers : answers f = if (f.get "user").truthy then some (f.get "user").pyStr else none := by
    unfold answers
    rw [htype]
  refine ends_get ?_
  have hk' : (c.noted f).keyring = some k := hk
  rw [hk']
  dsimp only
  cases huser : (f.get "user").truthy with
  | false =>
    rw [huser] at hanswers
    exact h.noted hanswers
  | true =>
    rw [huser] at hanswers
    have hanswers' : answers f = some (f.get "user").pyStr := hanswers
    cases hpubkey : (f.get "pubkey").truthy with
    | false =>
      have hrefused := hframe huser
      rw [hpubkey] at hrefused
      refine h.turnedDown hanswers' fun k₁ hk₁ => ?_
      rw [hk] at hk₁
      cases hk₁
      exact hrefused
    | true =>
      have hkey := hframe huser
      rw [hpubkey] at hkey
      have harrived := h.arrived hk (f.get "pubkey").pyStr hanswers'
      have hheedsKey : HeedsKey { c.noted f with
          keyring := some (k.remember (f.get "user").pyStr (f.get "pubkey").pyStr) }
          (k.remember (f.get "user").pyStr (f.get "pubkey").pyStr) (f.get "user").pyStr :=
        ⟨hkey.own, hkey.notRoom, hkey.noticed, hkey.calls, hkey.encodes, hkey.usable, hkey.fileable,
          hkey.settles, hkey.members⟩
      rw [if_neg (by decide)]
      exact ends_modify_bind (arrived_tended harrived hheedsKey)

omit [Crypto] [Runtime] in
theorem roomMembers_setRoomMembers (m : ChatModel) (room : Str) (members : List Str) (t : Str) :
    (m.setRoomMembers room members).roomMembers t =
      if t = room then Str.sorted members else m.roomMembers t := by
  unfold ChatModel.setRoomMembers ChatModel.roomMembers
  dsimp only
  split
  · next h =>
    split
    · next ht => rw [ht, h]; rfl
    · rfl
  · split
    · next ht =>
      rw [ht]
      show (PyDict.get (PyDict.insert m.rooms room _) room).getD [] = _
      rw [PyDict.get_insert_self]
      rfl
    · next ht =>
      show (PyDict.get (PyDict.insert m.rooms room _) t).getD [] = _
      rw [PyDict.get_insert_ne _ _ ht]

omit [Crypto] [Runtime] in
theorem username_setRoomMembers (m : ChatModel) (room : Str) (members : List Str) :
    (m.setRoomMembers room members).username = m.username := by
  obtain ⟨rooms, conversations, es, hset, -⟩ := ChatModel.setRoomMembers_eq m room members
  rw [hset]
  rfl

/-- The members of a room are replaced, and those who are in it now still wait. -/
theorem Tended.setRoomMembers {c : ChatController} (h : Tended c) (room : Str) (members : List Str)
    (hroom : ∀ k, c.keyring = some k → room.isRoom = true → PyDict.has c.held room = true →
      Expects k (outstanding c.trace) ((Str.sorted members).filter fun name => name ≠ c.me)) :
    Tended { c with model := c.model.setRoomMembers room members } := by
  obtain ⟨k, hk, hs, hexp⟩ := h.keyring
  have hname := username_setRoomMembers c.model room members
  refine ⟨⟨k, hk, hs, fun t ht => ?_⟩, ?_, h.nodup⟩
  · have hme : ({ c with model := c.model.setRoomMembers room members } : ChatController).me = c.me := by
      unfold me
      rw [hname]
    rw [needs, hme, roomMembers_setRoomMembers]
    by_cases hr : t.isRoom = true
    · rw [if_pos hr]
      by_cases ht' : t = room
      · rw [if_pos ht']
        subst ht'
        exact hroom k hk hr ht
      · rw [if_neg ht']
        have hold := hexp t ht
        rwa [needs, if_pos hr] at hold
    · rw [if_neg hr]
      have hold := hexp t ht
      rwa [needs, if_neg hr] at hold
  · show (c.model.setRoomMembers room members).username ≠ some []
    rw [hname]
    exact h.named

/-- **A ROOM_STATE frame.** -/
theorem roomState_tended {c : ChatController} (h : Tended c) {f : Frame} (htype : f.type = .roomState)
    (hheeds : Heeds c (.frame f)) :
    Ends (roomState f) (c.noted f) (fun _ c' => Tended c') (fun _ c' => Tended c') := by
  have hanswers : answers f = none := by
    unfold answers
    rw [htype]
  have hnoted := h.noted hanswers
  unfold roomState
  dsimp only
  cases htruthy : ((f.get "room").orElse f.target).truthy with
  | false => exact hnoted
  | true =>
    simp only [Bool.not_true, Bool.false_eq_true, if_false]
    refine ends_lift (fun members hiter => ?_) fun _ _ => hnoted
    · have hset := hnoted.setRoomMembers ((f.get "room").orElse f.target).pyStr
        (members.map Json.pyStr) fun k hk hroom hheld => by
          have hframe := hheeds k hk
          unfold HeedsFrame at hframe
          rw [htype] at hframe
          rw [outstanding_noted, hanswers]
          exact hframe members hiter htruthy hroom hheld
      have hmodel : Ends (onModel fun m => m.setRoomMembers ((f.get "room").orElse f.target).pyStr
          (members.map Json.pyStr)) (c.noted f) (fun _ c' => Tended c') (fun _ c' => Tended c') := hset
      refine hmodel.bind fun _ c₁ hc₁ => hc₁.steps (steps_get fun c₂ => ?_)
      cases c₂.pendingRoom with
      | none => exact Aside.refl c₂
      | some p =>
        dsimp only
        split
        · refine aside_bind ?_ (fun _ => select_aside _) c₂
          exact aside_modify fun _ => ⟨rfl, rfl, rfl, rfl, rfl⟩
        · exact Aside.refl c₂

theorem replaceContacts_tended {c : ChatController} (h : Tended c) (contacts : Json) :
    Ends (replaceContacts contacts) c (fun _ c' => Tended c') (fun _ c' => Tended c') := by
  refine ends_lift (fun entries _ => ends_get ?_) fun _ _ => h
  refine ends_lift (fun model hmodel => ?_) fun _ _ => h
  obtain ⟨contacts, roster, es, rfl, -⟩ := ChatModel.replaceContacts_cases hmodel
  exact h.withModel rfl rfl

/-- **A LOGIN_OK frame.** -/
theorem loggedIn_tended {c : ChatController} (h : Tended c) {f : Frame} (htype : f.type = .loginOk)
    (hheeds : Heeds c (.frame f)) :
    Ends (loggedIn f) (c.noted f) (fun _ c' => Tended c') (fun _ c' => Tended c') := by
  have hanswers : answers f = none := by
    unfold answers
    rw [htype]
  have hnoted := h.noted hanswers
  have hrest : ∀ c' : ChatController, Tended c' → Ends (do
      let roster ← lift (iter ((f.get "roster").orElse (.list [])))
      onModel fun m => m.replaceRoster (roster.map Json.pyStr)
      replaceContacts (f.get "contacts") : ClientM Unit) c' (fun _ c' => Tended c')
      (fun _ c' => Tended c') := by
    intro c' hc'
    refine ends_lift (fun users _ => ?_) fun _ _ => hc'
    have hroster : Ends (onModel fun m => m.replaceRoster (users.map Json.pyStr)) c'
        (fun _ c' => Tended c') (fun _ c' => Tended c') := hc'.withModel rfl rfl
    exact hroster.bind fun _ c₂ hc₂ => replaceContacts_tended hc₂ _
  unfold loggedIn
  dsimp only
  split
  · next htruthy =>
    obtain ⟨k, hk, hs, hexp⟩ := h.keyring
    have hframe := hheeds k hk
    unfold HeedsFrame at hframe
    rw [htype] at hframe
    obtain ⟨hne, hrooms⟩ := hframe htruthy
    have hidentity : Ends (onModel fun m => m.setIdentity (f.get "user").pyStr) (c.noted f)
        (fun _ c' => Tended c') (fun _ c' => Tended c') := by
      refine ⟨⟨k, hk, hs, fun t ht => ?_⟩, fun he => hne (Option.some.inj he), h.nodup⟩
      show Expects k (outstanding (c.noted f).trace) _
      rw [outstanding_noted, hanswers, needs, me_eq rfl hne]
      by_cases hr : t.isRoom = true
      · rw [if_pos hr]
        exact hrooms t hr ht
      · have hold := hexp t ht
        rw [needs, if_neg hr] at hold
        rw [if_neg hr]
        exact hold
    exact hidentity.bind fun _ => hrest
  · exact hrest _ hnoted

/-- **Every frame.** -/
theorem onFrame_tended {c : ChatController} (h : Tended c) {f : Frame} (hheeds : Heeds c (.frame f)) :
    Ends (onFrame f) c (fun _ c' => Tended c') (fun _ c' => Tended c') := by
  refine ends_modify_bind ?_
  have hquiet : ∀ {m : ClientM Unit}, answers f = none → Steps Aside m →
      Ends m (c.noted f) (fun _ c' => Tended c') (fun _ c' => Tended c') :=
    fun hf hm => (h.noted hf).steps hm
  cases htype : f.type with
  | key => exact key_tended h htype hheeds
  | roomState => exact roomState_tended h htype hheeds
  | loginOk => exact loggedIn_tended h htype hheeds
  | error =>
    have herror : Tended (c.noted f) := by
      cases hf : answers f with
      | none => exact h.noted hf
      | some user =>
        refine h.turnedDown hf fun k hk => ?_
        have hframe := hheeds k hk
        unfold HeedsFrame at hframe
        rw [htype] at hframe
        exact hframe user hf
    exact herror.steps (onError_aside _)
  | presence =>
    have hf : answers f = none := by unfold answers; rw [htype]
    show Ends (presence f) _ _ _
    unfold presence
    dsimp only
    split
    · exact (h.noted hf).withModel rfl rfl
    · exact h.noted hf
  | contacts =>
    have hf : answers f = none := by unfold answers; rw [htype]
    refine (replaceContacts_tended (h.noted hf) _).bind fun _ c₂ hc₂ => ?_
    exact hc₂.steps openPendingUser_aside
  | msg => exact hquiet (by unfold answers; rw [htype]) (incomingMessage_aside f)
  | typing => exact hquiet (by unfold answers; rw [htype]) (incomingTyping_aside f)
  | receipt => exact hquiet (by unfold answers; rw [htype]) (receipt_aside f)
  | historyResult => exact hquiet (by unfold answers; rw [htype]) (historyResult_aside f)
  | _ => exact hquiet (by unfold answers; rw [htype]) (aside_pure _)

/-- **One step.** -/
theorem step_tended {c : ChatController} (h : Tended c) {g : Gesture} (hheeds : Heeds c g) :
    Tended (c.step g) := by
  have hends : Ends (handle g) c (fun _ c' => Tended c') (fun _ c' => Tended c') := by
    cases g with
    | send text => exact send_tended h hheeds
    | frame f => exact onFrame_tended h hheeds
    | select key => exact h.steps (select_aside key)
    | selectNone => exact h.steps selectNone_aside
    | ping => exact h.steps (call_unit_aside _)
    | typing on => exact h.steps (typing_aside on)
    | requestHistory key limit => exact h.steps (requestHistory_aside key limit)
    | createRoom room members => exact h.steps (call_unit_aside _)
    | invite room members => exact h.steps (call_unit_aside _)
    | openConversation user => exact h.steps (openConversation_aside user)
    | openRoom room members => exact h.steps (openRoom_aside room members)
    | addContact user => exact h.steps (call_unit_aside _)
    | removeContact user => exact h.steps (call_unit_aside _)
    | join room => exact h.steps (call_unit_aside _)
    | leave room => exact h.steps (call_unit_aside _)
    | state st => exact h.withModel rfl rfl
  unfold Ends at hends
  show Tended (exec (handle g) c).2
  split at hends <;> next he =>
    rw [he]
    exact hends

theorem run_tended {gs : List Gesture} : ∀ {c : ChatController}, Tended c → Heeded c gs →
    Tended (c.run gs) := by
  induction gs with
  | nil => exact fun h _ => h
  | cons g gs ih => exact fun h hgs => ih (step_tended h hgs.1) hgs.2

/-- A controller as the client's `main` builds it. -/
def fresh (identity : Identity) (urandom : Nat → List UInt8) (connection : Outlet) (clock : Nat → Int) :
    ChatController where
  keyring := some { identity, urandom }
  connection := connection
  clock := clock

theorem fresh_tended (identity : Identity) (urandom : Nat → List UInt8) (connection : Outlet)
    (clock : Nat → Int) : Tended (fresh identity urandom connection clock) :=
  ⟨⟨_, rfl, ⟨fun _ _ h => absurd h (by simp), fun h => absurd rfl h⟩, fun _ h => absurd h (by simp [fresh, PyDict.has])⟩,
    by simp [fresh], List.nodup_nil⟩

/-- **Every held text waits for something**, in every state of a run in which no
request for a key fails, no answer to one comes without a key while a text needs
it, no room changes under a text held for it, and nothing raises on the way from a
key to the rooms it completes. -/
theorem waits_of_heeded (identity : Identity) (urandom : Nat → List UInt8) (connection : Outlet)
    (clock : Nat → Int) {gs : List Gesture} (hgs : Heeded (fresh identity urandom connection clock) gs) :
    Waits ((fresh identity urandom connection clock).run gs) := by
  obtain ⟨k, hk, -, hexp⟩ := (run_tended (fresh_tended identity urandom connection clock) hgs).keyring
  exact ⟨k, hk, hexp⟩

end Steps

end ChatController

/-! ## A text without its request -/

namespace Sample

/-- A cipher for the examples: it leaves the text alone. -/
@[reducible] def stillCrypto : Crypto where
  publicB64 _ := "p"
  keyFor _ _ := .ok [0]
  encrypt _ text _ _ := (text, "n")
  open' _ _ _ _ := .failed

/-- A login, and a text typed before its key is here. -/
def typedEarly : List ChatController.Gesture :=
  [.frame { type := .loginOk, data := [("user", .str "a")], id := .str "i", ts := 0 }, .select "b",
    .send "hi"]

end Sample

namespace ChatController

section Concrete

open Sample

attribute [local instance] stillCrypto sampleRuntime

/-- Logged in, a text for `b` is typed; its key is on the way. -/
theorem typedEarly_waits :
    PyDict.has ((fresh [] (fun _ => []) (fun _ => some ("i", 1)) (fun _ => 0)).run typedEarly).held "b" =
      true ∧
    Waits ((fresh [] (fun _ => []) (fun _ => some ("i", 1)) (fun _ => 0)).run typedEarly) := by
  refine ⟨by decide +kernel, waits_of_heeded [] _ _ _ ⟨fun k hk htruthy => ⟨by decide, ?_⟩, trivial, ?_, trivial⟩⟩
  · intro room _ hheld
    exact absurd hheld (by simp [fresh, PyDict.has])
  · intro k target hk hactive _
    refine ⟨fun _ i u _ => .inr fun _ _ => rfl, fun hroom => ?_⟩
    have htarget : target = "b" := (Option.some.inj (hactive.symm.trans (by decide +kernel)))
    rw [htarget] at hroom
    exact absurd hroom (by decide)

/-- The same with the connection down: the text is held, and nobody was asked. -/
theorem typedEarly_stuck :
    PyDict.has ((fresh [] (fun _ => []) (fun _ => none) (fun _ => 0)).run typedEarly).held "b" = true ∧
    ¬ Waits ((fresh [] (fun _ => []) (fun _ => none) (fun _ => 0)).run typedEarly) := by
  refine ⟨by decide +kernel, ?_⟩
  rintro ⟨k, -, h⟩
  obtain ⟨hne, hasked⟩ := h "b" (by decide +kernel)
  obtain ⟨u, hu⟩ := List.exists_mem_of_ne_nil _ hne
  have hnone : outstanding ((fresh [] (fun _ => []) (fun _ => none) (fun _ => 0)).run typedEarly).trace =
      [] := by decide +kernel
  have := hasked u hu
  rw [hnone] at this
  cases this

end Concrete

end ChatController

end Ciphertext
