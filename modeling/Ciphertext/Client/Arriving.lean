import Ciphertext.Client.Changes

/-!
# A key arrives

A text typed before the keys for it are here is held, and `get_key` is called for
the ones that are missing. `Waits` says that no held text is stuck: for each
target something is missing, and all of it has been asked for and not answered.

Four things break it, and `Heeds` names them, each as a condition on the state before
the input: a `get_key` that raises, an answer that brings no key, a change of a room's
members (or of our own name) while a text for the room is held, and an exception on
the way from a KEY frame to the rooms it completes. The last is the long one
(`HeedsKey`), since `_key` releases the user's own texts, files what waited for the
key, and then releases room by room, on one connection: every call has to go through,
every text has to have an encoding and every key has to be one.

`Stage` is what holds in between, with the targets still to do, and `Loop` that with
the calls still to come. Each part of `_key` leads from stage to stage
(`release_stage`, `deliver_stage`, `releaseRoom_loop`), and at the end nothing is left to
do (`arrived_tended`). `Waiting` has all the other inputs, and the runs.
-/

namespace Ciphertext

open Act

namespace ChatController

/-- Some of these keys are missing, and those were asked for. -/
def Expects (k : Keyring) (asked names : List Str) : Prop :=
  k.missingKeys names ≠ [] ∧ ∀ u ∈ k.missingKeys names, u ∈ asked

/-- Every held text waits for something. -/
def Waits [Runtime] (c : ChatController) : Prop :=
  ∃ k, c.keyring = some k ∧
    ∀ target, PyDict.has c.held target = true → Expects k (outstanding c.trace) (c.needs target)

/-! ## What has to go well -/

section Heeds

variable [Crypto] [Runtime]

/-- The requests for these keys get through, as far as they are new. -/
def Asks (c : ChatController) (fetch : List Str) : Prop :=
  ∀ i u, fetch[i]? = some u → u ∈ outstanding c.trace ∨
    ∀ j ≤ i, (c.connection (c.trace.length + j)).isSome = true

/-- Sending: the keys that are missing are asked for, and nothing is held for
ourselves when our own key turns up. -/
def HeedsSend (c : ChatController) (k : Keyring) (target : Str) : Prop :=
  (PyDict.has c.held target = false → Asks c (k.missingKeys (c.needs target))) ∧
    (target.isRoom = true → k.missingKeys (c.needs target) = [] → PyDict.has c.held c.me = false)

/-- The other rooms in which no key is missing any more. -/
def completed (c : ChatController) (k : Keyring) (user : Str) : List Str :=
  ((c.held.map Prod.fst).filter Str.isRoom).filter fun room =>
    room ≠ user && (k.missingKeys (c.needs room)).isEmpty

/-- A key arrives, and `k` is the keyring with it. Where it completes rooms,
nothing raises before the last of them is taken up (no call, no public key that is
none, no text without an encoding and no frame that waited); and where a room text
is sealed, nothing is held for ourselves. -/
structure HeedsKey (c : ChatController) (k : Keyring) (user : Str) : Prop where
  own : c.completed k user ≠ [] ∨ (user.isRoom = true ∧ k.missingKeys (c.needs user) = []) →
    PyDict.has c.held c.me = false ∨ c.me = user
  notRoom : c.completed k user ≠ [] → user.isRoom = true → PyDict.has c.held user = false
  noticed : ∀ room ∈ c.completed k user, c.me ∈ c.model.roomMembers room →
    c.model.username = some c.me ∨ k.knows c.me = true
  calls : c.completed k user ≠ [] →
    ∀ j < (c.texts user).length + (c.awaited user).length +
        (((c.completed k user).dropLast.map fun room => (c.texts room).length).sum),
      (c.connection (c.trace.length + j)).isSome = true
  encodes : c.completed k user ≠ [] → ∀ text ∈ c.texts user ++ (c.completed k user).dropLast.flatMap c.texts,
    text.strip.isEmpty = false → Keyring.Encodes text c.me
  usable : c.completed k user ≠ [] → PyDict.has c.held user = true → k.Usable user
  fileable : c.completed k user ≠ [] → ∀ f ∈ c.awaited user, Fileable k user f
  settles : c.completed k user ≠ [] → c.model.SettlesAll ((c.awaited user).map (Frame.typist user))
  members : ∀ room ∈ (c.completed k user).dropLast, ∀ u ∈ c.me :: c.model.roomMembers room,
    (k.named c.me).Usable u

/-- An answer without a key: nobody waits for that one, or it was asked for
again. -/
def HeedsRefusal (c : ChatController) (k : Keyring) (user : Str) : Prop :=
  ∀ target, PyDict.has c.held target = true → user ∈ k.missingKeys (c.needs target) →
    user ∈ (outstanding c.trace).erase user

/-- The frame is on the trace when it is looked at. -/
def noted (c : ChatController) (f : Frame) : ChatController :=
  { c with trace := c.trace ++ [.received f] }

def HeedsFrame (c : ChatController) (k : Keyring) (f : Frame) : Prop :=
  match f.type with
  | .key =>
    (f.get "user").truthy = true →
      if (f.get "pubkey").truthy then
        HeedsKey (c.noted f) (k.remember (f.get "user").pyStr (f.get "pubkey").pyStr)
          (f.get "user").pyStr
      else HeedsRefusal c k (f.get "user").pyStr
  | .error => ∀ user, answers f = some user → HeedsRefusal c k user
  | .roomState =>
    -- who is in the room now still waits, and nobody has to be asked for anew
    ∀ members, iter ((f.get "members").orElse (.list [])) = .ok members →
      let room := ((f.get "room").orElse f.target).pyStr
      ((f.get "room").orElse f.target).truthy = true → room.isRoom = true →
      PyDict.has c.held room = true →
      Expects k (outstanding c.trace)
        ((Str.sorted (members.map Json.pyStr)).filter fun name => name ≠ c.me)
  | .loginOk =>
    -- and the same where it is our own name that changes
    (f.get "user").truthy = true → (f.get "user").pyStr ≠ [] ∧
      ∀ room, room.isRoom = true → PyDict.has c.held room = true →
        Expects k (outstanding c.trace)
          ((c.model.roomMembers room).filter fun name => name ≠ (f.get "user").pyStr)
  | _ => True

/-- What a step has to meet. -/
def Heeds (c : ChatController) : Gesture → Prop
  | .send text => ∀ k target, c.keyring = some k → c.model.active = some target →
      text.strip.isEmpty = false → HeedsSend c k target
  | .frame f => ∀ k, c.keyring = some k → HeedsFrame c k f
  | _ => True

/-- And a run. -/
def Heeded (c : ChatController) : List Gesture → Prop
  | [] => True
  | g :: gs => Heeds c g ∧ Heeded (c.step g) gs

end Heeds

/-! ## A key arrives -/

section Arriving

variable [Crypto] [Runtime]

omit [Crypto] [Runtime] in
theorem Expects.mono {k k' : Keyring} {asked asked' names : List Str} (h : Expects k asked names)
    (hknows : ∀ u ∈ names, k'.knows u = k.knows u) (hasked : ∀ u ∈ asked, u ∈ asked') :
    Expects k' asked' names := by
  unfold Expects
  rw [Keyring.missingKeys_congr hknows]
  exact ⟨h.1, fun u hu => hasked u (h.2 u hu)⟩

omit [Crypto] [Runtime] in
/-- Our own key is needed for nobody but ourselves. -/
theorem ne_me_of_mem_needs {c : ChatController} {target u : Str} (ht : target ≠ c.me)
    (hu : u ∈ c.needs target) : u ≠ c.me := by
  unfold needs at hu
  split at hu
  · simpa using (List.mem_filter.mp hu).2
  · rw [List.mem_singleton.mp hu]
    exact ht

/-- What every step keeps. -/
structure Tended (c : ChatController) : Prop where
  keyring : ∃ k, c.keyring = some k ∧ k.Consistent ∧
    ∀ t, PyDict.has c.held t = true → Expects k (outstanding c.trace) (c.needs t)
  named : c.model.username ≠ some []
  nodup : (c.held.map Prod.fst).Nodup

/-- A stage of `_key` on its way, `b` being the controller with the key and before
anything is sent: all but the targets still to do wait for something. -/
structure Stage (b : ChatController) (todo : Str → Prop) (c : ChatController) : Prop where
  along : b.Along c
  nodup : (c.held.map Prod.fst).Nodup
  expects : ∀ k', c.keyring = some k' → ∀ t, PyDict.has c.held t = true → ¬ todo t →
    Expects k' (outstanding c.trace) (c.needs t)

theorem Stage.tended {b c : ChatController} {k : Keyring} {todo : Str → Prop} (h : Stage b todo c)
    (hk : b.keyring = some k) (hs : k.Consistent) (hname : b.model.username ≠ some [])
    (hdone : ∀ t, PyDict.has c.held t = true → ¬ todo t) : Tended c := by
  obtain ⟨k', hk', halong⟩ := h.along.keyring k hk hs
  refine ⟨⟨k', hk', halong.consistent, fun t ht => h.expects k' hk' t ht (hdone t ht)⟩, ?_, h.nodup⟩
  rw [h.along.username]
  exact hname

theorem mem_outstanding_along {c c' : ChatController} (h : c.Along c') :
    ∀ u ∈ outstanding c.trace, u ∈ outstanding c'.trace := by
  intro u hu
  obtain ⟨xs, hxs⟩ := h.trace
  rw [hxs]
  exact mem_outstanding_calls hu xs

theorem Stage.aside {b c c' : ChatController} {k : Keyring} {todo : Str → Prop} (h : Stage b todo c)
    (hk : b.keyring = some k) (hs : k.Consistent) (hc : c.Aside c') : Stage b todo c' := by
  refine ⟨h.along.trans hc.along, hc.held ▸ h.nodup, fun k' hk' t ht hnot => ?_⟩
  obtain ⟨k₁, hk₁, halong⟩ := h.along.keyring k hk hs
  obtain ⟨k₂, hk₂, hsame⟩ := hc.keyring k₁ hk₁ halong.consistent
  rw [hk'] at hk₂
  cases hk₂
  rw [hc.held] at ht
  rw [hc.along.needs]
  exact (h.expects k₁ hk₁ t ht hnot).mono (fun u _ => hsame.knows u) (mem_outstanding_along hc.along)

/-- A target is taken off and its texts are sent. Where a room was sealed for,
nothing may be held for ourselves. -/
theorem Stage.sent {b c c' : ChatController} {k : Keyring} {target : Str} {n : Nat}
    {todo todo' : Str → Prop} (h : Stage b todo c) (hk : b.keyring = some k) (hs : k.Consistent)
    (hsent : Sent n target (c.popped target) c')
    (hown : target.isRoom = true → PyDict.has (c.popped target).held b.me = false)
    (htodo : ∀ t, t ≠ target → todo t → todo' t) : Stage b todo' c' := by
  have hpopped : c.Along (c.popped target) :=
    ⟨rfl, rfl, rfl, fun k₁ hk₁ hs₁ => ⟨k₁, hk₁, (Keyring.Same.refl hs₁).along _⟩, [],
      (List.append_nil _).symm⟩
  have halong := hpopped.trans hsent.along
  refine ⟨h.along.trans halong, ?_, fun k' hk' t ht hnot => ?_⟩
  · rw [hsent.held]
    exact PyDict.nodup_erase h.nodup target
  · obtain ⟨k₁, hk₁, hk₁along⟩ := h.along.keyring k hk hs
    rw [hsent.held] at ht
    have hne : t ≠ target := by
      rintro rfl
      rw [popped, PyDict.has_erase_self] at ht
      cases ht
    have htc : PyDict.has c.held t = true := (PyDict.has_erase_ne c.held hne).symm.trans ht
    rw [halong.needs]
    refine (h.expects k₁ hk₁ t htc fun ht' => hnot (htodo t hne ht')).mono (fun u hu => ?_) (mem_outstanding_along halong)
    cases hroom : target.isRoom with
    | false =>
      obtain ⟨k₂, hk₂, hsame⟩ := (hsent.aside hroom).keyring k₁ hk₁ hk₁along.consistent
      rw [hk'] at hk₂
      cases hk₂
      exact hsame.knows u
    | true =>
      obtain ⟨k₂, hk₂, halong₂⟩ := hsent.along.keyring k₁ hk₁ hk₁along.consistent
      rw [hk'] at hk₂
      cases hk₂
      refine halong₂.knows (ne_me_of_mem_needs ?_ hu)
      rintro rfl
      have hme : (c.popped target).me = b.me := h.along.me
      have hnone := hown hroom
      rw [← hme] at hnone
      rw [hnone] at ht
      cases ht

/-- A target is held again, and waits as it did. -/
theorem Stage.reheld {b c c' : ChatController} {k : Keyring} {target : Str} {todo : Str → Prop}
    (h : Stage b todo c) (hk : b.keyring = some k) (hs : k.Consistent) (hc : Reheld target c c')
    (htarget : ∀ k', c.keyring = some k' → PyDict.has c'.held target = true →
      Expects k' (outstanding c.trace) (c.needs target)) : Stage b (fun t => todo t ∧ t ≠ target) c' := by
  refine ⟨h.along.trans hc.beyond.along, hc.nodup h.nodup, fun k' hk' t ht hnot => ?_⟩
  obtain ⟨k₁, hk₁, halong⟩ := h.along.keyring k hk hs
  obtain ⟨k₂, hk₂, hsame⟩ := hc.beyond.keyring k₁ hk₁ halong.consistent
  rw [hk'] at hk₂
  cases hk₂
  rw [hc.beyond.along.needs]
  refine Expects.mono ?_ (fun u _ => hsame.knows u) (mem_outstanding_along hc.beyond.along)
  by_cases he : t = target
  · subst he
    exact htarget k₁ hk₁ ht
  · rw [hc.others t he] at ht
    exact h.expects k₁ hk₁ t ht fun ht' => hnot ⟨ht', he⟩

omit [Runtime] in
/-- Nothing waited for this target. -/
theorem exec_release_none {c : ChatController} {target : Str} (h : PyDict.has c.held target = false) :
    exec (release target) c = (.ok (), c.popped target) := by
  have hnone : PyDict.get c.held target = none := by simpa [PyDict.has] using h
  unfold release
  rw [exec_bind, exec_get]
  dsimp only
  rw [hnone]
  rfl

theorem Stage.weaken {b c : ChatController} {todo todo' : Str → Prop} (h : Stage b todo c)
    (htodo : ∀ t, todo t → todo' t) : Stage b todo' c :=
  ⟨h.along, h.nodup, fun k' hk' t ht hnot => h.expects k' hk' t ht fun h' => hnot (htodo t h')⟩

/-- The controller with a new key, before anything is sent: all but the user and
the rooms the key completed wait for something, and a room of the user's name
does if it is not complete. -/
structure Arrived (b : ChatController) (k : Keyring) (user : Str) : Prop where
  keyring : b.keyring = some k
  consistent : k.Consistent
  named : b.model.username ≠ some []
  nodup : (b.held.map Prod.fst).Nodup
  known : k.knows user = true
  expects : ∀ t, PyDict.has b.held t = true → t ≠ user → t ∉ b.completed k user →
    Expects k (outstanding b.trace) (b.needs t)
  again : PyDict.has b.held user = true → k.missingKeys (b.needs user) ≠ [] →
    Expects k (outstanding b.trace) (b.needs user)

theorem Arrived.stage {b : ChatController} {k : Keyring} {user : Str} (h : Arrived b k user) :
    Stage b (fun t => t = user ∨ t ∈ b.completed k user) b := by
  refine ⟨(Aside.refl b).along, h.nodup, fun k' hk' t ht hnot => ?_⟩
  rw [h.keyring] at hk'
  cases hk'
  exact h.expects t ht (fun he => hnot (.inl he)) fun he => hnot (.inr he)

/-- The rooms are still to be looked at. -/
structure Ready (b : ChatController) (k : Keyring) (user : Str) (n : Nat) (c : ChatController) : Prop where
  held : c.held = PyDict.erase b.held user
  awaiting : c.awaited user = b.awaited user
  length : c.trace.length ≤ b.trace.length + n
  keyring : ∃ k', c.keyring = some k' ∧ k.Same k'
  typing : c.model.typing = b.model.typing

omit [Runtime] in
/-- Where the key completes rooms, what was held for the user is no room's. -/
theorem HeedsKey.direct {b : ChatController} {k : Keyring} {user : Str} (hheeds : HeedsKey b k user)
    (hheld : PyDict.has b.held user = true) (hne : b.completed k user ≠ []) : user.isRoom = false := by
  by_contra hroom
  have hnot := hheeds.notRoom hne (by simpa using hroom)
  rw [hheld] at hnot
  cases hnot

/-- A key that leaves its user's texts waiting is that of a room, and completes none. -/
theorem HeedsKey.completed_eq_nil {b : ChatController} {k : Keyring} {user : Str} (h : Arrived b k user)
    (hheeds : HeedsKey b k user) (hheld : PyDict.has b.held user = true) (hready : k.missingKeys (b.needs user) ≠ []) :
    b.completed k user = [] := by
  by_contra hne
  have hdirect := hheeds.direct hheld hne
  refine hready (Keyring.missingKeys_eq_nil.mpr fun u hu => ?_)
  rw [needs, hdirect] at hu
  rw [List.mem_singleton.mp hu]
  exact h.known

/-- **The first part of `_key`**: what waited for the user is sent. Where the key
completes rooms it does not raise. -/
theorem release_stage {b : ChatController} {k : Keyring} {user : Str} (h : Arrived b k user)
    (hheeds : HeedsKey b k user) :
    Ends (release user) b
      (fun _ c => Stage b (· ∈ b.completed k user) c ∧
        (b.completed k user ≠ [] → Ready b k user (b.texts user).length c))
      (fun _ c => Stage b (· ∈ b.completed k user) c ∧ b.completed k user = []) := by
  have htodo : ∀ t, (t = user ∨ t ∈ b.completed k user) ∧ t ≠ user → t ∈ b.completed k user :=
    fun t ht => ht.1.resolve_left ht.2
  cases hheld : PyDict.has b.held user with
  | false =>
    have hpopped : Reheld user b (b.popped user) :=
      ⟨Aside.refl _, rfl, fun t ht => PyDict.has_erase_ne _ ht, fun hd => PyDict.nodup_erase hd _⟩
    unfold Ends
    rw [exec_release_none hheld]
    refine ⟨(h.stage.reheld h.keyring h.consistent hpopped fun k' _ ht => ?_).weaken htodo, fun _ => ?_⟩
    · rw [popped, PyDict.has_erase_self] at ht
      cases ht
    · exact ⟨rfl, rfl, Nat.le_add_right .., ⟨k, h.keyring, .refl h.consistent⟩, rfl⟩
  | true =>
    by_cases hready : k.missingKeys (b.needs user) = []
    · -- nothing is held for ourselves once the user's texts are taken off
      have hown : user.isRoom = true → PyDict.has (b.popped user).held b.me = false := by
        intro hroom
        by_cases hme : b.me = user
        · rw [hme]
          exact PyDict.has_erase_self _ _
        · rw [popped, PyDict.has_erase_ne _ hme]
          exact (hheeds.own (.inr ⟨hroom, hready⟩)).resolve_right hme
      have hstage : ∀ c, Sent (b.texts user).length user (b.popped user) c →
          Stage b (· ∈ b.completed k user) c := fun c hc =>
        h.stage.sent h.keyring h.consistent hc hown fun t hne ht => ht.resolve_left hne
      have hdirect : b.completed k user ≠ [] → user.isRoom = false := hheeds.direct hheld
      have hmoves : Moves [.message, .borrowing] [] (release user) := release_moves (by simp) (by simp) user
      have htypes : Steps (fun b c => c.model.typing = b.model.typing) (release user) := fun b =>
        (hmoves b).moved.typing (by simp) (by simp)
      refine ((release_ready h.keyring h.consistent hready).and_steps htypes).mono
        (fun _ c hc => ⟨hstage c hc.2, fun hne => ?_⟩) fun _ c hc => ⟨hstage c hc.2.1, ?_⟩
      · obtain ⟨htyping, hc⟩ := hc
        obtain ⟨k', hk', hsame⟩ := (hc.aside (hdirect hne)).keyring k h.keyring h.consistent
        refine ⟨hc.held, ?_, hc.length, ⟨k', hk', hsame⟩, htyping⟩
        rw [awaited, hc.awaiting]
        rfl
      · by_contra hne
        refine hc.2.2 ⟨fun j hj => hheeds.calls hne j (by omega), fun text ht => ?_, fun _ => hheeds.usable hne hheld, ?_⟩
        · exact hheeds.encodes hne text (List.mem_append_left _ ht)
        intro hroom
        rw [hdirect hne] at hroom
        cases hroom
    · -- a room of the user's name, and not complete
      have hnone : b.completed k user = [] := hheeds.completed_eq_nil h hheld hready
      have hstage : ∀ c, Reheld user b c → Stage b (· ∈ b.completed k user) c := by
        intro c hc
        refine (h.stage.reheld h.keyring h.consistent hc fun k' hk' _ => ?_).weaken htodo
        rw [h.keyring] at hk'
        cases hk'
        exact h.again hheld hready
      exact (release_waits h.keyring h.consistent hready).mono
        (fun _ c hc => ⟨hstage c hc, fun hne => absurd hnone hne⟩) fun _ c hc => ⟨hstage c hc, hnone⟩

/-- **The second part**: the messages that came before the key are filed. -/
theorem deliver_stage {b c : ChatController} {k : Keyring} {user : Str} {n : Nat}
    (h : Arrived b k user) (hheeds : HeedsKey b k user) (hstage : Stage b (· ∈ b.completed k user) c)
    (hready : b.completed k user ≠ [] → Ready b k user n c) :
    Ends (deliverAwaiting user) c
      (fun _ c' => Stage b (· ∈ b.completed k user) c' ∧ c'.held = c.held ∧
        (b.completed k user ≠ [] → c'.trace.length ≤ b.trace.length + n + (b.awaited user).length))
      (fun _ c' => Stage b (· ∈ b.completed k user) c' ∧ b.completed k user = []) := by
  obtain ⟨k₁, hk₁, halong⟩ := hstage.along.keyring k h.keyring h.consistent
  refine (deliverAwaiting_ends hk₁ halong.consistent user).mono (fun _ c' hc => ?_) fun _ c' hc => ?_
  · refine ⟨hstage.aside h.keyring h.consistent hc.1, hc.1.held, fun hne => ?_⟩
    have hr := hready hne
    have hlen := hc.2
    rw [hr.awaiting] at hlen
    have hlen' := hr.length
    omega
  · refine ⟨hstage.aside h.keyring h.consistent hc.1, ?_⟩
    by_contra hne
    have hr := hready hne
    obtain ⟨k₂, hk₂, hsame⟩ := hr.keyring
    rw [hk₁] at hk₂
    cases hk₂
    rw [hr.awaiting] at hc
    refine hc.2 ⟨fun f hf => ?_, (hheeds.settles hne).of_typing hr.typing⟩
    obtain ⟨s, htarget, hopen⟩ := hheeds.fileable hne f hf
    refine ⟨s, htarget, fun hn e => ?_⟩
    rw [hsame.open' h.consistent]
    exact hopen hn e

/-- The loop over the rooms, with those still to come. -/
structure Loop (b : ChatController) (k : Keyring) (user : Str) (rooms : List Str) (c : ChatController) :
    Prop where
  stage : Stage b (fun t => t ∈ b.completed k user ∧ t ∈ rooms) c
  nodup : rooms.Nodup
  isRoom : ∀ room ∈ rooms, room.isRoom = true
  held : ∀ room ∈ rooms, PyDict.has c.held room = true
  same : ∀ room ∈ rooms, room ∈ b.completed k user → c.texts room = b.texts room
  own : b.completed k user ≠ [] → PyDict.has c.held b.me = false
  suffix : rooms.filter (· ∈ b.completed k user) <:+ b.completed k user
  /-- the calls to come, up to those of the last room -/
  budget : rooms.filter (· ∈ b.completed k user) ≠ [] →
    c.trace.length + ((rooms.filter (· ∈ b.completed k user)).dropLast.map
        fun room => (b.texts room).length).sum ≤
      b.trace.length + ((b.texts user).length + (b.awaited user).length +
        ((b.completed k user).dropLast.map fun room => (b.texts room).length).sum)

omit [Crypto] [Runtime] in
theorem me_eq {c : ChatController} {u : Str} (h : c.model.username = some u) (hu : u ≠ []) :
    c.me = u := by
  unfold me
  rw [h]
  exact if_neg (by simpa using hu)

omit [Crypto] [Runtime] in
theorem mem_completed {b : ChatController} {k : Keyring} {user room : Str} :
    room ∈ b.completed k user ↔ PyDict.has b.held room = true ∧ room.isRoom = true ∧ room ≠ user ∧
      k.missingKeys (b.needs room) = [] := by
  unfold completed
  rw [List.mem_filter, List.mem_filter, ← PyDict.has_iff_mem]
  simp [and_assoc]

/-- A room the key has not completed is left alone. -/
theorem releaseRoom_other {b c : ChatController} {k : Keyring} {user room : Str} {rooms : List Str}
    (h : Arrived b k user) (hloop : Loop b k user (room :: rooms) c)
    (hnot : room ∉ b.completed k user) : exec (releaseRoom room) c = (.ok (), c) := by
  obtain ⟨k₁, hk₁, halong⟩ := hloop.stage.along.keyring k h.keyring h.consistent
  have hroom := hloop.isRoom room (List.mem_cons_self ..)
  have hexp := hloop.stage.expects k₁ hk₁ room (hloop.held room (List.mem_cons_self ..))
    fun ht => hnot ht.1
  have hmissing : k₁.missingKeys ((c.model.roomMembers room).filter
      fun name => some name ≠ c.model.username) ≠ [] := by
    intro hnil
    refine hexp.1 (Keyring.missingKeys_eq_nil.mpr fun u hu => ?_)
    rw [needs, if_pos hroom, List.mem_filter] at hu
    have hme : u ≠ c.me := by simpa using hu.2
    refine Keyring.missingKeys_eq_nil.mp hnil u (List.mem_filter.mpr ⟨hu.1, ?_⟩)
    have hname : c.model.username ≠ some [] := by
      rw [hloop.stage.along.username]
      exact h.named
    -- a name that is ours by the model is ours to the controller
    have hne : some u ≠ c.model.username := fun he =>
      hme (me_eq he.symm fun hnil => hname (by rw [← he, hnil])).symm
    simpa using hne
  unfold releaseRoom
  rw [exec_bind, exec_get]
  dsimp only
  rw [hk₁]
  dsimp only
  rw [if_neg (by simpa using hmissing)]
  rfl

omit [Runtime] in
/-- In a room the key has completed, nobody's key is missing. -/
theorem completed_ready {b c : ChatController} {k k₁ : Keyring} {user room : Str}
    (hheeds : HeedsKey b k user) (hc : b.Along c) (halong : k.Along b.me k₁)
    (hmem : room ∈ b.completed k user) :
    k₁.missingKeys (c.needs room) = [] ∧ k₁.missingKeys ((c.model.roomMembers room).filter
      fun name => some name ≠ c.model.username) = [] := by
  obtain ⟨-, hroom, -, hready⟩ := mem_completed.mp hmem
  have hothers : ∀ u ∈ b.model.roomMembers room, u ≠ b.me → k₁.knows u = true := by
    intro u hu hme
    rw [halong.knows hme]
    refine Keyring.missingKeys_eq_nil.mp hready u ?_
    rw [needs, if_pos hroom]
    exact List.mem_filter.mpr ⟨hu, by simpa using hme⟩
  rw [hc.needs, hc.roomMembers, hc.username]
  refine ⟨Keyring.missingKeys_eq_nil.mpr fun u hu => ?_, Keyring.missingKeys_eq_nil.mpr fun u hu => ?_⟩
  · rw [needs, if_pos hroom, List.mem_filter] at hu
    exact hothers u hu.1 (by simpa using hu.2)
  · rw [List.mem_filter] at hu
    by_cases hme : u = b.me
    · -- our own key, under a name the model does not have yet
      rcases hheeds.noticed room hmem (hme ▸ hu.1) with hname | hknown
      · rw [hname, hme] at hu
        simp at hu
      · rw [hme, Keyring.knows, PyDict.has]
        rw [Keyring.knows, PyDict.has] at hknown
        rcases halong.own with ho | ho
        · rw [ho]
          exact hknown
        · rw [ho, Keyring.named_get_self]
          rfl
    · exact hothers u hu.1 hme

section Completed

variable {b c c' : ChatController} {k k₁ : Keyring} {user room : Str} {rooms : List Str}

omit [Crypto] [Runtime] in
theorem Loop.todo_cons (hmem : room ∈ b.completed k user) :
    (room :: rooms).filter (· ∈ b.completed k user) = room :: rooms.filter (· ∈ b.completed k user) :=
  List.filter_cons_of_pos (by simpa using hmem)

/-- Nothing is held for the own name while the room's texts are sent. -/
theorem Loop.own_popped (hloop : Loop b k user (room :: rooms) c) (hmem : room ∈ b.completed k user) :
    PyDict.has (c.popped room).held b.me = false := by
  by_cases hme : b.me = room
  · rw [hme]
    exact PyDict.has_erase_self _ _
  · rw [popped, PyDict.has_erase_ne _ hme]
    exact hloop.own (List.ne_nil_of_mem hmem)

/-- The room is done, whether or not its release raised. -/
theorem Loop.stage_sent (h : Arrived b k user) (hloop : Loop b k user (room :: rooms) c) (hmem : room ∈ b.completed k user)
    (hsent : Sent (c.texts room).length room (c.popped room) c') :
    Stage b (fun t => t ∈ b.completed k user ∧ t ∈ rooms) c' :=
  hloop.stage.sent h.keyring h.consistent hsent (fun _ => hloop.own_popped hmem) fun _ ht ht' =>
    ⟨ht'.1, (List.mem_cons.mp ht'.2).resolve_left ht⟩

/-- With another room to come, the calls of this one are paid for. -/
theorem Loop.budget_cons (hloop : Loop b k user (room :: rooms) c) (hmem : room ∈ b.completed k user)
    (hmore : rooms.filter (· ∈ b.completed k user) ≠ []) :
    c.trace.length + ((b.texts room).length +
        (((rooms.filter (· ∈ b.completed k user)).dropLast.map fun room => (b.texts room).length).sum)) ≤
      b.trace.length + ((b.texts user).length + (b.awaited user).length +
        ((b.completed k user).dropLast.map fun room => (b.texts room).length).sum) := by
  have hb := hloop.budget (by rw [Loop.todo_cons hmem]; exact List.cons_ne_nil _ _)
  rw [Loop.todo_cons hmem, List.dropLast_cons_of_ne_nil hmore, List.map_cons, List.sum_cons] at hb
  exact hb

theorem Loop.sent (h : Arrived b k user) (hloop : Loop b k user (room :: rooms) c) (hmem : room ∈ b.completed k user)
    (hsent : Sent (c.texts room).length room (c.popped room) c') : Loop b k user rooms c' := by
  have hrest : ∀ r ∈ rooms, r ≠ room := fun r hr he =>
    (List.nodup_cons.mp hloop.nodup).1 (he ▸ hr)
  have hsuffix := hloop.suffix
  rw [Loop.todo_cons hmem] at hsuffix
  refine ⟨hloop.stage_sent h hmem hsent, (List.nodup_cons.mp hloop.nodup).2,
    fun r hr => hloop.isRoom r (List.mem_cons_of_mem _ hr), fun r hr => ?_, fun r hr hr' => ?_,
    fun _ => by rw [hsent.held]; exact hloop.own_popped hmem, (List.suffix_cons room _).trans hsuffix, fun hmore => ?_⟩
  · rw [hsent.held, popped, PyDict.has_erase_ne _ (hrest r hr)]
    exact hloop.held r (List.mem_cons_of_mem _ hr)
  · rw [texts, hsent.held, popped, PyDict.get_erase_ne _ (hrest r hr)]
    exact hloop.same r (List.mem_cons_of_mem _ hr) hr'
  · have hb := hloop.budget_cons hmem hmore
    have hlen := hsent.length
    rw [hloop.same room (List.mem_cons_self ..) hmem] at hlen
    have hpopped : (c.popped room).trace.length = c.trace.length := rfl
    omega

/-- With another room to come nothing is in the way of this one. -/
theorem Loop.clear (hheeds : HeedsKey b k user) (hloop : Loop b k user (room :: rooms) c) (hmem : room ∈ b.completed k user)
    (halong : Keyring.Along b.me k k₁) (hmore : rooms.filter (· ∈ b.completed k user) ≠ []) :
    Clear (c.texts room) room (c.popped room) k₁ := by
  have hroom := hloop.isRoom room (List.mem_cons_self ..)
  have hb := hloop.budget_cons hmem hmore
  have hlast : room ∈ (b.completed k user).dropLast := by
    obtain ⟨as, has⟩ := hloop.suffix
    rw [Loop.todo_cons hmem] at has
    rw [← has, List.dropLast_append_of_ne_nil (List.cons_ne_nil _ _),
      List.dropLast_cons_of_ne_nil hmore]
    exact List.mem_append_right _ (List.mem_cons_self ..)
  obtain ⟨xs, hxs⟩ := hloop.stage.along.trace
  have hlen : c.trace.length = b.trace.length + xs.length := by
    rw [hxs]
    simp [callEntries]
  have hme : (c.popped room).me = b.me := hloop.stage.along.me
  refine ⟨fun j hj => ?_, fun text ht => ?_, fun hf => absurd (hroom.symm.trans hf) (by decide), fun _ u hu => ?_⟩
  · rw [hloop.same room (List.mem_cons_self ..) hmem] at hj
    show (c.connection (c.trace.length + j)).isSome = true
    rw [hloop.stage.along.connection, hlen, Nat.add_assoc]
    exact hheeds.calls (List.ne_nil_of_mem hmem) (xs.length + j) (by omega)
  · rw [hloop.same room (List.mem_cons_self ..) hmem] at ht
    rw [hme]
    exact hheeds.encodes (List.ne_nil_of_mem hmem) text
      (List.mem_append_right _ (List.mem_flatMap.mpr ⟨room, hlast, ht⟩))
  · have hmembers : (c.popped room).model.roomMembers room = b.model.roomMembers room :=
      hloop.stage.along.roomMembers room
    rw [hme] at hu ⊢
    rw [hmembers] at hu
    exact halong.usable (hheeds.members room hlast u hu)

/-- A completed room is released. Where that raises, it was the last. -/
theorem releaseRoom_completed (h : Arrived b k user) (hheeds : HeedsKey b k user)
    (hloop : Loop b k user (room :: rooms) c) (hmem : room ∈ b.completed k user) :
    Ends (releaseRoom room) c (fun _ c' => Loop b k user rooms c') (fun _ c' => Tended c') := by
  obtain ⟨k₁, hk₁, halong⟩ := hloop.stage.along.keyring k h.keyring h.consistent
  obtain ⟨hready, hcond⟩ := completed_ready hheeds hloop.stage.along halong hmem
  refine ends_get ?_
  rw [hk₁]
  dsimp only
  rw [hcond, if_pos (by rfl)]
  refine (release_ready hk₁ halong.consistent hready).mono (fun _ c' hc' => hloop.sent h hmem hc') fun _ c' hc' => ?_
  refine (hloop.stage_sent h hmem hc'.1).tended h.keyring h.consistent h.named fun t _ ht => hc'.2 ?_
  exact hloop.clear hheeds hmem halong (List.ne_nil_of_mem (List.mem_filter.mpr ⟨ht.2, by simpa using ht.1⟩))

end Completed

theorem releaseRoom_loop {b c : ChatController} {k : Keyring} {user room : Str} {rooms : List Str}
    (h : Arrived b k user) (hheeds : HeedsKey b k user) (hloop : Loop b k user (room :: rooms) c) :
    Ends (releaseRoom room) c (fun _ c' => Loop b k user rooms c') (fun _ c' => Tended c') := by
  by_cases hmem : room ∈ b.completed k user
  · exact releaseRoom_completed h hheeds hloop hmem
  · unfold Ends
    rw [releaseRoom_other h hloop hmem]
    have hfilter : (room :: rooms).filter (· ∈ b.completed k user) =
        rooms.filter (· ∈ b.completed k user) := List.filter_cons_of_neg (by simpa using hmem)
    refine ⟨hloop.stage.weaken fun t ht => ⟨ht.1, ?_⟩, (List.nodup_cons.mp hloop.nodup).2,
      fun r hr => hloop.isRoom r (List.mem_cons_of_mem _ hr),
      fun r hr => hloop.held r (List.mem_cons_of_mem _ hr),
      fun r hr => hloop.same r (List.mem_cons_of_mem _ hr), hloop.own, hfilter ▸ hloop.suffix,
      hfilter ▸ hloop.budget⟩
    refine (List.mem_cons.mp ht.2).resolve_left fun he => hmem ?_
    rw [← he]
    exact ht.1

/-- The rooms as the loop finds them. -/
theorem Stage.loop {b c c' : ChatController} {k : Keyring} {user : Str} {n : Nat}
    (hheeds : HeedsKey b k user)
    (hready : b.completed k user ≠ [] → Ready b k user n c) (hn : n = (b.texts user).length)
    (hstage : Stage b (· ∈ b.completed k user) c') (hheld : c'.held = c.held)
    (hlen : b.completed k user ≠ [] →
      c'.trace.length ≤ b.trace.length + n + (b.awaited user).length) :
    Loop b k user ((c'.held.map Prod.fst).filter Str.isRoom) c' := by
  have hmem : ∀ t, t ∈ (c'.held.map Prod.fst).filter Str.isRoom ↔
      PyDict.has c'.held t = true ∧ t.isRoom = true := fun t => by
    rw [List.mem_filter, ← PyDict.has_iff_mem]
  have hfilter : ((c'.held.map Prod.fst).filter Str.isRoom).filter (· ∈ b.completed k user) =
      b.completed k user := by
    by_cases hne : b.completed k user = []
    · rw [hne]
      simp
    · rw [hheld, (hready hne).held, PyDict.keys_erase, List.filter_filter, List.filter_filter]
      conv_rhs => rw [completed, List.filter_filter]
      refine List.filter_congr fun t ht => ?_
      have hhas := PyDict.has_iff_mem.mpr ht
      simp only [mem_completed, hhas, true_and]
      by_cases hroom : t.isRoom = true
      · by_cases hu : t = user
        · simp [hu]
        · cases k.missingKeys (b.needs t) <;> simp [hroom, hu]
      · simp [hroom]
  refine ⟨hstage.weaken fun t ht => ⟨ht, ?_⟩, hstage.nodup.filter _, fun r hr => ((hmem r).mp hr).2,
    fun r hr => ((hmem r).mp hr).1, fun r hr hr' => ?_, fun hne => ?_, ?_, fun hne => ?_⟩
  · obtain ⟨hhas, hroom, hu, -⟩ := mem_completed.mp ht
    refine (hmem t).mpr ⟨?_, hroom⟩
    rw [hheld, (hready (List.ne_nil_of_mem ht)).held, PyDict.has_erase_ne _ hu]
    exact hhas
  · have hne := List.ne_nil_of_mem hr'
    rw [texts, texts, hheld, (hready hne).held, PyDict.get_erase_ne]
    exact (mem_completed.mp hr').2.2.1
  · rw [hheld, (hready hne).held]
    by_cases hme : b.me = user
    · rw [hme]
      exact PyDict.has_erase_self _ _
    · rw [PyDict.has_erase_ne _ hme]
      exact (hheeds.own (.inl hne)).resolve_right hme
  · simp only [hfilter, List.suffix_rfl]
  · rw [hfilter] at hne ⊢
    have hl := hlen hne
    omega

/-- **What `_key` does with a new key** leaves nothing stuck. -/
theorem arrived_tended {b : ChatController} {k : Keyring} {user : Str} (h : Arrived b k user)
    (hheeds : HeedsKey b k user) :
    Ends (do
      release user
      deliverAwaiting user
      let rooms := ((← get).held.map Prod.fst).filter Str.isRoom
      rooms.forM releaseRoom : ClientM Unit) b (fun _ c => Tended c) (fun _ c => Tended c) := by
  have hnone : ∀ {c}, Stage b (· ∈ b.completed k user) c → b.completed k user = [] → Tended c := by
    intro c hc hnil
    refine hc.tended h.keyring h.consistent h.named fun t _ ht => ?_
    rw [hnil] at ht
    cases ht
  refine Ends.bind ((release_stage h hheeds).mono (fun _ _ hc => hc) fun _ _ hc => hnone hc.1 hc.2)
    fun _ c hc => ?_
  refine Ends.bind ((deliver_stage h hheeds hc.1 hc.2).mono (fun _ _ hc' => hc')
    fun _ _ hc' => hnone hc'.1 hc'.2) fun _ c' hc' => ?_
  refine ends_get ?_
  have hloop := Stage.loop hheeds hc.2 rfl hc'.1 hc'.2.1 hc'.2.2
  refine (ends_forM hloop fun room rooms c'' => releaseRoom_loop h hheeds).mono (fun _ c'' hc'' => ?_)
    fun _ _ hx => hx
  exact hc''.stage.tended h.keyring h.consistent h.named fun t _ ht => by cases ht.2

end Arriving

end ChatController

end Ciphertext
