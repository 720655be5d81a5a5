import Ciphertext.Client.Underway

/-!
# Sealed messages, each once and in order

Between two inputs of the controller `Posted p` holds: the messages of `p` that are
filed and those that wait are what came in, and if any waits then `p`'s key is not
known. A message of `p` keeps it by the way it goes (`incomingMessage_posted`), a KEY
frame with `p`'s key by filing everything that waits (`key_own_posted`), and every
other input has nothing to do with `p` (`step_posted`). So it holds over a run, from a
controller to which nothing has come yet (`run_orderly`).

What can break it is an exception between the key and the messages that wait for it:
`_key` releases the texts held for `p` first, and a text that cannot be sealed, or a
connection that is down, ends it there. The key is then known and the messages still
wait (`letterOfB_stranded`). `ArrivesWell` excludes it, as a condition on the state
before each input: the texts held for `p` are `Releasable`.
-/

namespace Ciphertext

open Act

namespace ChatController

variable [Crypto] {p : Str} {c c' : ChatController} [Runtime]

omit [Crypto] [Runtime] in
theorem Besides.me_ne (h : Besides p c) : c.me ≠ p := by
  obtain ⟨u, hu, hne, hp⟩ := h
  rw [me_eq hu hne]
  exact hp

omit [Crypto] [Runtime] in
theorem Besides.username_ne (h : Besides p c) : c.model.username ≠ some p := by
  obtain ⟨u, hu, -, hp⟩ := h
  rw [hu]
  exact fun he => hp (Option.some.inj he)

/-- Between two inputs: what waits, waits for a key we do not hold. -/
structure Posted (p : Str) (c : ChatController) : Prop extends Underway p c where
  waits : c.awaited p ≠ [] → ∀ k, c.keyring = some k → k.knows p = false

namespace Posted

omit [Runtime] in
theorem apart (h : Posted p c) (ha : Apart p c c') (hme : c.me ≠ p) : Posted p c' := by
  refine ⟨h.toUnderway.apart ha hme, fun hne k' hk' => ?_⟩
  obtain ⟨k, hk, hs⟩ := h.keyring
  obtain ⟨k₁, hk₁, -, hknows⟩ := ha.keyring hme k hk hs
  obtain rfl := Option.some.inj (hk₁.symm.trans hk')
  rw [hknows]
  rw [ha.awaited] at hne
  exact h.waits hne k hk

omit [Runtime] in
theorem of_none (h : Underway p c ∧ c.awaited p = []) : Posted p c := ⟨h.1, fun hne => absurd h.2 hne⟩

omit [Runtime] in
theorem orderly (h : Posted p c) : Orderly p c := ⟨h.order, h.place, h.waits⟩

omit [Runtime] in
/-- A frame that is not a sealed message of `p` comes in. -/
theorem receiving (h : Posted p c) {f : Frame} (hf : f.sealedBy p = false) : Posted p (c.receiving f) := by
  refine ⟨⟨?_, h.place, h.sorted, h.addressed, h.keyring, h.up⟩, h.waits⟩
  have hsame : (c.receiving f).receivedFrom p = c.receivedFrom p := by
    unfold receivedFrom
    rw [received_receiving, List.filter_append, List.filter_singleton, hf]
    exact List.append_nil _
  rw [hsame]
  exact h.order

end Posted

/-- **A sealed message of `p`** is filed, or it waits. -/
theorem incomingMessage_posted (h : Posted p c) {f : Frame} (hf : f.sealedBy p = true) (hto : f.Addressed) (hp : p ≠ [])
    (hu : Besides p c) (hopens : ∀ k, c.keyring = some k → k.knows p = true → Opens k p f) :
    Posted p (exec (incomingMessage f) (c.receiving f)).2 := by
  obtain ⟨k, hk, hs⟩ := h.keyring
  have hreceived : (c.receiving f).receivedFrom p = c.receivedFrom p ++ [f] := by
    unfold receivedFrom
    rw [received_receiving, List.filter_append, List.filter_singleton, hf]
    rfl
  rw [exec_incomingMessage_own hf hto hp (c := c.receiving f) hk hu.username_ne]
  -- with the key nothing waits, so what is filed now is next in order; without it the frame goes to the back
  by_cases hknows : k.knows p = true
  · rw [if_pos hknows]
    have hnone : c.awaited p = [] := by
      by_contra hne
      rw [h.waits hne k hk] at hknows
      cases hknows
    have howing : Owing p [f] (c.receiving f) := by
      refine ⟨?_, fun g hg => ?_, hnone, h.place, h.sorted, h.keyring, h.up⟩
      · rw [hreceived, ← h.order, hnone, List.append_nil]
        rfl
      · rw [List.mem_singleton.mp hg]
        exact hf
    have hfiles := file_files (c := c.receiving f) hf fun k' hk' => hopens k' hk' (by
      obtain rfl := Option.some.inj (hk'.symm.trans hk)
      exact hknows)
    refine Ends.final (P := Posted p) ?_
    exact hfiles.mono (fun _ _ hd => .of_none (howing.underway hd.1)) fun _ _ hd => .of_none (howing.underway hd.1)
  · rw [if_neg hknows]
    have hpeer : f.peer = .str p := peer_of_sealedBy hf
    generalize hb : ({ c.receiving f with awaiting := await f (.str p) c.awaiting } : ChatController) = b
    have hawaited : b.awaited p = c.awaited p ++ [f] := by
      rw [← hb]
      show ({ c with awaiting := await f (.str p) c.awaiting } : ChatController).awaited p = _
      rw [awaited_await, if_pos rfl]
    have hposted : Posted p b := by
      refine ⟨⟨?_, ?_, ?_, fun g hg => ?_, ?_, ?_⟩, fun _ k' hk' => ?_⟩
      · rw [hawaited, ← List.append_assoc, ← hb]
        show c.filedFrom p ++ c.awaited p ++ [f] = (c.receiving f).receivedFrom p
        rw [h.order, hreceived]
      · rw [← hb]
        exact h.place
      · rw [← hb, ← hpeer]
        exact sorted_await h.sorted f
      · rw [hawaited] at hg
        rcases List.mem_append.mp hg with hg | hg
        · exact h.addressed g hg
        · rw [List.mem_singleton.mp hg]
          exact hto
      · rw [← hb]
        exact h.keyring
      · rw [← hb]
        exact h.up
      · rw [← hb] at hk'
        obtain rfl := Option.some.inj (hk.symm.trans hk')
        simpa using hknows
    have hme : b.me ≠ p := by
      rw [← hb]
      exact hu.me_ne
    -- asking for the key touches nothing that is counted
    have hask : ∀ first : Bool, Apart p b (exec (if first then do let _ ← call (.getKey (.str p)) else pure () : ClientM Unit) b).2 :=
      fun first => apart_moves (steps_ite (call_unit_moves rfl) (moves_pure _)) b
    unfold keepAwaiting
    rw [exec_bind, exec_get]
    dsimp only
    have hlast := hposted.apart (hask (!(c.receiving f).awaiting.any fun e => (Json.str p).pyEq e.1)) hme
    rw [← hb] at hlast
    exact hlast

/-- Nothing is in the way of what is held for the target: no text, or a key that is
missing still, or only texts that can be sealed. -/
def Releasable (c : ChatController) (target : Str) : Prop :=
  typed (c.texts target) = [] ∨ ∃ k, c.keyring = some k ∧
    (k.missingKeys (c.needs target) ≠ [] ∨ ∀ text ∈ typed (c.texts target), c.Seals k target text)

omit [Runtime] in
theorem sendAll_nothing {texts : List Str} (h : typed texts = []) (c : ChatController) :
    Ends (texts.forM send) c (fun _ _ => True) (fun _ _ => False) := by
  induction texts with
  | nil => trivial
  | cons text texts ih =>
    cases htext : text.strip.isEmpty with
    | true =>
      rw [typed_blank htext] at h
      exact sendAll_blank htext (ih h)
    | false =>
      rw [typed_cons htext] at h
      cases h

/-- While the connection is up, `_release` raises over nothing but a text that cannot be
sealed. -/
theorem release_returns {target : Str} {k : Keyring} (hk : c.keyring = some k) (hs : k.Consistent)
    (hup : ∀ n, (c.connection n).isSome = true) (h : c.Releasable target) :
    Ends (release target) c (fun _ _ => True) (fun _ _ => False) := by
  rcases h with hnothing | ⟨k', hk', h⟩
  · exact release_rule (fun _ => trivial) (sendAll_nothing hnothing _)
  · obtain rfl := Option.some.inj (hk.symm.trans hk')
    by_cases hready : k.missingKeys (c.needs target) = []
    · have hseals := h.resolve_left fun hmissing => hmissing hready
      cases hfirst : typed (c.texts target) with
      | nil => exact release_rule (fun _ => trivial) (sendAll_nothing hfirst _)
      | cons text rest =>
        have hsealable : c.Sealable k target := (hseals text (by rw [hfirst]; exact List.mem_cons_self ..)).1
        have hencodes : ∀ text ∈ c.texts target, text.strip.isEmpty = false → Keyring.Encodes text c.me :=
          fun text ht hblank => (hseals text (List.mem_filter.mpr ⟨ht, by rw [hblank]; rfl⟩)).2
        unfold Sealable at hsealable
        refine (release_ready hk hs hready).mono (fun _ _ _ => trivial) fun _ _ hx =>
          hx.2 ⟨fun j _ => hup _, hencodes, fun ht => ?_, fun ht => ?_⟩
        · rw [ht] at hsealable
          exact hsealable
        · rw [ht] at hsealable
          exact hsealable
    · refine release_rule (fun _ => trivial) ?_
      have hall := sendAll_holds (c.texts target) (c := (c.popped target).showing (some target)) hk hs hready rfl
        (PyDict.has_erase_self ..)
      exact hall.mono (fun _ _ _ => trivial) fun _ _ hx => hx.2 fun j _ => hup _

/-- The controller as it has remembered what a KEY frame says. -/
def remembering (c : ChatController) (f : Frame) : ChatController :=
  { c.receiving f with keyring := c.keyring.map fun k => k.remember (f.get "user").pyStr (f.get "pubkey").pyStr }

omit [Crypto] [Runtime] in
theorem sealedBy_of_type {f : Frame} (htype : f.type ≠ .msg) : f.sealedBy p = false := by
  unfold Frame.sealedBy
  rw [decide_eq_false htype]
  rfl

omit [Crypto] in
theorem brings_iff {f : Frame} : f.brings p = true ↔
    f.type = .key ∧ (f.get "user").truthy = true ∧ (f.get "pubkey").truthy = true ∧ (f.get "user").pyStr = p := by
  unfold Frame.brings
  simp only [Bool.and_eq_true, decide_eq_true_eq, and_assoc]

omit [Crypto] in
theorem remembering_eq {k : Keyring} (hk : c.keyring = some k) (f : Frame) : c.remembering f =
    { c.receiving f with keyring := some (k.remember (f.get "user").pyStr (f.get "pubkey").pyStr) } := by
  unfold remembering
  rw [hk]
  rfl

/-- What a frame that brings the key of `p` comes to. -/
theorem exec_key_brings {k : Keyring} (hk : c.keyring = some k) {f : Frame} (hf : f.brings p = true) :
    exec (key f) (c.receiving f) = exec (do release p; afterwards p) (c.remembering f) := by
  obtain ⟨-, huser, hpubkey, hp⟩ := brings_iff.mp hf
  have hknown : (!(f.get "user").truthy || !(f.get "pubkey").truthy) = false := by
    rw [huser, hpubkey]
    rfl
  rw [exec_key_known (c := c.receiving f) hk hknown, ← remembering_eq hk, hp]

/-- **The key of `p`**: what waited is filed, if what was held for `p` lets it. -/
theorem key_own_posted (h : Posted p c) (hme : c.me ≠ p) {f : Frame} (hf : f.brings p = true)
    (hrelease : c.awaited p ≠ [] → (c.remembering f).Releasable p)
    (hsettles : c.model.SettlesAll ((c.awaited p).dropLast.map (Frame.typist p)))
    (hopens : ∀ d, exec (release p) (c.remembering f) = (.ok ⟨⟩, d) → ∀ k, d.keyring = some k →
      ∀ g ∈ d.awaited p, Opens k p g) :
    Posted p (exec (key f) (c.receiving f)).2 := by
  obtain ⟨k, hk, hs⟩ := h.keyring
  obtain ⟨htype, -, -, hp⟩ := brings_iff.mp hf
  have hremembering := remembering_eq hk f
  have hcons := Keyring.remember_consistent hs (f.get "user").pyStr (f.get "pubkey").pyStr
  rw [exec_key_brings hk hf]
  have hreceived := (h.receiving (sealedBy_of_type (p := p) (f := f) (by rw [htype]; decide))).toUnderway
  have hunder : Underway p (c.remembering f) := by
    rw [hremembering]
    exact ⟨hreceived.order, hreceived.place, hreceived.sorted, hreceived.addressed, ⟨_, rfl, hcons⟩, hreceived.up⟩
  have hme' : (c.remembering f).me ≠ p := hme
  have happart := release_apart (p := p) p (c.remembering f)
  rw [exec_bind]
  rcases hrun : exec (release p) (c.remembering f) with ⟨e | u, d⟩ <;> rw [hrun] at happart
  · -- the texts held for `p` stood in the way, and nothing waits behind them
    refine .of_none ⟨hunder.apart happart hme', happart.awaited.trans ?_⟩
    by_contra hne
    have hreturns := release_returns (by rw [hremembering]) hcons hunder.up (hrelease hne)
    unfold Ends at hreturns
    rw [hrun] at hreturns
    exact hreturns
  · have hmoves : Moves [.message, .borrowing] [] (release p) := release_moves (by simp) (by simp) p
    have htyping : d.model.typing = c.model.typing := by
      have hmoved := (hmoves (c.remembering f)).moved.typing (by simp) (by simp)
      rw [hrun] at hmoved
      exact hmoved
    refine .of_none (afterwards_files (hunder.apart happart hme') ?_ (hopens d hrun) ?_)
    · rw [happart.me]
      exact hme'
    · rw [happart.awaited]
      exact hsettles.of_typing htyping

/-- Any KEY frame. -/
theorem key_posted (h : Posted p c) (hme : c.me ≠ p) {f : Frame} (htype : f.type = .key)
    (hrelease : f.brings p = true → c.awaited p ≠ [] → (c.remembering f).Releasable p)
    (hsettles : f.brings p = true → c.model.SettlesAll ((c.awaited p).dropLast.map (Frame.typist p)))
    (hopens : f.brings p = true → ∀ d, exec (release p) (c.remembering f) = (.ok ⟨⟩, d) → ∀ k, d.keyring = some k →
      ∀ g ∈ d.awaited p, Opens k p g) :
    Posted p (exec (key f) (c.receiving f)).2 := by
  by_cases hf : f.brings p = true
  · exact key_own_posted h hme hf (hrelease hf) (hsettles hf) (hopens hf)
  · obtain ⟨k, hk, hs⟩ := h.keyring
    have hreceived := h.receiving (sealedBy_of_type (p := p) (f := f) (by rw [htype]; decide))
    by_cases hknown : (!(f.get "user").truthy || !(f.get "pubkey").truthy) = true
    · rw [exec_key_nothing (.inr hknown)]
      exact hreceived
    · have hother : p ≠ (f.get "user").pyStr := by
        intro hp
        refine hf ?_
        unfold Frame.brings
        rw [htype, ← hp]
        simpa using hknown
      rw [exec_key_known (c := c.receiving f) hk (by simpa using hknown)]
      have hfirst : Apart p (c.receiving f)
          { c.receiving f with keyring := some (k.remember (f.get "user").pyStr (f.get "pubkey").pyStr) } := by
        refine .of_eq rfl rfl rfl rfl rfl fun _ k₀ hk₀ hs₀ => ⟨_, rfl, Keyring.remember_consistent hs _ _, ?_⟩
        obtain rfl := Option.some.inj (hk.symm.trans hk₀)
        rw [Keyring.remember_knows, decide_eq_false hother, Bool.false_or]
      exact (hreceived.apart hfirst hme).apart (released_apart hother h.sorted) hme

omit [Crypto] in
/-- LOGIN_OK is for the model alone. -/
theorem loggedIn_model (f : Frame) : Steps (fun c c' => ∃ m, c' = { c with model := m }) (loggedIn f) := by
  have hr : ∀ c : ChatController, ∃ m, c = { c with model := m } := fun c => ⟨c.model, rfl⟩
  have ht : ∀ a b c : ChatController, (∃ m, b = { a with model := m }) → (∃ m, c = { b with model := m }) →
      ∃ m, c = { a with model := m } := by
    intro a b c h h'
    obtain ⟨m, rfl⟩ := h
    obtain ⟨m', rfl⟩ := h'
    exact ⟨m', rfl⟩
  have hmodel : ∀ g : ChatModel → ChatModel, Steps (fun c c' => ∃ m, c' = { c with model := m }) (onModel g) :=
    fun g => steps_modify fun c => ⟨g c.model, rfl⟩
  have hlift : ∀ {α : Type} (r : Except PyErr α), Steps (fun c c' => ∃ m, c' = { c with model := m }) (lift r) := by
    intro α r
    cases r with
    | ok a => exact steps_pure hr a
    | error e => exact steps_throw hr _
  have hcontacts : Steps (fun c c' => ∃ m, c' = { c with model := m }) (replaceContacts (f.get "contacts")) := by
    refine Steps.bind ht (hlift _) fun entries => steps_get fun c => ?_
    exact Steps.bind ht (hlift _) (fun m => hmodel _) c
  have hrest : Steps (fun c c' => ∃ m, c' = { c with model := m }) (do
      let roster ← lift (iter ((f.get "roster").orElse (.list [])))
      onModel fun m => m.replaceRoster (roster.map Json.pyStr)
      replaceContacts (f.get "contacts") : ClientM Unit) :=
    Steps.bind ht (hlift _) fun roster => Steps.bind ht (hmodel _) fun _ => hcontacts
  exact steps_ite (Steps.bind ht (hmodel _) fun _ => hrest) hrest

/-- Of one input: somebody else than `p` is logged in, and opening what is opened of `p`
raises nothing but `DecryptionFailed`. -/
def Within (p : Str) (c : ChatController) (g : Gesture) : Prop :=
  Besides p c ∧ ∀ f, g = .frame f →
    (f.sealedBy p = true → ∀ k, c.keyring = some k → k.knows p = true → Opens k p f) ∧
    (f.brings p = true → ∀ d, exec (release p) (c.remembering f) = (.ok ⟨⟩, d) → ∀ k, d.keyring = some k →
      ∀ g ∈ d.awaited p, Opens k p g)

/-- The condition on one input. A sealed message of `p` has a recipient that can be looked
at. Where messages wait for the key that comes, what is held for `p` can go out, and the
typing of their senders ends without an exception, the last one's apart. -/
def ArrivesWell (p : Str) (c : ChatController) (g : Gesture) : Prop :=
  ∀ f, g = .frame f → (f.sealedBy p = true → f.Addressed) ∧
    (f.brings p = true → c.awaited p ≠ [] → (c.remembering f).Releasable p) ∧
    (f.brings p = true → c.model.SettlesAll ((c.awaited p).dropLast.map (Frame.typist p)))

theorem frame_posted (h : Posted p c) (hp : p ≠ []) {f : Frame} (hw : Within p c (.frame f)) (hs : ArrivesWell p c (.frame f)) :
    Posted p (c.step (.frame f)) := by
  obtain ⟨hu, hopens⟩ := hw
  obtain ⟨hopens, hopens'⟩ := hopens f rfl
  obtain ⟨hto, hrelease, hsettles⟩ := hs f rfl
  by_cases hmsg : f.type = .msg
  · rw [step_msg c hmsg]
    by_cases hf : f.sealedBy p = true
    · exact incomingMessage_posted h hf (hto hf) hp hu (hopens hf)
    · have hf : f.sealedBy p = false := by simpa using hf
      exact (h.receiving hf).apart (incomingMessage_apart hmsg hf _) hu.me_ne
  · have hreceived := h.receiving (sealedBy_of_type (p := p) hmsg)
    by_cases hkey : f.type = .key
    · rw [step_key c hkey]
      exact key_posted h hu.me_ne hkey hrelease hsettles hopens'
    · by_cases hlogin : f.type = .loginOk
      · obtain ⟨m, hm⟩ := loggedIn_model f (c.receiving f)
        rw [step_loginOk c hlogin, hm]
        exact ⟨⟨hreceived.order, hreceived.place, hreceived.sorted, hreceived.addressed, hreceived.keyring, hreceived.up⟩,
          hreceived.waits⟩
      · -- nothing else files or brings a key
        have hwalk := onFrame_walk c f
        have hpub : f.published = [] := if_neg hkey
        rw [hpub] at hwalk
        refine hreceived.apart (hwalk.apart ?_ ?_ nofun) hu.me_ne
        · revert hmsg hkey
          generalize f.type = t
          cases t <;> simp [frameKinds]
        · revert hlogin
          generalize f.type = t
          cases t <;> simp [frameKinds]

/-- **One input** keeps `p`'s messages in order. -/
theorem step_posted (h : Posted p c) (hp : p ≠ []) {g : Gesture} (hw : Within p c g) (hs : ArrivesWell p c g) :
    Posted p (c.step g) := by
  by_cases hframe : ∃ f, g = .frame f
  · obtain ⟨f, rfl⟩ := hframe
    exact frame_posted h hp hw hs
  · have hwalk := handle_moves (g := g) (fun f hf => hframe ⟨f, hf⟩) c
    have hpub : g.published = [] := by
      cases g with
      | frame f => exact absurd ⟨f, rfl⟩ hframe
      | _ => rfl
    rw [hpub] at hwalk
    refine h.apart (hwalk.apart ?_ ?_ nofun) hw.1.me_ne
    · cases g with
      | frame f => exact absurd ⟨f, rfl⟩ hframe
      | _ => simp [Gesture.mayChange]
    · cases g with
      | frame f => exact absurd ⟨f, rfl⟩ hframe
      | _ => simp [Gesture.mayChange]

/-! ## Runs -/

theorem run_posted (hp : p ≠ []) (gs : List Gesture) : ∀ {c : ChatController}, Posted p c → Throughout (Within p) c gs →
    Throughout (ArrivesWell p) c gs → Posted p (c.run gs) := by
  induction gs with
  | nil => exact fun h _ _ => h
  | cons g gs ih =>
    intro c h hw hs
    exact ih (step_posted h hp hw.1 hs.1) hw.2 hs.2

/-- **Sealed messages are filed exactly once and in order**: over every run of a controller
with a keyring that nothing has come to yet, while the connection is up, `p` is not the
user and opening raises nothing else, if every input arrives well. -/
theorem run_orderly {k : Keyring} (hk : c.keyring = some k) (hs : k.Consistent) (hup : ∀ n, (c.connection n).isSome = true)
    (hawaiting : c.awaiting = []) (hfiled : c.filed = []) (hreceived : ∀ f ∈ c.received, f.type ≠ .msg) (hp : p ≠ [])
    (gs : List Gesture) (hw : Throughout (Within p) c gs) (hsteady : Throughout (ArrivesWell p) c gs) : Orderly p (c.run gs) := by
  have hnone : c.awaited p = [] := by
    unfold awaited
    rw [hawaiting]
    rfl
  have hstart : Underway p c := by
    refine ⟨?_, ?_, ?_, ?_, ⟨k, hk, hs⟩, hup⟩
    · have hno : c.receivedFrom p = [] := List.filter_eq_nil_iff.mpr fun f hf => by
        rw [sealedBy_of_type (hreceived f hf)]
        decide
      unfold filedFrom
      rw [hno, hnone, hfiled]
      rfl
    · rw [hfiled]
      exact nofun
    · unfold Sorted
      rw [hawaiting]
      exact nofun
    · rw [hnone]
      exact nofun
  exact (run_posted hp gs (.of_none ⟨hstart, hnone⟩) hw hsteady).orderly

end ChatController

/-! ## A message before its key -/

section Concrete

open ChatController Envelope Sample

attribute [local instance] bytePrimitives sampleRuntime

/-- A client on which `a` is logged in. -/
def clientOfA : ChatController where
  model := { username := some "a" }
  keyring := some { identity := identityOf 1, urandom := fun _ => [] }
  connection _ := some ("i", 1)
  clock _ := 0

/-- `b` writes to `a`. -/
def letterOfB : Frame where
  type := .msg
  sender := .str "b"
  target := .str "a"
  body := .str (b64 (identityOf 3 ++ Str.utf8 "hi"))
  nonce := .str "AAAA"
  id := .str "m"
  ts := 1

def keyFrameOfB (pubkey : Str) : Frame where
  type := .key
  data := [("user", .str "b"), ("pubkey", .str pubkey)]
  id := .str "k"
  ts := 2

/-- The letter comes, and then `b`'s key, but a text to `b` is held meanwhile. -/
def typedBetween (pubkey : Str) : List Gesture :=
  [.frame letterOfB, .select "b", .send "hi", .frame (keyFrameOfB pubkey)]

/-- Once `b`'s key is here, the letter is opened. -/
theorem letterOfB_orderly :
    Orderly "b" (clientOfA.run [.frame letterOfB, .frame (keyFrameOfB (b64 (identityOf 2)))]) := by
  have hcons : (Keyring.mk (identityOf 1) [] [] [] (fun _ => []) 0).Consistent := .fresh _ _
  refine run_orderly rfl hcons (fun _ => rfl) rfl rfl (fun _ h => absurd h List.not_mem_nil) (by decide) _ ?_ ?_
  · refine ⟨⟨⟨"a", rfl, by decide, by decide⟩, ?_⟩, ⟨⟨"a", rfl, by decide, by decide⟩, ?_⟩, trivial⟩
    · intro f hf
      obtain rfl := Gesture.frame.inj hf
      refine ⟨fun _ k hk hknows => ?_, fun h => absurd h (by decide)⟩
      obtain rfl := Option.some.inj hk
      cases hknows
    · intro f hf
      obtain rfl := Gesture.frame.inj hf
      refine ⟨fun h => absurd h (by decide), fun _ d hd k hk g hg => ?_⟩
      obtain rfl := (Prod.mk.inj hd).2
      obtain rfl := Option.some.inj hk
      have hopened : ∀ g ∈ [letterOfB], (exec (Keyring.open' (.str "b") (g.body.orElse (.str [])) g.nonce (g.sender.orElse (.str [])))
          (Keyring.remember (Keyring.mk (identityOf 1) [] [] [] (fun _ => []) 0) "b" (b64 (identityOf 2)))).1.isOk = true := by
        decide +kernel
      exact opens_of_isOk (hopened g hg)
  · refine ⟨fun f hf => ?_, fun f hf => ?_, trivial⟩
    · obtain rfl := Gesture.frame.inj hf
      exact ⟨fun _ => ⟨"a", rfl⟩, fun h => absurd h (by decide), fun h => absurd h (by decide)⟩
    · obtain rfl := Gesture.frame.inj hf
      exact ⟨fun h => absurd h (by decide), fun _ _ => .inl rfl, fun _ => trivial⟩

/-- If what comes as `b`'s key is none, the key is known afterwards, and the letter still
waits for it. -/
theorem letterOfB_stranded :
    (∀ n, (clientOfA.connection n).isSome = true) ∧ Throughout (Within "b") clientOfA (typedBetween "x") ∧
      (clientOfA.run (typedBetween "x")).awaited "b" = [letterOfB] ∧ ¬ Orderly "b" (clientOfA.run (typedBetween "x")) := by
  have hwaits : (clientOfA.run (typedBetween "x")).awaited "b" = [letterOfB] := by decide +kernel
  have hknows : ((clientOfA.run (typedBetween "x")).keyring.any fun k => k.knows "b") = true := by decide +kernel
  have hnamed : ∀ {c : ChatController}, c.model.username = some (Str.ofString "a") → Besides "b" c := fun h =>
    ⟨_, h, by decide, by decide⟩
  refine ⟨fun _ => rfl, ⟨⟨hnamed rfl, ?_⟩, ⟨hnamed rfl, nofun⟩, ⟨hnamed rfl, nofun⟩, ⟨hnamed rfl, ?_⟩, trivial⟩, hwaits,
    fun h => ?_⟩
  · intro f hf
    obtain rfl := Gesture.frame.inj hf
    refine ⟨fun _ k hk hknows => ?_, fun h => absurd h (by decide)⟩
    obtain rfl := Option.some.inj hk
    cases hknows
  · intro f hf
    obtain rfl := Gesture.frame.inj hf
    refine ⟨fun h => absurd h (by decide), fun _ d hd => ?_⟩
    -- the text cannot be sealed, so nothing is opened at all
    have hraises : (exec (release "b") ((clientOfA.run [.frame letterOfB, .select "b", .send "hi"]).remembering
        (keyFrameOfB "x"))).1.isOk = false := by
      decide +kernel
    have hraises' := (congrArg (fun r : Except ClientErr PUnit × ChatController => r.1.isOk) hd).symm.trans hraises
    cases hraises'
  · cases hk : (clientOfA.run (typedBetween "x")).keyring with
    | none =>
      rw [hk] at hknows
      cases hknows
    | some k =>
      have hno := h.waits (by rw [hwaits]; nofun) k hk
      rw [hk] at hknows
      exact absurd (hno.symm.trans hknows) (by decide)

end Concrete

end Ciphertext
