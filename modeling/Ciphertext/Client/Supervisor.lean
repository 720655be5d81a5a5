import Ciphertext.Client.Session

/-!
# The supervisor and a loss in the middle of a handshake

`_reconnect` catches `ConnectionError`, `TimeoutError` and `OSError`. `login`
also raises `NotConnected`, and `transition` raises `IllegalTransition`, and
neither is one of those. Which of them a lost connection turns into depends on
where the supervisor stands when the reader notices.

`Late` is the list of those places. It speaks of the call the supervisor makes
next and of the connection as the reader finds it:

* the reader applies CONNECTION_LOST when `login` is about to look at the state,
  or when the answer is in the slot and LOGIN_OK or LOGIN_REFUSED is still to
  come;
* the reader releases `_reply_ready` while the request waits unanswered.

`Session.goes_on` is the converse: a run without these never ends the
supervisor, as long as the schedule's `2.0 ** attempts` is a float.
-/

namespace Ciphertext

namespace Client

namespace Access

/-- `login` is about to look at the state. -/
def looks (i : ConnId) : Access → Bool
  | state j => j = i
  | _ => false

/-- `login` has asked, and waits for the answer. -/
def asks (i : ConnId) : Access → Bool
  | putNowait j _ => j = i
  | replyWait j => j = i
  | _ => false

/-- `login` has its answer, and is about to say so to the machine. -/
def settles (i : ConnId) : Access → Bool
  | takeReply j => j = i
  | setUsername j _ => j = i
  | transition j .loginOk => j = i
  | transition j .loginRefused => j = i
  | _ => false

/-- `_watch` is about to compute its delay. -/
def delays : Access → Bool
  | nextDelay => true
  | _ => false

end Access

/-- The reader's next step on connection `i` comes too late for the handshake
to fail cleanly. -/
def Late (o : Access) (i : ConnId) (c : ServerConnection) : Prop :=
  (c.reader = .losing ∧ c.machine = .authenticating ∧
      (o.looks i = true ∨ (o.asks i = true ∧ c.replyReady = true) ∨ o.settles i = true)) ∨
    (c.reader = .releasing ∧ o.asks i = true ∧ c.reply = none)

instance (o : Access) (i : ConnId) (c : ServerConnection) : Decidable (Late o i c) :=
  inferInstanceAs (Decidable (_ ∨ _))

/-- The steps that are excluded while the supervisor is about to make the call
`o`: a late one of a reader, and its own when the delay it computes is no float. -/
def Access.Untimely (o : Access) (s : Shared) : Move → Prop
  | .reader i _ => Late o i (s.connections i)
  | .supervisor _ => o.delays = true ∧ overflowsAt ≤ s.attempts
  | _ => False

instance (o : Access) (s : Shared) (m : Move) : Decidable (o.Untimely s m) :=
  match m with
  | .reader i _ => inferInstanceAs (Decidable (Late o i (s.connections i)))
  | .supervisor _ => inferInstanceAs (Decidable (_ ∧ _))
  | .writer _ => inferInstanceAs (Decidable False)
  | .heartbeat _ => inferInstanceAs (Decidable False)
  | .send _ => inferInstanceAs (Decidable False)
  | .stop => inferInstanceAs (Decidable False)
  | .closeConnection => inferInstanceAs (Decidable False)

/-! ## What the others can do -/

/-- The others' steps, while the supervisor is about to make the call `o`. -/
def Others (o : Access) (s s' : Shared) : Prop :=
  ∃ m, (∀ i x, m = .reader i x → ¬ Late o i (s.connections i)) ∧ s' = s.move m

/-- The supervisor's own call. -/
def Own (o : Access) (s : Shared) (r : o.Ret) (s' : Shared) : Prop :=
  (o = .nextDelay → s.attempts < overflowsAt) ∧ ∃ x, o.exec x s = some (r, s')

/-- A closed connection knows that it is closing. -/
def ServerConnection.Sane (c : ServerConnection) : Prop := c.machine = .closed → c.closing = true

namespace ServerConnection

theorem read_machine_ne_closed {c : ServerConnection} (h : c.machine ≠ .closed) (x : Read) :
    (c.read x).machine ≠ .closed := by
  unfold read
  split
  · exact h
  · exact h
  · split
    · exact h
    · split <;> exact h
  · exact h
  · exact h
  · split
    · exact h
    · split <;> exact h
  · split
    · next hm => exact ConnectionState.transition_ne_closed (by simp) hm
    · exact h
  · exact h

theorem missedPongs_machine_ne_closed {c : ServerConnection} (h : c.machine ≠ .closed) :
    c.missedPongs.machine ≠ .closed := by
  unfold missedPongs
  split
  · exact h
  · split
    · next hm => exact ConnectionState.transition_ne_closed (by simp) hm
    · exact h

theorem read_closing (c : ServerConnection) (x : Read) : (c.read x).closing = c.closing := by
  unfold read
  repeat' split
  all_goals rfl

theorem read_outbox (c : ServerConnection) (x : Read) : (c.read x).outbox = c.outbox := by
  unfold read
  repeat' split
  all_goals rfl

theorem missedPongs_closing (c : ServerConnection) : c.missedPongs.closing = c.closing := by
  unfold missedPongs
  repeat' split
  all_goals rfl

theorem Sane.read {c : ServerConnection} (h : c.Sane) (x : Read) : (c.read x).Sane := by
  intro hc
  rw [read_closing]
  by_contra hopen
  exact read_machine_ne_closed (fun hm => hopen (h hm)) x hc

theorem Sane.missedPongs {c : ServerConnection} (h : c.Sane) : c.missedPongs.Sane := by
  intro hc
  rw [missedPongs_closing]
  by_contra hopen
  exact missedPongs_machine_ne_closed (fun hm => hopen (h hm)) hc

theorem Sane.close {c : ServerConnection} (h : c.Sane) : c.close.Sane := by
  unfold ServerConnection.close
  split
  · exact h
  · exact fun _ => rfl

theorem Sane.send {c : ServerConnection} (h : c.Sane) (f : Frame) : (c.send f).Sane := by
  unfold ServerConnection.send
  split
  · exact h
  · split
    · exact h
    · exact h.close

end ServerConnection

/-- Every connection is. -/
def Shared.Sane (s : Shared) : Prop := ∀ i, (s.connections i).Sane

theorem Shared.Sane.update {s : Shared} (h : s.Sane) {i : ConnId}
    {f : ServerConnection → ServerConnection} (hf : (f (s.connections i)).Sane) :
    (s.update i f).Sane := by
  intro j
  by_cases hj : j = i
  · subst hj
    rw [Shared.update_connections_self]
    exact hf
  · rw [Shared.update_connections_ne s hj]
    exact h j

theorem Shared.Sane.move {s : Shared} (h : s.Sane) (m : Move) : (s.move m).Sane := by
  cases m with
  | supervisor x => exact h
  | reader i x => exact h.update (f := fun c => c.read x) ((h i).read x)
  | writer i => exact h.update (h i)
  | heartbeat i => exact h.update (h i).missedPongs
  | send f =>
    unfold Shared.move
    cases s.connection with
    | none => exact h
    | some i => exact h.update ((h i).send f)
  | stop => exact h
  | closeConnection =>
    unfold Shared.move
    cases s.connection with
    | none => exact h
    | some i => exact h.update (h i).close

/-- Nobody holds connection `i` but the supervisor, its reader, its writer and
its heartbeat, and `P` is true of it. -/
structure Shared.Quiet (i : ConnId) (P : ServerConnection → Prop) (s : Shared) : Prop where
  sane : s.Sane
  alone : s.connection = none
  holds : P (s.connections i)

/-- The connection's own threads keep `P` while the supervisor is about to make
the call `o`. -/
structure KeptByThreads (o : Access) (i : ConnId) (P : ServerConnection → Prop) : Prop where
  read : ∀ c x, P c → ¬ Late o i c → P (c.read x)
  write : ∀ c, P c → P c.write
  heartbeat : ∀ c, P c → P c.missedPongs

theorem Shared.Quiet.update {i : ConnId} {P P' : ServerConnection → Prop} {s : Shared}
    (h : s.Quiet i P) {f : ServerConnection → ServerConnection}
    (hf : ∀ c, c.Sane → P c → (f c).Sane ∧ P' (f c)) : (s.update i f).Quiet i P' := by
  have hc := hf _ (h.sane i) h.holds
  refine ⟨h.sane.update hc.1, h.alone, ?_⟩
  rw [Shared.update_connections_self]
  exact hc.2

/-- The step another thread takes leaves `P` in place. -/
theorem Shared.Quiet.others {o : Access} {i : ConnId} {P : ServerConnection → Prop}
    (hP : KeptByThreads o i P) {s s' : Shared} (h : s.Quiet i P) (ho : Others o s s') : s'.Quiet i P := by
  obtain ⟨m, hm, rfl⟩ := ho
  refine ⟨h.sane.move m, ?_, ?_⟩
  · cases m <;> simp [Shared.move, h.alone]
  -- A step on another connection does not touch this one.
  have hother : ∀ j f, j ≠ i → P ((s.update j f).connections i) := by
    intro j f hj
    rw [Shared.update_connections_ne s hj.symm]
    exact h.holds
  cases m with
  | supervisor x => exact h.holds
  | reader j x =>
    by_cases hj : j = i
    · subst hj
      simpa [Shared.move] using hP.read _ x h.holds (hm j x rfl)
    · exact hother j (fun c => c.read x) hj
  | writer j =>
    by_cases hj : j = i
    · subst hj
      simpa [Shared.move] using hP.write _ h.holds
    · exact hother j _ hj
  | heartbeat j =>
    by_cases hj : j = i
    · subst hj
      simpa [Shared.move] using hP.heartbeat _ h.holds
    · exact hother j _ hj
  | send f =>
    rw [Shared.move, h.alone]
    exact h.holds
  | stop => exact h.holds
  | closeConnection =>
    rw [Shared.move, h.alone]
    exact h.holds

/-! ## The stations of a handshake -/

namespace ServerConnection

/-- Before the threads are started. -/
structure Bare (m : ConnectionState) (c : ServerConnection) : Prop where
  machine : c.machine = m
  closing : c.closing = false
  heartbeat : c.heartbeat = false
  reader : c.reader = .notStarted
  awaits : c.awaitTypes = []
  outbox : c.outbox = []

/-- The reader runs, and nothing has been asked. -/
structure Unasked (c : ServerConnection) : Prop where
  closing : c.closing = false
  heartbeat : c.heartbeat = false
  awaits : c.awaitTypes = []
  outbox : c.outbox = []
  accepting : ∀ f, c.reader ≠ .accepting f
  answering : c.reader ≠ .answering

/-- Logging in, unless the reader has already said otherwise. -/
def Hopeful (c : ServerConnection) : Prop :=
  c.machine = .authenticating ∨
    c.machine = .retrying ∧ (c.reader = .releasing ∨ c.reader = .ended)

/-- Asked, with no answer yet. -/
structure Asked (types : List MessageType) (c : ServerConnection) : Prop where
  closing : c.closing = false
  heartbeat : c.heartbeat = false
  hopeful : c.Hopeful
  ready : c.replyReady = false
  reply : c.reply = none
  awaits : ∀ t ∈ c.awaitTypes, t ∈ types
  accepting : ∀ f, c.reader = .accepting f → f.type ∈ types
  answering : c.reader ≠ .answering

/-- Answered, and still logging in. -/
structure Answered (types : List MessageType) (c : ServerConnection) : Prop where
  closing : c.closing = false
  heartbeat : c.heartbeat = false
  machine : c.machine = .authenticating
  awaits : c.awaitTypes = []
  reply : ∃ f, c.reply = some f ∧ f.type ∈ types
  reader : c.replyReady = false ∧ c.reader = .answering ∨
    c.replyReady = true ∧ (c.reader = .reading ∨ c.reader = .noticing ∨ c.reader = .losing)

/-- The answer is with the supervisor. -/
structure Settling (c : ServerConnection) : Prop where
  closing : c.closing = false
  heartbeat : c.heartbeat = false
  machine : c.machine = .authenticating
  awaits : c.awaitTypes = []
  reader : c.reader = .reading ∨ c.reader = .noticing ∨ c.reader = .losing

/-- Whatever came of it, the connection can be closed. -/
structure Open (c : ServerConnection) : Prop where
  closing : c.closing = false
  machine : c.machine ≠ .closed

theorem missedPongs_of_quiet {c : ServerConnection} (h : c.heartbeat = false) :
    c.missedPongs = c := by
  unfold missedPongs
  rw [h]
  rfl

/-- Before the threads are started nothing moves. -/
theorem keptByThreads_bare (o : Access) (i : ConnId) (m : ConnectionState) : KeptByThreads o i (Bare m) where
  read c x h _ := by
    have hread : c.read x = c := by simp [ServerConnection.read, h.reader]
    rwa [hread]
  write c h := { h with outbox := by rw [write, h.outbox]; rfl }
  heartbeat c h := by rwa [missedPongs_of_quiet h.heartbeat]

/-- A reader with nothing to deliver stays so. -/
theorem Unasked.read {c : ServerConnection} (h : c.Unasked) (x : Read) : (c.read x).Unasked := by
  unfold ServerConnection.read
  split
  · exact h
  · exact h
  · split
    · exact { h with accepting := by simp, answering := by simp }
    · rw [h.awaits]
      exact h
  · next f hr => exact (h.accepting f hr).elim
  · next hr => exact (h.answering hr).elim
  · split
    · exact { h with accepting := by simp, answering := by simp }
    · split <;> exact { h with accepting := by simp, answering := by simp }
  · split <;> exact { h with accepting := by simp, answering := by simp }
  · exact { h with accepting := by simp, answering := by simp }

theorem Unasked.write {c : ServerConnection} (h : c.Unasked) : c.write.Unasked :=
  { h with outbox := by rw [ServerConnection.write, h.outbox]; rfl }

/-- A loss noticed this early finds a machine that has no use for it. -/
theorem keptByThreads_connecting (o : Access) (i : ConnId) : KeptByThreads o i fun c =>
    c.Unasked ∧ c.machine = .connecting ∧ c.reader ≠ .losing where
  read c x h _ := by
    obtain ⟨hidle, hm, hr⟩ := h
    refine ⟨hidle.read x, ?_⟩
    cases hc : c.reader with
    | losing => exact (hr hc).elim
    | reading =>
      cases x with
      | gone => simp [ServerConnection.read, hc, hm]
      | frame f => simp [ServerConnection.read, hc, hm, hidle.awaits]
    | accepting f => exact (hidle.accepting f hc).elim
    | answering => exact (hidle.answering hc).elim
    | noticing =>
      simp [ServerConnection.read, hc, hm, hidle.closing]
    | _ => simp [ServerConnection.read, hc, hm]
  write c h := ⟨h.1.write, h.2⟩
  heartbeat c h := by rwa [missedPongs_of_quiet h.1.heartbeat]

/-- While the client logs in, a loss is one to act on. -/
theorem read_noticing {c : ServerConnection} (hr : c.reader = .noticing) (hc : c.closing = false)
    (hm : c.machine = .authenticating) (x : Read) : c.read x = { c with reader := .losing } := by
  simp [ServerConnection.read, hr, hc, hm]

/-- About to look at the state: a reader that applies the loss now is late. -/
theorem keptByThreads_authenticating (i : ConnId) : KeptByThreads (.state i) i fun c =>
    c.Unasked ∧ c.machine = .authenticating where
  read c x h hlate := by
    obtain ⟨hidle, hm⟩ := h
    refine ⟨hidle.read x, ?_⟩
    cases hc : c.reader with
    | losing => exact (hlate (.inl ⟨hc, hm, .inl (by simp [Access.looks])⟩)).elim
    | reading =>
      cases x with
      | gone => simp [ServerConnection.read, hc, hm]
      | frame f => simp [ServerConnection.read, hc, hm, hidle.awaits]
    | noticing => simp [ServerConnection.read, hc, hm, hidle.closing]
    | _ => simp [ServerConnection.read, hc, hm]
  write c h := ⟨h.1.write, h.2⟩
  heartbeat c h := by rwa [missedPongs_of_quiet h.1.heartbeat]

/-- Between looking at the state and asking, a loss does no harm: the request
will wait for an answer that does not come. -/
theorem keptByThreads_hopeful (o : Access) (i : ConnId) : KeptByThreads o i fun c =>
    c.Unasked ∧ c.Hopeful where
  read c x h _ := by
    obtain ⟨hidle, hope⟩ := h
    refine ⟨hidle.read x, ?_⟩
    unfold Hopeful at hope ⊢
    cases hc : c.reader with
    | reading =>
      have hm : c.machine = .authenticating := by simpa [hc] using hope
      cases x with
      | gone => simp [ServerConnection.read, hc, hm]
      | frame f => simp [ServerConnection.read, hc, hm, hidle.awaits]
    | noticing =>
      have hm : c.machine = .authenticating := by simpa [hc] using hope
      simp [ServerConnection.read, hc, hm, hidle.closing]
    | losing =>
      have hm : c.machine = .authenticating := by simpa [hc] using hope
      simp [ServerConnection.read, hc, hm]
    | accepting f => exact (hidle.accepting f hc).elim
    | answering => exact (hidle.answering hc).elim
    | notStarted => simpa [ServerConnection.read, hc] using hope
    | releasing => simpa [ServerConnection.read, hc] using hope
    | ended => simpa [ServerConnection.read, hc] using hope
  write c h := ⟨h.1.write, h.2⟩
  heartbeat c h := by rwa [missedPongs_of_quiet h.1.heartbeat]

/-- A reader's step on an unanswered request: it stays unanswered, or the answer
comes while the machine still waits for one. -/
theorem Asked.read {types : List MessageType} {o : Access} {i : ConnId} {c : ServerConnection}
    (ho : o.asks i = true) (h : c.Asked types) (x : Read) (hlate : ¬ Late o i c) :
    (c.read x).Asked types ∨ (c.read x).Answered types := by
  have hope := h.hopeful
  unfold Hopeful at hope
  cases hc : c.reader with
  | notStarted =>
    left
    simpa [ServerConnection.read, hc] using h
  | reading =>
    left
    have hm : c.machine = .authenticating := by simpa [hc] using hope
    cases x with
    | gone =>
      simp only [ServerConnection.read, hc]
      exact { h with hopeful := .inl hm, accepting := by simp, answering := by simp }
    | frame f =>
      simp only [ServerConnection.read, hc]
      split
      · next ht =>
        refine { h with hopeful := .inl hm, accepting := ?_, answering := by simp }
        rintro f' ⟨rfl⟩
        exact h.awaits _ (List.contains_iff_mem.mp ht)
      · exact h
  | accepting f =>
    right
    have hm : c.machine = .authenticating := by simpa [hc] using hope
    simp only [ServerConnection.read, hc]
    exact ⟨h.closing, h.heartbeat, hm, rfl, ⟨f, rfl, h.accepting f hc⟩, .inl ⟨h.ready, rfl⟩⟩
  | answering => exact (h.answering hc).elim
  | noticing =>
    left
    have hm : c.machine = .authenticating := by simpa [hc] using hope
    rw [read_noticing hc h.closing hm]
    exact { h with hopeful := .inl hm, accepting := by simp, answering := by simp }
  | losing =>
    left
    have hm : c.machine = .authenticating := by simpa [hc] using hope
    simp only [ServerConnection.read, hc, hm, ConnectionState.transition_lost_authenticating]
    exact { h with hopeful := .inr ⟨rfl, .inl rfl⟩, accepting := by simp, answering := by simp }
  | releasing => exact (hlate (.inr ⟨hc, ho, h.reply⟩)).elim
  | ended =>
    left
    simpa [ServerConnection.read, hc] using h

/-- A reader's step on an answered request. -/
theorem Answered.read {types : List MessageType} {o : Access} {i : ConnId} {c : ServerConnection}
    (ho : o.asks i = true ∨ o.settles i = true) (h : c.Answered types) (x : Read)
    (hlate : ¬ Late o i c) : (c.read x).Answered types := by
  rcases h.reader with ⟨hready, hc⟩ | ⟨hready, hc | hc | hc⟩
  · simp only [ServerConnection.read, hc]
    exact { h with reader := .inr ⟨rfl, .inl rfl⟩ }
  · cases x with
    | gone =>
      simp only [ServerConnection.read, hc]
      exact { h with reader := .inr ⟨hready, .inr (.inl rfl)⟩ }
    | frame f => simpa [ServerConnection.read, hc, h.awaits] using h
  · rw [read_noticing hc h.closing h.machine]
    exact { h with reader := .inr ⟨hready, .inr (.inr rfl)⟩ }
  · refine (hlate ?_).elim
    exact .inl ⟨hc, h.machine, .inr (ho.imp_left fun hask => ⟨hask, hready⟩)⟩

/-- While the request waits. -/
theorem keptByThreads_asked {o : Access} {i : ConnId} (ho : o.asks i = true) (types : List MessageType) :
    KeptByThreads o i fun c => c.Asked types ∨ c.Answered types where
  read c x h hlate := by
    rcases h with h | h
    · exact h.read ho x hlate
    · exact .inr (h.read (.inl ho) x hlate)
  write c h := by
    rcases h with h | h
    · exact .inl { h with }
    · exact .inr { h with }
  heartbeat c h := by
    rcases h with h | h
    · rw [missedPongs_of_quiet h.heartbeat]
      exact .inl h
    · rw [missedPongs_of_quiet h.heartbeat]
      exact .inr h

/-- The same, before the frame is in the outbox. -/
theorem keptByThreads_unsent {o : Access} {i : ConnId} (ho : o.asks i = true) (types : List MessageType) :
    KeptByThreads o i fun c => (c.Asked types ∨ c.Answered types) ∧ c.outbox = [] where
  read c x h hlate := ⟨(keptByThreads_asked ho types).read c x h.1 hlate, by rw [read_outbox, h.2]⟩
  write c h := ⟨(keptByThreads_asked ho types).write c h.1, by rw [ServerConnection.write, h.2]; rfl⟩
  heartbeat c h := by
    refine ⟨(keptByThreads_asked ho types).heartbeat c h.1, ?_⟩
    rcases h.1 with h' | h'
    · rw [missedPongs_of_quiet h'.heartbeat, h.2]
    · rw [missedPongs_of_quiet h'.heartbeat, h.2]

/-- While the supervisor fetches the answer. -/
theorem keptByThreads_answered {o : Access} {i : ConnId} (ho : o.settles i = true)
    (types : List MessageType) :
    KeptByThreads o i fun c => c.Answered types ∧ c.replyReady = true where
  read c x h hlate := by
    refine ⟨h.1.read (.inr ho) x hlate, ?_⟩
    have hready : ∀ c : ServerConnection, c.replyReady = true → (c.read x).replyReady = true := by
      intro c hc
      unfold ServerConnection.read
      repeat' split
      all_goals first | exact hc | rfl
    exact hready c h.2
  write c h := ⟨{ h.1 with }, h.2⟩
  heartbeat c h := by rwa [missedPongs_of_quiet h.1.heartbeat]

/-- While the supervisor acts on the answer. -/
theorem keptByThreads_settling {o : Access} {i : ConnId} (ho : o.settles i = true) :
    KeptByThreads o i Settling where
  read c x h hlate := by
    rcases h.reader with hc | hc | hc
    · cases x with
      | gone =>
        simp only [ServerConnection.read, hc]
        exact { h with reader := .inr (.inl rfl) }
      | frame f => simpa [ServerConnection.read, hc, h.awaits] using h
    · rw [read_noticing hc h.closing h.machine]
      exact { h with reader := .inr (.inr rfl) }
    · exact (hlate (.inl ⟨hc, h.machine, .inr (.inr ho)⟩)).elim
  write c h := { h with }
  heartbeat c h := by rwa [missedPongs_of_quiet h.heartbeat]

/-- Only `close` closes. -/
theorem keptByThreads_open (o : Access) (i : ConnId) : KeptByThreads o i Open where
  read c x h _ := ⟨by rw [read_closing, h.closing], read_machine_ne_closed h.machine x⟩
  write c h := { h with }
  heartbeat c h := ⟨by rw [missedPongs_closing, h.closing], missedPongs_machine_ne_closed h.machine⟩

/-- The same, once `close` has begun. -/
theorem keptByThreads_closing (o : Access) (i : ConnId) : KeptByThreads o i fun c =>
    c.closing = true ∧ c.machine ≠ .closed where
  read c x h _ := ⟨by rw [read_closing, h.1], read_machine_ne_closed h.2 x⟩
  write c h := h
  heartbeat c h := ⟨by rw [missedPongs_closing, h.1], missedPongs_machine_ne_closed h.2⟩

end ServerConnection

/-! ## The supervisor's code, station by station -/

open ServerConnection

theorem Shared.Sane.others {o : Access} {s s' : Shared} (h : s.Sane) (ho : Others o s s') :
    s'.Sane := by
  obtain ⟨m, -, rfl⟩ := ho
  exact h.move m

/-- A connection about which nothing is said. -/
theorem keptByThreads_true (o : Access) (i : ConnId) : KeptByThreads o i fun _ => True :=
  ⟨fun _ _ _ _ => trivial, fun _ _ => trivial, fun _ _ => trivial⟩

section Stays

variable {X : NetError → Shared → Prop} {i : ConnId} {s : Shared}

/-- A transition that is legal wherever the station allows. -/
theorem transition_stays {e : Event} {P P' : ServerConnection → Prop} {Q : Unit → Shared → Prop}
    (hs : s.Quiet i P) (hP : KeptByThreads (.transition i e) i P)
    (hlegal : ∀ c, P c → ∃ m, c.machine.transition e = .ok m ∧
      ({ c with machine := m } : ServerConnection).Sane ∧ P' { c with machine := m })
    (hQ : ∀ s', s'.Quiet i P' → Q () s') : (transition i e).Stays Others Own X Q s := by
  refine Prog.stays_call_bind (Shared.Quiet i P) hs (fun _ _ h => h.others hP) ?_
  rintro s r s' h ⟨-, x, hx⟩
  obtain ⟨m, hm, hsane, hP'⟩ := hlegal _ h.holds
  simp only [Access.exec, hm] at hx
  obtain ⟨rfl, rfl⟩ := Prod.mk.inj (Option.some.inj hx)
  refine hQ _ ⟨h.sane.update hsane, h.alone, ?_⟩
  rw [Shared.update_connections_self]
  exact hP'

/-- Nobody else holds any connection. -/
abbrev Shared.Idle (s : Shared) : Prop := s.Quiet 0 fun _ => True

theorem Shared.Quiet.idle {P : ServerConnection → Prop} (h : s.Quiet i P) : s.Idle :=
  ⟨h.sane, h.alone, trivial⟩

/-- `close` ends well on any connection that nobody else holds. -/
theorem close_stays (hs : s.Idle) : (close i).Stays Others Own X (fun _ s => s.Idle) s := by
  refine Prog.stays_call_bind Shared.Idle hs (fun _ _ h => h.others (keptByThreads_true _ _)) ?_
  rintro s r s' h ⟨-, x, hx⟩
  obtain ⟨rfl, rfl⟩ := Prod.mk.inj (Option.some.inj hx)
  cases hc : (s.connections i).closing with
  | true => exact h
  | false =>
    have hopen : s.Quiet i Open :=
      ⟨h.sane, h.alone, hc, fun hm => by simp [h.sane i hm] at hc⟩
    refine Prog.stays_call_bind (Shared.Quiet i Open) hopen
      (fun _ _ h => h.others (keptByThreads_open _ i)) ?_
    rintro s r s' h ⟨-, x, hx⟩
    obtain ⟨rfl, rfl⟩ := Prod.mk.inj (Option.some.inj hx)
    have hclosing : (s.update i fun c => { c with closing := true }).Quiet i
        fun c => c.closing = true ∧ c.machine ≠ .closed :=
      h.update fun c _ hc => ⟨fun _ => rfl, rfl, hc.machine⟩
    refine Prog.stays_call_bind _ hclosing (fun _ _ h => h.others (keptByThreads_closing _ i)) ?_
    rintro s r s' h ⟨-, x, hx⟩
    obtain ⟨rfl, rfl⟩ := Prod.mk.inj (Option.some.inj hx)
    have hnot : (!decide ((s.connections i).machine = .closed)) = true := by simp [h.holds.2]
    rw [if_pos hnot]
    have hclose : (transition i .close).Stays Others Own X (fun _ s => s.Quiet i fun _ => True) s := by
      refine transition_stays h (keptByThreads_closing _ i) (fun c hc => ?_) fun s' h' => h'
      exact ⟨.closed, ConnectionState.transition_close hc.2, fun _ => hc.1, trivial⟩
    refine hclose.bind ?_
    rintro - s hs
    refine Prog.stays_call_bind _ hs (fun _ _ h => h.others (keptByThreads_true _ i)) ?_
    rintro s r s' h ⟨-, x, hx⟩
    obtain ⟨rfl, rfl⟩ := Prod.mk.inj (Option.some.inj hx)
    have hready : (s.update i fun c => { c with replyReady := true }).Quiet i fun _ => True :=
      h.update fun c hsane _ => ⟨hsane, trivial⟩
    refine Prog.stays_call _ hready (fun _ _ h => h.others (keptByThreads_true _ i)) ?_
    rintro s r s' h ⟨-, x, hx⟩
    obtain ⟨rfl, rfl⟩ := Prod.mk.inj (Option.some.inj hx)
    refine ⟨h.sane.update ?_, h.alone, trivial⟩
    split <;> exact h.sane i

/-- What an exception leaves that `_reconnect` can deal with. -/
def Failed (i : ConnId) (e : NetError) (s : Shared) : Prop := e.caught = true ∧ s.Quiet i Open

theorem sane_of_ne {c : ServerConnection} (h : c.machine ≠ .closed) : c.Sane := fun hc => (h hc).elim

/-- `connect` leaves the client logging in, or raises a `ConnectionError`. -/
theorem connect_stays {cfg : Config} (hs : s.Quiet i (Bare .disconnected)) :
    (connect cfg i).Stays Others Own (Failed i)
      (fun _ s => s.Quiet i fun c => c.Unasked ∧ c.machine = .authenticating) s := by
  have hconnect : (transition i .connect).Stays Others Own (Failed i)
      (fun _ s => s.Quiet i (Bare .connecting)) s := by
    refine transition_stays hs (keptByThreads_bare _ i _) (fun c hc => ⟨.connecting, ?_, ?_, ?_⟩)
      fun s' h' => h'
    · rw [hc.machine]
      rfl
    · exact sane_of_ne (by simp)
    · exact { hc with machine := rfl }
  -- A socket that does not open: CONNECTING always allows SOCKET_FAILED.
  have hfailed : ∀ s e, e.caught = true → s.Quiet i (Bare .connecting) →
      (transition i .socketFailed >>= fun _ => (Prog.raise e : NetM Unit)).Stays Others Own (Failed i)
        (fun _ s => s.Quiet i fun c => c.Unasked ∧ c.machine = .authenticating) s := by
    intro s e he h
    have hfail : (transition i .socketFailed).Stays Others Own (Failed i)
        (fun _ s => s.Quiet i Open) s := by
      refine transition_stays h (keptByThreads_bare _ i _) (fun c hc => ⟨.retrying, ?_, ?_, ?_⟩)
        fun s' h' => h'
      · rw [hc.machine]
        rfl
      · exact sane_of_ne (by simp)
      · exact ⟨hc.closing, by simp⟩
    exact hfail.bind fun _ s' hs' => ⟨he, hs'⟩
  refine hconnect.bind ?_
  rintro - s hs
  refine Prog.stays_call_bind (Shared.Quiet i (Bare .connecting)) hs
    (fun _ _ h => h.others (keptByThreads_bare _ i _)) ?_
  rintro s r s' h ⟨-, x, hx⟩
  obtain ⟨rfl, rfl⟩ := Prod.mk.inj (Option.some.inj hx)
  rcases x.socket with (exc | exc) | ⟨⟩
  · refine hfailed s _ ?_ h
    rfl
  · refine hfailed s _ ?_ h
    rfl
  refine Prog.stays_call_bind (Shared.Quiet i (Bare .connecting)) h
    (fun _ _ h => h.others (keptByThreads_bare _ i _)) ?_
  rintro s r s' h ⟨-, x, hx⟩
  obtain ⟨rfl, rfl⟩ := Prod.mk.inj (Option.some.inj hx)
  have hready : (s.update i fun c => { c with reader := .reading }).Quiet i
      fun c => c.Unasked ∧ c.machine = .connecting ∧ c.reader ≠ .losing := by
    refine h.update fun c hsane hc => ⟨hsane, ?_, hc.machine, by simp⟩
    exact ⟨hc.closing, hc.heartbeat, hc.awaits, hc.outbox, by simp, by simp⟩
  refine transition_stays hready (keptByThreads_connecting _ i)
    (fun c hc => ⟨.authenticating, ?_, ?_, ?_⟩) fun s' h' => h'
  · rw [hc.2.1]
    rfl
  · exact sane_of_ne (by simp)
  · exact ⟨{ hc.1 with }, rfl⟩

/-- `_request` returns an answer while the client is still logging in, or runs
out of time. -/
theorem request_stays {f : Frame} {types : List MessageType}
    (hs : s.Quiet i fun c => c.Unasked ∧ c.Hopeful) :
    (request i f types).Stays Others Own (Failed i)
      (fun reply s => reply.type ∈ types ∧ s.Quiet i Settling) s := by
  refine Prog.stays_call_bind _ hs (fun _ _ h => h.others (keptByThreads_hopeful _ i)) ?_
  rintro s r s' h ⟨-, x, hx⟩
  obtain ⟨rfl, rfl⟩ := Prod.mk.inj (Option.some.inj hx)
  have hasked : (s.update i fun c =>
      { c with reply := none, replyReady := false, awaitTypes := types }).Quiet i
      fun c => (c.Asked types ∨ c.Answered types) ∧ c.outbox = [] := by
    refine h.update fun c hsane hc => ⟨hsane, .inl ?_, hc.1.outbox⟩
    exact ⟨hc.1.closing, hc.1.heartbeat, hc.2, rfl, rfl, fun t ht => ht,
      fun f hf => (hc.1.accepting f hf).elim, hc.1.answering⟩
  refine Prog.stays_call_bind _ hasked
    (fun _ _ h => h.others (keptByThreads_unsent (by simp [Access.asks]) types)) ?_
  rintro s r s' h ⟨-, x, hx⟩
  -- The frame is the first one in this outbox.
  simp only [Access.exec, h.holds.2, List.length_nil] at hx
  obtain ⟨rfl, rfl⟩ := Prod.mk.inj (Option.some.inj hx)
  have hsent : (s.update i fun c => { c with outbox := c.outbox ++ [some f] }).Quiet i
      fun c => c.Asked types ∨ c.Answered types := by
    refine h.update fun c hsane hc => ⟨hsane, ?_⟩
    rcases hc.1 with hc | hc
    · exact .inl { hc with }
    · exact .inr { hc with }
  refine Prog.stays_call_bind _ hsent
    (fun _ _ h => h.others (keptByThreads_asked (by simp [Access.asks]) types)) ?_
  rintro s r s' h ⟨-, x, hx⟩
  simp only [Access.exec] at hx
  cases hready : (s.connections i).replyReady with
  | false =>
    rw [hready] at hx
    cases htime : x.timedOut with
    | false => simp [htime] at hx
    | true =>
      simp only [htime, Bool.false_eq_true, if_false, if_true] at hx
      obtain ⟨rfl, rfl⟩ := Prod.mk.inj (Option.some.inj hx)
      have hopen : s.Quiet i Open := by
        refine ⟨h.sane, h.alone, ?_⟩
        rcases h.holds with hc | hc
        · refine ⟨hc.closing, ?_⟩
          rcases hc.hopeful with hm | hm
          · simp [hm]
          · simp [hm.1]
        · exact ⟨hc.closing, by simp [hc.machine]⟩
      refine Prog.stays_call_bind _ hopen (fun _ _ h => h.others (keptByThreads_open _ i)) ?_
      rintro s r s' h ⟨-, x, hx⟩
      obtain ⟨rfl, rfl⟩ := Prod.mk.inj (Option.some.inj hx)
      exact ⟨rfl, h.update fun c hsane hc => ⟨hsane, { hc with }⟩⟩
  | true =>
    rw [hready, if_pos rfl] at hx
    obtain ⟨rfl, rfl⟩ := Prod.mk.inj (Option.some.inj hx)
    -- Nobody but an answer has set the event.
    have hanswered : s.Quiet i fun c => c.Answered types ∧ c.replyReady = true := by
      refine ⟨h.sane, h.alone, ?_, hready⟩
      rcases h.holds with hc | hc
      · simp [hc.ready] at hready
      · exact hc
    refine Prog.stays_call_bind _ hanswered
      (fun _ _ h => h.others (keptByThreads_answered (by simp [Access.settles]) types)) ?_
    rintro s r s' h ⟨-, x, hx⟩
    obtain ⟨rfl, rfl⟩ := Prod.mk.inj (Option.some.inj hx)
    obtain ⟨reply, hreply, htype⟩ := h.holds.1.reply
    rw [hreply]
    refine ⟨htype, h.update fun c hsane hc => ⟨hsane, ?_⟩⟩
    refine ⟨hc.1.closing, hc.1.heartbeat, hc.1.machine, rfl, ?_⟩
    rcases hc.1.reader with ⟨hno, -⟩ | ⟨-, hr⟩
    · simp [hc.2] at hno
    · exact hr

/-- `login` returns one of the two answers it waits for, or runs out of time. -/
theorem login_stays {u p : Str}
    (hs : s.Quiet i fun c => c.Unasked ∧ c.machine = .authenticating) :
    (login i u p).Stays Others Own (Failed i) (fun _ s => s.Quiet i Open) s := by
  -- between any two of its accesses the others may run, and keep what the next one needs
  have hrequire : (require i .authenticating "login").Stays Others Own (Failed i)
      (fun _ s => s.Quiet i fun c => c.Unasked ∧ c.Hopeful) s := by
    refine Prog.stays_call_bind _ hs (fun _ _ h => h.others (keptByThreads_authenticating i)) ?_
    rintro s r s' h ⟨-, x, hx⟩
    obtain ⟨rfl, rfl⟩ := Prod.mk.inj (Option.some.inj hx)
    rw [if_neg (not_not_intro h.holds.2)]
    exact ⟨h.sane, h.alone, h.holds.1, .inl h.holds.2⟩
  refine hrequire.bind ?_
  rintro - s hs
  refine Prog.stays_call_bind _ hs (fun _ _ h => h.others (keptByThreads_hopeful _ i)) ?_
  rintro s r s' h ⟨-, x, hx⟩
  obtain ⟨rfl, rfl⟩ := Prod.mk.inj (Option.some.inj hx)
  refine (request_stays h).bind ?_
  rintro reply s ⟨-, hs⟩
  have hpure : ∀ s, s.Quiet i Open → (Prog.pure reply : NetM Frame).Stays Others Own (Failed i)
      (fun _ s => s.Quiet i Open) s := fun s h => h
  -- the answer decides the last transition; an ERROR leaves the connection without a name
  by_cases htype : reply.type = .loginOk
  · rw [if_pos htype]
    refine Prog.stays_call_bind _ hs
      (fun _ _ h => h.others (keptByThreads_settling (by simp [Access.settles]))) ?_
    rintro s r s' h ⟨-, x, hx⟩
    obtain ⟨rfl, rfl⟩ := Prod.mk.inj (Option.some.inj hx)
    have hnamed : (s.update i fun c => { c with username := some u }).Quiet i Settling :=
      h.update fun c hsane hc => ⟨hsane, { hc with }⟩
    have honline : (transition i .loginOk).Stays Others Own (Failed i)
        (fun _ s => s.Quiet i Open) (s.update i fun c => { c with username := some u }) := by
      refine transition_stays hnamed (keptByThreads_settling (by simp [Access.settles]))
        (fun c hc => ⟨.online, ?_, ?_, ?_⟩) fun s' h' => h'
      · rw [hc.machine]
        rfl
      · exact sane_of_ne (by simp)
      · exact ⟨hc.closing, by simp⟩
    refine honline.bind ?_
    rintro - s hs
    refine Prog.stays_call_bind _ hs (fun _ _ h => h.others (keptByThreads_open _ i)) ?_
    rintro s r s' h ⟨-, x, hx⟩
    obtain ⟨rfl, rfl⟩ := Prod.mk.inj (Option.some.inj hx)
    exact hpure _ (h.update fun c hsane hc => ⟨hsane, { hc with }⟩)
  · rw [if_neg htype]
    have hrefused : (transition i .loginRefused).Stays Others Own (Failed i)
        (fun _ s => s.Quiet i Open) s := by
      refine transition_stays hs (keptByThreads_settling (by simp [Access.settles]))
        (fun c hc => ⟨.disconnected, ?_, ?_, ?_⟩) fun s' h' => h'
      · rw [hc.machine]
        rfl
      · exact sane_of_ne (by simp)
      · exact ⟨hc.closing, by simp⟩
    exact hrefused.bind fun _ s h => hpure s h

/-- The guarded block raises nothing, and leaves nothing to others. -/
theorem attempt_stays {cfg : Config} (hs : s.Quiet i (Bare .disconnected)) :
    (attempt cfg i).Stays Others Own X (fun _ s => s.Idle) s := by
  have hlogin : ∀ s, s.Quiet i (fun c => c.Unasked ∧ c.machine = .authenticating) →
      (login i cfg.username cfg.passHash >>= fun reply =>
        (Prog.pure (some reply) : NetM (Option Frame))).Stays Others Own (Failed i)
        (fun _ s => s.Idle) s :=
    fun s hs => (login_stays hs).bind fun reply s hs => hs.idle
  refine ((connect_stays hs).bind fun _ s hs => hlogin s hs).tryCatch ?_
  intro e s hs
  rw [if_pos hs.1]
  exact (close_stays hs.2.idle).bind fun _ s hs => hs

/-- **`_reconnect` raises nothing.** -/
theorem reconnect_stays {cfg : Config} (hs : s.Sane) :
    (reconnect cfg).Stays Others Own X (fun _ s => s.Sane) s := by
  refine Prog.stays_call_bind Shared.Sane hs (fun _ _ h => h.others) ?_
  rintro s r s' h ⟨-, x, hx⟩
  obtain ⟨rfl, rfl⟩ := Prod.mk.inj (Option.some.inj hx)
  have hdead : (closeDead s.connection).Stays Others Own X (fun _ s => s.Idle)
      { s with connection := none } := by
    cases s.connection with
    | none => exact ⟨h, rfl, trivial⟩
    | some dead => exact close_stays ⟨h, rfl, trivial⟩
  refine hdead.bind ?_
  rintro - s hs
  refine Prog.stays_call_bind Shared.Idle hs (fun _ _ h => h.others (keptByThreads_true _ _)) ?_
  rintro s r s' h ⟨-, x, hx⟩
  obtain ⟨rfl, rfl⟩ := Prod.mk.inj (Option.some.inj hx)
  have hfresh : ({ s.update s.built fun _ => {} with built := s.built + 1 } : Shared).Quiet s.built
      (Bare .disconnected) := by
    refine ⟨h.sane.update (f := fun _ => {}) (sane_of_ne (by simp)), h.alone, ?_⟩
    show Bare .disconnected ((s.update s.built fun _ => {}).connections s.built)
    rw [Shared.update_connections_self]
    exact ⟨rfl, rfl, rfl, rfl, rfl, rfl⟩
  refine (attempt_stays hfresh).bind ?_
  rintro outcome s hs
  cases outcome with
  | none => exact hs.sane
  | some reply =>
    by_cases htype : reply.type = .error
    · simp only [if_pos htype]
      exact (close_stays hs).mono fun _ s hs => hs.sane
    · simp only [if_neg htype]
      refine Prog.stays_call_bind Shared.Sane hs.sane (fun _ _ h => h.others) ?_
      rintro s r s' h ⟨-, x, hx⟩
      obtain ⟨rfl, rfl⟩ := Prod.mk.inj (Option.some.inj hx)
      refine Prog.stays_call_bind Shared.Sane h (fun _ _ h => h.others) ?_
      rintro s r s' h ⟨-, x, hx⟩
      obtain ⟨rfl, rfl⟩ := Prod.mk.inj (Option.some.inj hx)
      refine Prog.stays_call Shared.Sane h (fun _ _ h => h.others) ?_
      rintro s r s' h ⟨-, x, hx⟩
      obtain ⟨rfl, rfl⟩ := Prod.mk.inj (Option.some.inj hx)
      exact h

/-- One pass of the loop: it comes round again, or `Session.close` was called. -/
def GoesOn (again : Bool) (s : Shared) : Prop := s.Sane ∧ (again = false → s.stopped = true)

theorem resting_stays {c : Option ConnId} (hs : s.Sane) :
    (resting c).Stays Others Own X (fun _ s => s.Sane) s := by
  cases c with
  | none => exact hs
  | some c =>
    refine Prog.stays_call_bind Shared.Sane hs (fun _ _ h => h.others) ?_
    rintro s r s' h ⟨-, x, hx⟩
    obtain ⟨rfl, rfl⟩ := Prod.mk.inj (Option.some.inj hx)
    cases (s.connections c).canSend with
    | true => exact h
    | false =>
      refine Prog.stays_call_bind Shared.Sane h (fun _ _ h => h.others) ?_
      rintro s r s' h ⟨-, x, hx⟩
      obtain ⟨rfl, rfl⟩ := Prod.mk.inj (Option.some.inj hx)
      exact h

theorem watch_stays {cfg : Config} (hs : s.Sane) :
    (watch cfg).Stays Others Own (fun _ _ => False) GoesOn s := by
  -- Both waits on the flag answer what it is.
  have hstopped : ∀ {p : NetM Bool} {s : Shared}, s.Sane →
      (∀ s : Shared, s.Sane → p.Stays Others Own (fun _ _ => False) GoesOn s) →
      (access .stoppedWait >>= fun stop => if stop = true then .pure false else p).Stays
        Others Own (fun _ _ => False) GoesOn s := by
    intro p s hs hp
    refine Prog.stays_call_bind Shared.Sane hs (fun _ _ h => h.others) ?_
    rintro s r s' h ⟨-, x, hx⟩
    obtain ⟨rfl, rfl⟩ := Prod.mk.inj (Option.some.inj hx)
    cases hstop : s.stopped with
    | true => exact ⟨h, fun _ => hstop⟩
    | false => exact hp s h
  refine hstopped hs fun s hs => ?_
  refine Prog.stays_call_bind Shared.Sane hs (fun _ _ h => h.others) ?_
  rintro s r s' h ⟨-, x, hx⟩
  obtain ⟨rfl, rfl⟩ := Prod.mk.inj (Option.some.inj hx)
  refine (resting_stays h).bind ?_
  rintro rest s hs
  cases rest with
  | true => exact ⟨hs, by simp⟩
  | false =>
    refine Prog.stays_call_bind Shared.Sane hs (fun _ _ h => h.others) ?_
    rintro s r s' h ⟨hfloat, x, hx⟩
    have hnominal : nominal s.attempts = .ok (min (firstDelay * factor ^ s.attempts) maxDelay) := by
      rw [nominal, if_neg (Nat.not_le.mpr (hfloat rfl))]
    simp only [Access.exec, hnominal] at hx
    obtain ⟨rfl, rfl⟩ := Prod.mk.inj (Option.some.inj hx)
    refine hstopped h fun s hs => ?_
    exact (reconnect_stays hs).bind fun _ s hs => ⟨hs, by simp⟩

end Stays

/-! ## Every run -/

namespace Session

/-- A step that the supervisor, where it stands, cannot deal with. -/
def Untimely (s : Session) (m : Move) : Prop := ∃ o ∈ s.supervisor.next, o.Untimely s.shared m

instance (s : Session) (m : Move) : Decidable (s.Untimely m) :=
  match h : s.supervisor.next with
  | none => isFalse fun ⟨o, ho, _⟩ => by simp [h] at ho
  | some o => decidable_of_iff (o.Untimely s.shared m) (by simp [Untimely, h])

/-- No step of the run is an untimely one. -/
def Timely (cfg : Config) : Session → List Move → Prop
  | _, [] => True
  | s, m :: ms => ¬ s.Untimely m ∧ Timely cfg (s.step cfg m) ms

instance decidableTimely (cfg : Config) : ∀ (s : Session) (ms : List Move),
    Decidable (Timely cfg s ms)
  | _, [] => isTrue trivial
  | s, m :: ms =>
    have := decidableTimely cfg (s.step cfg m) ms
    inferInstanceAs (Decidable (_ ∧ _))

/-- What holds between any two steps: the rest of the supervisor's pass ends well,
whatever happens around it. -/
def Running (s : Session) : Prop :=
  s.supervisor.Stays Others Own (fun _ _ => False) GoesOn s.shared

theorem move_stopped {s : Shared} (h : s.stopped = true) (m : Move) :
    (s.move m).stopped = true := by
  cases m with
  | stop => rfl
  | send f =>
    unfold Shared.move
    cases s.connection <;> exact h
  | closeConnection =>
    unfold Shared.move
    cases s.connection <;> exact h
  | _ => exact h

/-- The supervisor's own step. -/
theorem Running.advance {cfg : Config} {s : Session} (h : s.Running) {x : Outside}
    (ht : ¬ s.Untimely (.supervisor x)) : (s.step cfg (.supervisor x)).Running := by
  obtain ⟨s, p⟩ := s
  cases p with
  | pure again =>
    cases again with
    | true => exact watch_stays h.1
    | false => exact h
  | raise e => exact False.elim h
  | call o k =>
    simp only [step]
    cases hx : o.exec x s with
    | none => exact h
    | some rs =>
      obtain ⟨r, s'⟩ := rs
      have hown : Own o s r s' := by
        refine ⟨fun ho => ?_, x, hx⟩
        subst ho
        exact Nat.not_le.mp fun hle => ht ⟨_, rfl, rfl, hle⟩
      exact Prog.Stays.step h hown

/-- Anybody else's. -/
theorem Running.others {s : Session} (h : s.Running) {m : Move} (ht : ¬ s.Untimely m) :
    ({ s with shared := s.shared.move m } : Session).Running := by
  obtain ⟨s, p⟩ := s
  cases p with
  | pure again => exact ⟨Shared.Sane.move h.1 m, fun ha => move_stopped (h.2 ha) m⟩
  | raise e => exact False.elim h
  | call o k =>
    refine Prog.Stays.rely h ⟨m, ?_, rfl⟩
    rintro i x rfl hlate
    exact ht ⟨o, rfl, hlate⟩

theorem Running.step {cfg : Config} {s : Session} (h : s.Running) {m : Move}
    (ht : ¬ s.Untimely m) : (s.step cfg m).Running := by
  cases m with
  | supervisor x => exact h.advance ht
  | _ => exact h.others ht

theorem Running.run {cfg : Config} {s : Session} (h : s.Running) {ms : List Move}
    (ht : s.Timely cfg ms) : (s.run cfg ms).Running := by
  induction ms generalizing s with
  | nil => exact h
  | cons m ms ih => exact ih (h.step ht.1) ht.2

theorem started_running (cfg : Config) : (started cfg).Running := by
  refine watch_stays fun i => sane_of_ne ?_
  simp only [started]
  split <;> simp

/-- **The supervisor goes on.** In a run without untimely steps no exception ends
it, and it leaves its loop only when `Session.close` was called. -/
theorem goes_on (cfg : Config) (ms : List Move) (ht : (started cfg).Timely cfg ms) :
    ((started cfg).run cfg ms).escaped = none ∧
      (((started cfg).run cfg ms).left = true →
        ((started cfg).run cfg ms).shared.stopped = true) := by
  have hrun := (started_running cfg).run ht
  rcases hs : (started cfg).run cfg ms with ⟨s, p⟩
  rw [hs] at hrun
  cases p with
  | pure again =>
    cases again with
    | true => exact ⟨rfl, fun h => by cases h⟩
    | false => exact ⟨rfl, fun _ => hrun.2 rfl⟩
  | raise e => exact False.elim hrun
  | call o k => exact ⟨rfl, fun h => by cases h⟩

end Session

/-! ## A loss right after the socket is ready -/

namespace Losses

def netConfig : Config where
  host := "h"
  port := 5000
  username := "a"
  passHash := "p"

/-- The reader of `i` finds its socket gone and runs `_on_connection_lost`. -/
def loss (i : ConnId) : List Move := [.reader i .gone, .reader i .gone, .reader i .gone, .reader i .gone]

/-- The supervisor's next steps, everything working. -/
def supervisorSteps (n : Nat) : List Move := List.replicate n (.supervisor {})

/-- The connection drops; the supervisor replaces it up to SOCKET_READY, and the
new one drops there. -/
def droppedTwice : List Move := loss 0 ++ supervisorSteps 18 ++ loss 1 ++ supervisorSteps 1

/-- The connection drops, and the supervisor logs in again. -/
def droppedOnce : List Move :=
  loss 0 ++ supervisorSteps 22 ++
    [.reader 1 (.frame { type := .loginOk, id := .str "r", ts := 0 }), .reader 1 .gone,
      .reader 1 .gone] ++ supervisorSteps 9

end Losses

open Losses

/-- Without an untimely step: the supervisor is back at its loop, logged in. -/
theorem droppedOnce_goesOn :
    ((Session.started netConfig).run netConfig droppedOnce).shared.reconnects = 1 ∧
      ((Session.started netConfig).run netConfig droppedOnce).escaped = none :=
  ⟨by decide +kernel, (Session.goes_on netConfig droppedOnce (by decide +kernel)).1⟩

/-- `NotConnected` is not one of the exceptions `_reconnect` catches. -/
theorem droppedTwice_escapes :
    ((Session.started netConfig).run netConfig droppedTwice).escaped =
        some (.notConnected "cannot login while RETRYING") ∧
      ((Session.started netConfig).run netConfig droppedTwice).shared.stopped = false := by
  decide +kernel

end Client

end Ciphertext
