import Ciphertext.Client.Supervisor

/-!
# Closing one connection

`Session.close` sets the flag, takes the connection and closes it, while the
supervisor may be anywhere in `_watch` or `_reconnect`. This module looks at one
connection and at whoever has it in his hands; `Custody` puts the supervisor and the
closer beside each other, and `Closedown` runs them in every order.

`Threads` is what the connection's own threads may do to it meanwhile: read a frame,
find the line gone, miss a PONG. None of it closes the connection or opens one that is
closed. Under that rely `close` ends with the connection shut, wherever it stands when
the call begins (`close_shuts`), and the guarded block of `_reconnect` ends with a
connection that is open and logged in, or has been shut again (`attempt_outcome`). The
one way out of it is an exception that `_reconnect` does not catch: a handshake that is
refused (`Access.refused`).
-/

namespace Ciphertext

namespace Client

namespace ServerConnection

/-- `close` has been through it. -/
def Shut (c : ServerConnection) : Prop := c.closing = true ∧ c.machine = .closed

instance (c : ServerConnection) : Decidable c.Shut := inferInstanceAs (Decidable (_ ∧ _))

/-- Nobody is in the middle of closing it. -/
def Tidy (c : ServerConnection) : Prop := c.closing = true ↔ c.machine = .closed

/-- Built, and not yet logged in. -/
structure Unused (c : ServerConnection) : Prop where
  isOpen : c.Open
  username : c.username = none
  outbox : c.outbox = []

theorem Open.tidy {c : ServerConnection} (h : c.Open) : c.Tidy :=
  iff_of_false (by rw [h.closing]; decide) h.machine

/-- What is read from a closed connection does not open it. -/
theorem read_closed {c : ServerConnection} (h : c.machine = .closed) (x : Read) : (c.read x).machine = .closed := by
  unfold read
  split
  · exact h
  · exact h
  · split
    · exact h
    · split
      · exact h
      · exact h
  · exact h
  · exact h
  · split
    · exact h
    · split
      · exact h
      · exact h
  · split
    · next m hm =>
      rw [h] at hm
      cases hm
    · exact h
  · exact h

/-- Its heartbeat has nothing to notice any more. -/
theorem missedPongs_closed {c : ServerConnection} (h : c.machine = .closed) : c.missedPongs = c := by
  unfold missedPongs
  rw [h]
  simp

/-- No frame names the connection: `login` does. -/
theorem read_username (c : ServerConnection) (x : Read) : (c.read x).username = c.username := by
  unfold read
  repeat' split
  all_goals rfl

theorem missedPongs_username (c : ServerConnection) : c.missedPongs.username = c.username := by
  unfold missedPongs
  repeat' split
  all_goals rfl

/-- Noticing a dead line puts nothing in the outbox. -/
theorem missedPongs_outbox (c : ServerConnection) : c.missedPongs.outbox = c.outbox := by
  unfold missedPongs
  repeat' split
  all_goals rfl

end ServerConnection

/-- What the connection's own threads do to it. -/
def Threads (_ : Access) (c c' : ServerConnection) : Prop :=
  (∃ x, c' = c.read x) ∨ c' = c.write ∨ c' = c.missedPongs

section Threads

variable {o : Access} {c c' : ServerConnection}

/-- Whether it is closed is not for them to say. -/
theorem Threads.closing (h : Threads o c c') : c'.closing = c.closing := by
  rcases h with ⟨x, rfl⟩ | rfl | rfl
  · exact ServerConnection.read_closing c x
  · rfl
  · exact ServerConnection.missedPongs_closing c

/-- So a connection is closed after a step of its threads if it was before. -/
theorem Threads.closed (h : Threads o c c') : c'.machine = .closed ↔ c.machine = .closed := by
  by_cases hm : c.machine = .closed
  · refine iff_of_true ?_ hm
    rcases h with ⟨x, rfl⟩ | rfl | rfl
    · exact ServerConnection.read_closed hm x
    · exact hm
    · rw [ServerConnection.missedPongs_closed hm]
      exact hm
  · refine iff_of_false ?_ hm
    rcases h with ⟨x, rfl⟩ | rfl | rfl
    · exact ServerConnection.read_machine_ne_closed hm x
    · exact hm
    · exact ServerConnection.missedPongs_machine_ne_closed hm

theorem Threads.username (h : Threads o c c') : c'.username = c.username := by
  rcases h with ⟨x, rfl⟩ | rfl | rfl
  · exact ServerConnection.read_username c x
  · rfl
  · exact ServerConnection.missedPongs_username c

/-- They only take frames out. -/
theorem Threads.outbox (h : Threads o c c') (hempty : c.outbox = []) : c'.outbox = [] := by
  rcases h with ⟨x, rfl⟩ | rfl | rfl
  · rw [ServerConnection.read_outbox, hempty]
  · rw [ServerConnection.write, hempty]
    rfl
  · rw [ServerConnection.missedPongs_outbox, hempty]

/-- What has been closed stays closed. -/
theorem Threads.shut (h : Threads o c c') (hc : c.Shut) : c'.Shut := ⟨h.closing.trans hc.1, h.closed.mpr hc.2⟩

/-- Closing is in nobody else's hands. -/
theorem Threads.tidy (h : Threads o c c') (hc : c.Tidy) : c'.Tidy := by
  unfold ServerConnection.Tidy
  rw [h.closing, h.closed]
  exact hc

theorem Threads.isOpen (h : Threads o c c') (hc : c.Open) : c'.Open :=
  ⟨h.closing.trans hc.closing, fun hm => hc.machine (h.closed.mp hm)⟩

/-- A connection that nobody has logged in on yet stays one. -/
theorem Threads.unused (h : Threads o c c') (hc : c.Unused) : c'.Unused :=
  ⟨h.isOpen hc.isOpen, h.username.trans hc.username, h.outbox hc.outbox⟩

end Threads

/-- The handshake is refused at this call, with an exception that `_reconnect` does not
catch. -/
def Access.refused (s : Shared) : Access → Bool
  | state i => (s.connections i).username.isNone && (s.connections i).machine ≠ .authenticating
  | takeReply i => (s.connections i).reply.isNone
  | transition i e => e ≠ .close && !(s.connections i).machine.allows e
  | _ => false

/-- A call as one connection sees it, not refused where that is `guarded`. -/
def OnIt (i : ConnId) (guarded : Bool) (o : Access) (c : ServerConnection) (r : o.Ret) (c' : ServerConnection) : Prop :=
  ∃ s s' x, s.connections i = c ∧ s'.connections i = c' ∧ o.exec x s = some (r, s') ∧
    (guarded = true → o.refused s = false)

/-- Where nothing is refused, nothing need be known of that. -/
theorem OnIt.unguarded {i : ConnId} {o : Access} {c c' : ServerConnection} {r : o.Ret} (h : OnIt i true o c r c') :
    OnIt i false o c r c' := by
  obtain ⟨s, s', x, hc, hc', hx, -⟩ := h
  exact ⟨s, s', x, hc, hc', hx, nofun⟩

section OneConnection

variable {X : NetError → ServerConnection → Prop} {i : ConnId} {c : ServerConnection}

/-- **`close` closes**, if nobody is in the middle of it. -/
theorem close_shuts (hc : c.Tidy) : (close i).Stays Threads (OnIt i false) X (fun _ c => c.Shut) c := by
  refine Prog.stays_call_bind _ hc (fun _ _ h ht => Threads.tidy ht h) fun c r c' h ho => ?_
  obtain ⟨s, s', x, rfl, rfl, hx, -⟩ := ho
  obtain ⟨rfl, rfl⟩ := Prod.mk.inj (Option.some.inj hx)
  cases hclosing : (s.connections i).closing with
  | true => exact ⟨hclosing, h.mp hclosing⟩
  | false =>
    have hopen : (s.connections i).Open := ⟨hclosing, fun hm => by rw [h.mpr hm] at hclosing; cases hclosing⟩
    refine Prog.stays_call_bind _ hopen (fun _ _ h ht => Threads.isOpen ht h) fun c r c' h ho => ?_
    obtain ⟨s, s', x, rfl, rfl, hx, -⟩ := ho
    obtain ⟨rfl, rfl⟩ := Prod.mk.inj (Option.some.inj hx)
    rw [Shared.update_connections_self]
    have hsteady : ∀ (o : Access) (c c' : ServerConnection), (c.closing = true ∧ c.machine ≠ .closed) → Threads o c c' →
        c'.closing = true ∧ c'.machine ≠ .closed :=
      fun o c c' h ht => ⟨ht.closing.trans h.1, fun hm => h.2 (ht.closed.mp hm)⟩
    refine Prog.stays_call_bind (fun c => c.closing = true ∧ c.machine ≠ .closed) ⟨rfl, h.machine⟩
      (hsteady _) fun c r c' h ho => ?_
    obtain ⟨s, s', x, rfl, rfl, hx, -⟩ := ho
    obtain ⟨rfl, rfl⟩ := Prod.mk.inj (Option.some.inj hx)
    have hnot : (!decide ((s.connections i).machine = .closed)) = true := by simp [h.2]
    rw [if_pos hnot]
    refine Prog.stays_call_bind (fun c => c.closing = true ∧ c.machine ≠ .closed) h (hsteady _) fun c r c' h ho => ?_
    obtain ⟨s, s', x, rfl, rfl, hx, -⟩ := ho
    simp only [Access.exec, ConnectionState.transition_close h.2] at hx
    obtain ⟨rfl, rfl⟩ := Prod.mk.inj (Option.some.inj hx)
    rw [Shared.update_connections_self]
    -- it is closed, and what is left is for those who wait on it
    refine Prog.stays_call_bind ServerConnection.Shut ⟨h.1, rfl⟩ (fun _ _ h ht => Threads.shut ht h) fun c r c' h ho => ?_
    obtain ⟨s, s', x, rfl, rfl, hx, -⟩ := ho
    obtain ⟨rfl, rfl⟩ := Prod.mk.inj (Option.some.inj hx)
    rw [Shared.update_connections_self]
    refine Prog.stays_call ServerConnection.Shut h (fun _ _ h ht => Threads.shut ht h) fun c r c' h ho => ?_
    obtain ⟨s, s', x, rfl, rfl, hx, -⟩ := ho
    obtain ⟨rfl, rfl⟩ := Prod.mk.inj (Option.some.inj hx)
    rw [Shared.update_connections_self]
    split
    · exact h
    · exact h

/-- A transition that is not refused. -/
theorem transition_allowed {e : Event} {P : ServerConnection → Prop} (he : e ≠ .close) (hc : P c)
    (hP : ∀ o c c', P c → Threads o c c' → P c')
    (hset : ∀ c m, P c → m ≠ .closed → P { c with machine := m }) :
    (transition i e).Stays Threads (OnIt i true) X (fun _ c => P c) c := by
  refine Prog.stays_call_bind P hc (hP _) fun c r c' h ho => ?_
  obtain ⟨s, s', x, rfl, rfl, hx, hnot⟩ := ho
  have hallows : (s.connections i).machine.allows e = true := by
    have hnot := hnot rfl
    unfold Access.refused at hnot
    simpa [he] using hnot
  obtain ⟨m, hm⟩ := ConnectionState.allows_iff.mp hallows
  simp only [Access.exec, hm] at hx
  obtain ⟨rfl, rfl⟩ := Prod.mk.inj (Option.some.inj hx)
  rw [Shared.update_connections_self]
  exact hset _ m h (ConnectionState.transition_ne_closed he hm)

/-- Connecting moves its machine on, and nothing else. -/
theorem Unused.setMachine {c : ServerConnection} (h : c.Unused) {m : ConnectionState} (hm : m ≠ .closed) :
    ({ c with machine := m } : ServerConnection).Unused := ⟨⟨h.isOpen.closing, hm⟩, h.username, h.outbox⟩

/-- What an exception leaves that `_reconnect` catches. -/
def Caught (e : NetError) (c : ServerConnection) : Prop := e.caught = true ∧ c.Open

/-- `connect` leaves a connection that can be logged in on, or raises what `_reconnect`
catches. -/
theorem connect_unused {cfg : Config} (hc : c.Unused) :
    (connect cfg i).Stays Threads (OnIt i true) Caught (fun _ c => c.Unused) c := by
  have hsteady : ∀ (o : Access) (c c' : ServerConnection), c.Unused → Threads o c c' → c'.Unused :=
    fun _ _ _ h ht => ht.unused h
  have htransition : ∀ (e : Event) (c : ServerConnection), e ≠ .close → c.Unused →
      (transition i e).Stays Threads (OnIt i true) Caught (fun _ c => c.Unused) c :=
    fun e c he hc => transition_allowed he hc hsteady fun c m h hm => Unused.setMachine h hm
  have hfailed : ∀ (err : NetError) (c : ServerConnection), err.caught = true → c.Unused →
      (transition i .socketFailed >>= fun _ => (Prog.raise err : NetM Unit)).Stays Threads (OnIt i true) Caught
        (fun _ c => c.Unused) c :=
    fun err c he hc => (htransition _ c (by decide) hc).bind fun _ c hc => ⟨he, hc.isOpen⟩
  refine (htransition _ c (by decide) hc).bind fun _ c hc => ?_
  refine Prog.stays_call_bind _ hc (hsteady _) fun c r c' h ho => ?_
  obtain ⟨s, s', x, rfl, rfl, hx, -⟩ := ho
  obtain ⟨rfl, rfl⟩ := Prod.mk.inj (Option.some.inj hx)
  rcases x.socket with (exc | exc) | ⟨⟩
  · exact hfailed _ _ rfl h
  · exact hfailed _ _ rfl h
  · refine Prog.stays_call_bind _ h (hsteady _) fun c r c' h ho => ?_
    obtain ⟨s, s', x, rfl, rfl, hx, -⟩ := ho
    obtain ⟨rfl, rfl⟩ := Prod.mk.inj (Option.some.inj hx)
    rw [Shared.update_connections_self]
    exact htransition _ _ (by decide) ⟨⟨h.isOpen.closing, h.isOpen.machine⟩, h.username, h.outbox⟩

/-- Open connections stay so until somebody closes them. -/
theorem open_steady (o : Access) (c c' : ServerConnection) (h : c.Open) (ht : Threads o c c') : c'.Open := ht.isOpen h

/-- A request is answered on an open connection, times out, or finds it lost. -/
theorem request_open {f : Frame} {types : List MessageType} (hc : c.Unused) :
    (request i f types).Stays Threads (OnIt i true) Caught (fun _ c => c.Open) c := by
  refine Prog.stays_call_bind _ hc (fun _ _ h ht => Threads.unused ht h) fun c r c' h ho => ?_
  obtain ⟨s, s', x, rfl, rfl, hx, -⟩ := ho
  obtain ⟨rfl, rfl⟩ := Prod.mk.inj (Option.some.inj hx)
  rw [Shared.update_connections_self]
  have hunused : ({ s.connections i with reply := none, replyReady := false, awaitTypes := types } :
      ServerConnection).Unused := ⟨⟨h.isOpen.closing, h.isOpen.machine⟩, h.username, h.outbox⟩
  refine Prog.stays_call_bind _ hunused (fun _ _ h ht => Threads.unused ht h) fun c r c' h ho => ?_
  obtain ⟨s, s', x, rfl, rfl, hx, -⟩ := ho
  -- the frame is the first one in this outbox
  simp only [Access.exec, h.outbox, List.length_nil] at hx
  obtain ⟨rfl, rfl⟩ := Prod.mk.inj (Option.some.inj hx)
  rw [Shared.update_connections_self]
  have hsent : ({ s.connections i with outbox := (s.connections i).outbox ++ [some f] } : ServerConnection).Open :=
    ⟨h.isOpen.closing, h.isOpen.machine⟩
  refine Prog.stays_call_bind _ hsent (open_steady _) fun c r c' h ho => ?_
  obtain ⟨s, s', x, rfl, rfl, hx, -⟩ := ho
  have hsame : s' = s := by
    simp only [Access.exec] at hx
    split at hx
    · exact (Prod.mk.inj (Option.some.inj hx)).2.symm
    · split at hx
      · exact (Prod.mk.inj (Option.some.inj hx)).2.symm
      · cases hx
  subst hsame
  cases r with
  | false =>
    refine Prog.stays_call_bind _ h (open_steady _) fun c r c' h ho => ?_
    obtain ⟨s, s', x, rfl, rfl, hx, -⟩ := ho
    obtain ⟨rfl, rfl⟩ := Prod.mk.inj (Option.some.inj hx)
    rw [Shared.update_connections_self]
    exact ⟨rfl, h.closing, h.machine⟩
  | true =>
    refine Prog.stays_call_bind _ h (open_steady _) fun c r c' h ho => ?_
    obtain ⟨s, s', x, rfl, rfl, hx, hnot⟩ := ho
    obtain ⟨rfl, rfl⟩ := Prod.mk.inj (Option.some.inj hx)
    rw [Shared.update_connections_self]
    have hreply : (s.connections i).reply.isNone = false := hnot rfl
    cases hr : (s.connections i).reply with
    | none =>
      rw [hr] at hreply
      cases hreply
    | some reply => exact ⟨h.closing, h.machine⟩

/-- So does `login`, which is one. -/
theorem login_open {u p : Str} (hc : c.Unused) :
    (login i u p).Stays Threads (OnIt i true) Caught (fun _ c => c.Open) c := by
  have hrequire : (require i .authenticating "login").Stays Threads (OnIt i true) Caught (fun _ c => c.Unused) c := by
    refine Prog.stays_call_bind _ hc (fun _ _ h ht => Threads.unused ht h) fun c r c' h ho => ?_
    obtain ⟨s, s', x, rfl, rfl, hx, hnot⟩ := ho
    obtain ⟨rfl, rfl⟩ := Prod.mk.inj (Option.some.inj hx)
    have hm : (s.connections i).machine = .authenticating := by
      have hnot := hnot rfl
      unfold Access.refused at hnot
      simpa [h.username] using hnot
    rw [if_neg (not_not_intro hm)]
    exact h
  refine hrequire.bind fun _ c hc => ?_
  refine Prog.stays_call_bind _ hc (fun _ _ h ht => Threads.unused ht h) fun c r c' h ho => ?_
  obtain ⟨s, s', x, rfl, rfl, hx, -⟩ := ho
  obtain ⟨rfl, rfl⟩ := Prod.mk.inj (Option.some.inj hx)
  refine (request_open h).bind fun reply c hc => ?_
  have hset : ∀ (c : ServerConnection) m, c.Open → m ≠ .closed → ({ c with machine := m } : ServerConnection).Open :=
    fun c m h hm => ⟨h.closing, hm⟩
  by_cases htype : reply.type = .loginOk
  · rw [if_pos htype]
    refine Prog.stays_call_bind _ hc (open_steady _) fun c r c' h ho => ?_
    obtain ⟨s, s', x, rfl, rfl, hx, -⟩ := ho
    obtain ⟨rfl, rfl⟩ := Prod.mk.inj (Option.some.inj hx)
    rw [Shared.update_connections_self]
    have hnamed : ({ s.connections i with username := some u } : ServerConnection).Open := ⟨h.closing, h.machine⟩
    refine (transition_allowed (by decide) hnamed open_steady hset).bind fun _ c hc => ?_
    refine Prog.stays_call_bind _ hc (open_steady _) fun c r c' h ho => ?_
    obtain ⟨s, s', x, rfl, rfl, hx, -⟩ := ho
    obtain ⟨rfl, rfl⟩ := Prod.mk.inj (Option.some.inj hx)
    rw [Shared.update_connections_self]
    exact ⟨h.closing, h.machine⟩
  · rw [if_neg htype]
    exact (transition_allowed (by decide) hc open_steady hset).bind fun _ c hc => hc

/-- What the guarded block of `_reconnect` leaves: a closed connection if it gave up. -/
def Outcome (r : Option Frame) (c : ServerConnection) : Prop := if r.isSome then c.Open else c.Shut

/-- **The guarded block** raises nothing that is not refused. -/
theorem attempt_outcome {cfg : Config} (hc : c.Unused) :
    (attempt cfg i).Stays Threads (OnIt i true) (fun _ _ => False) Outcome c := by
  have hguarded : (do
      connect cfg i
      let reply ← login i cfg.username cfg.passHash
      .pure (some reply) : NetM (Option Frame)).Stays Threads (OnIt i true) Caught Outcome c :=
    (connect_unused hc).bind fun _ c hc => (login_open hc).bind fun reply c hc => hc
  refine hguarded.tryCatch fun e c he => ?_
  rw [if_pos he.1]
  exact ((close_shuts he.2.tidy).own fun o s r s' h => h.unguarded).bind fun _ c hc => hc

end OneConnection

end Client

end Ciphertext
