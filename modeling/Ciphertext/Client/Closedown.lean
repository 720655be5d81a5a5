import Ciphertext.Client.Custody

/-!
# Closing a session for good

`Closedown` has the supervisor and `Session.close` as programs beside each other, one
access at a time, with the connections' threads in between. `Resting` and `Working`
are the two kinds of places the supervisor can be in: it has no connection of its own,
or it works on one that nobody else has. Each of its programs leads from such a place
to such a place (`watch_rests`, `reconnect_rests`), whatever the closer does meanwhile;
so when both are through, only one of the four kinds of custody is left: every
connection is shut (`Closedown.run_closed`).

Two steps break this. The supervisor publishes a fresh connection after the closer
has been, and nobody closes that one (`closedMeanwhile_open`); or an exception ends
the supervisor in the middle of a handshake, and nobody closes that one either.
`Parties.slips` is either of them, as a condition on the state before the step.
-/

namespace Ciphertext

namespace Client

/-- What everybody but the supervisor does. -/
def Around (_ : Access) (s s' : Parties) : Prop := ∃ m, s' = s.move m

/-- The supervisor's next call loses a connection: it publishes one that the closer will
not take any more, or it ends in the middle of a handshake. -/
def Parties.slips (s : Parties) (o : Access) : Bool :=
  match o with
  | .setConnection _ => s.taken
  | o => o.refused s.shared

/-- The supervisor's own call, where it is not a slip. -/
def OwnCall (o : Access) (s : Parties) (r : o.Ret) (s' : Parties) : Prop :=
  s.slips o = false ∧ ∃ x shared, o.exec x s.shared = some (r, shared) ∧ s' = { s with shared }

/-- The supervisor has no connection of its own. -/
def Resting (s : Parties) : Prop := ∃ held, Custody none held s

/-- The supervisor has taken the published connection, and works on `mine`. -/
def Working (mine : Option ConnId) (s : Parties) : Prop := s.shared.connection = none ∧ ∃ held, Custody mine held s

section Stations

variable {o : Access} {s s' : Parties} {mine : Option ConnId} {i : ConnId}

theorem Resting.around (h : Resting s) (ho : Around o s s') : Resting s' := by
  obtain ⟨held, h⟩ := h
  obtain ⟨m, rfl⟩ := ho
  exact (h.move m).1

theorem Working.around (h : Working mine s) (ho : Around o s s') : Working mine s' := by
  obtain ⟨hnone, held, h⟩ := h
  obtain ⟨m, rfl⟩ := ho
  exact ⟨(h.move m).2.1 hnone, (h.move m).1⟩

/-- To the supervisor's own connection the others are its threads. -/
theorem Working.threads (h : Working (some i) s) (ho : Around o s s') :
    s'.shared.connections i = s.shared.connections i ∨
      Threads o (s.shared.connections i) (s'.shared.connections i) := by
  obtain ⟨-, held, h⟩ := h
  obtain ⟨m, rfl⟩ := ho
  exact ((h.move m).2.2 i rfl).imp_right fun ht => ht o

/-- A call about its own connection. -/
theorem Working.own {r : o.Ret} (hon : o.on i) (h : Working (some i) s) (ho : OwnCall o s r s') :
    Working (some i) s' ∧ OnIt i true o (s.shared.connections i) r (s'.shared.connections i) := by
  obtain ⟨hnone, held, h⟩ := h
  obtain ⟨hslip, x, shared, hx, rfl⟩ := ho
  refine ⟨?_, s.shared, shared, x, rfl, rfl, hx, fun _ => ?_⟩
  · obtain ⟨c, rfl⟩ := Access.exec_on hon hx
    refine ⟨hnone, held, h.update (fun hne => absurd rfl hne) fun hheld => ?_⟩
    exact absurd rfl (h.apart i hheld).1
  · cases o with
    | setConnection j => rfl
    | _ => exact hslip

/-- **Work on its own connection**, shown of the connection alone. -/
theorem working_stays {α : Type} {p : NetM α} {X : NetError → ServerConnection → Prop} {Q : α → ServerConnection → Prop}
    (hs : Working (some i) s) (hp : p.Uses (Access.on i))
    (h : p.Stays Threads (OnIt i true) X Q (s.shared.connections i)) :
    p.Stays Around OwnCall (fun e s => Working (some i) s ∧ X e (s.shared.connections i))
      (fun a s => Working (some i) s ∧ Q a (s.shared.connections i)) s := by
  refine Prog.Stays.frame (R := Around) (E := OwnCall) (fun s : Parties => s.shared.connections i) (Working (some i))
    (fun o s s' hs ho => ?_) (fun o s r s' hon hs ho => ?_) hp hs h
  · exact ⟨hs.around ho, hs.threads ho⟩
  · exact hs.own hon ho

/-- What is closed is nobody's any more. -/
theorem Working.shut (h : Working (some i) s) (hc : (s.shared.connections i).Shut) : Working none s := by
  obtain ⟨hnone, held, h⟩ := h
  refine ⟨hnone, held, h.closer, fun j hj => ?_, fun j hj => ?_, fun j hj => ⟨nofun, (h.apart j hj).2⟩, h.gone, nofun⟩
  · rcases h.owned j hj with hs | hs | hs | hs
    · exact .inl hs
    · exact .inr (.inl hs)
    · cases hs
      exact .inl hc
    · exact .inr (.inr (.inr hs))
  · rw [hnone] at hj
    cases hj

theorem Working.resting (h : Working none s) : Resting s := h.2

theorem Resting.take (h : Resting s) :
    Working s.shared.connection { s with shared := { s.shared with connection := none } } ∧
      ∀ i, s.shared.connection = some i → (s.shared.connections i).Tidy := by
  obtain ⟨held, h⟩ := h
  refine ⟨⟨rfl, held, h.closer, fun i hi => ?_, nofun, fun i hi => ⟨(h.apart i hi).2, nofun⟩, fun _ => rfl,
    fun i hi => (h.published i hi).1⟩, fun i hi => (h.published i hi).2.1⟩
  rcases h.owned i hi with hs | hs | hs | hs
  · exact .inl hs
  · exact .inr (.inl hs)
  · cases hs
  · exact .inr (.inr (.inl hs))

theorem Working.build (h : Working none s) :
    Working (some s.shared.built)
      { s with shared := { s.shared.update s.shared.built fun _ => {} with built := s.shared.built + 1 } } := by
  obtain ⟨hnone, held, h⟩ := h
  -- the number of the new connection is one that nobody has used
  have hold : ∀ {j}, j < s.shared.built → (s.shared.update s.shared.built fun _ => {}).connections j =
      s.shared.connections j := fun hj => Shared.update_connections_ne _ (Nat.ne_of_lt hj) _
  -- what the closer holds was built before
  have hheld : ∀ j, held = some j → j < s.shared.built := by
    intro j hj
    have hcloser := h.closer
    unfold Closer at hcloser
    subst hj
    cases hp : s.closer with
    | none =>
      rw [hp] at hcloser
      exact hcloser.elim
    | some p =>
      rw [hp] at hcloser
      exact hcloser.1
  refine ⟨hnone, held, ?_, fun j hj => ?_, fun j hj => ?_, fun j hj => ⟨fun hij => ?_, (h.apart j hj).2⟩, h.gone,
    fun j hj => ?_⟩
  · have hcloser := h.closer
    unfold Closer at hcloser ⊢
    cases hp : s.closer with
    | none =>
      rw [hp] at hcloser
      cases held with
      | none => trivial
      | some j => exact hcloser
    | some p =>
      rw [hp] at hcloser
      cases held with
      | none => exact hcloser
      | some j =>
        obtain ⟨hj, huses, hstays⟩ := hcloser
        refine ⟨Nat.lt_succ_of_lt hj, huses, ?_⟩
        show Prog.Stays _ _ _ _ _ ((s.shared.update s.shared.built fun _ => {}).connections j)
        rw [hold hj]
        exact hstays
  · show ((s.shared.update s.shared.built fun _ => {}).connections j).Shut ∨ _
    by_cases hlt : j < s.shared.built
    · rw [hold hlt]
      rcases h.owned j hlt with hs | hs | hs | hs
      · exact .inl hs
      · exact .inr (.inl hs)
      · cases hs
      · exact .inr (.inr (.inr hs))
    · have heq : j = s.shared.built := Nat.le_antisymm (Nat.le_of_lt_succ hj) (Nat.le_of_not_lt hlt)
      exact .inr (.inr (.inl (heq ▸ rfl)))
  · rw [show s.shared.connection = some j from hj] at hnone
    cases hnone
  · have hlt := hheld j hj
    cases hij
    exact absurd hlt (Nat.lt_irrefl _)
  · cases hj
    exact Nat.lt_succ_self _

theorem Working.publish (h : Working (some i) s) (hc : (s.shared.connections i).Tidy) (ht : s.taken = false) :
    Resting { s with shared := { s.shared with connection := some i } } := by
  obtain ⟨hnone, held, h⟩ := h
  refine ⟨held, h.closer, fun j hj => ?_, fun j hj => ?_, fun j hj => ⟨nofun, (h.apart j hj).1⟩, fun htaken => ?_, nofun⟩
  · rcases h.owned j hj with hs | hs | hs | hs
    · exact .inl hs
    · exact .inr (.inl hs)
    · exact .inr (.inr (.inr hs))
    · rw [hnone] at hs
      cases hs
  · cases hj
    exact ⟨h.built i rfl, hc, rfl⟩
  · rw [show s.taken = true from htaken] at ht
    cases ht

end Stations

section Supervisor

variable {X : NetError → Parties → Prop} {s : Parties}

/-- The call answers, and leaves the connections and who has them alone. -/
def Access.Asking (o : Access) : Prop :=
  ∀ x s r s', o.exec x s = some (r, s') →
    s'.connections = s.connections ∧ s'.built = s.built ∧ s'.connection = s.connection

theorem asking_of_exec {o : Access} {f : Outside → Shared → o.Ret × Shared} (h : ∀ x s, o.exec x s = some (f x s))
    (hf : ∀ x s, (f x s).2.connections = s.connections ∧ (f x s).2.built = s.built ∧
      (f x s).2.connection = s.connection) : o.Asking := by
  intro x s r s' hx
  have heq : f x s = (r, s') := Option.some.inj ((h x s).symm.trans hx)
  have hparts := hf x s
  rw [heq] at hparts
  exact hparts

theorem nextDelay_asking : Access.Asking .nextDelay := by
  intro x s r s' hx
  simp only [Access.exec] at hx
  split at hx
  · obtain ⟨rfl, rfl⟩ := Prod.mk.inj (Option.some.inj hx)
    exact ⟨rfl, rfl, rfl⟩
  · obtain ⟨rfl, rfl⟩ := Prod.mk.inj (Option.some.inj hx)
    exact ⟨rfl, rfl, rfl⟩

/-- A call of that kind, then the rest. -/
theorem resting_asks {α : Type} {o : Access} {f : o.Ret → NetM α} {Q : α → Parties → Prop} (ho : o.Asking)
    (hs : Resting s) (hf : ∀ r s, Resting s → (f r).Stays Around OwnCall X Q s) :
    (access o >>= f).Stays Around OwnCall X Q s := by
  refine Prog.stays_call_bind Resting hs (fun _ _ h h' => h.around (o := o) h') fun s r s' h hown => ?_
  obtain ⟨held, h⟩ := h
  obtain ⟨-, x, shared, hx, rfl⟩ := hown
  obtain ⟨hc, hb, hp⟩ := ho x _ r shared hx
  exact hf r _ ⟨held, h.congr hc hb hp⟩

/-- It closes its own connection. -/
theorem close_works {i : ConnId} (hs : Working (some i) s) (hc : (s.shared.connections i).Tidy) :
    (close i).Stays Around OwnCall X (fun _ s => Working none s) s := by
  have hclose : (close i).Stays Threads (OnIt i true) (fun _ _ => False) (fun _ c => c.Shut) (s.shared.connections i) :=
    (close_shuts hc).own fun o c r c' h => h.unguarded
  exact ((working_stays hs (close_uses i) hclose).mono fun _ s h => h.1.shut h.2).mono_raise fun e s h => h.2.elim

theorem closeDead_works {dead : Option ConnId} (hs : Working dead s)
    (htidy : ∀ i, dead = some i → (s.shared.connections i).Tidy) :
    (closeDead dead).Stays Around OwnCall X (fun _ s => Working none s) s := by
  cases dead with
  | none => exact hs
  | some i => exact close_works hs (htidy i rfl)

/-- **`_reconnect` hands every connection on**: published, or closed. -/
theorem reconnect_rests {cfg : Config} (hs : Resting s) :
    (reconnect cfg).Stays Around OwnCall X (fun _ s => Resting s) s := by
  refine Prog.stays_call_bind Resting hs (fun _ _ h ho => h.around (o := .takeConnection) ho) fun s dead s' h ho => ?_
  obtain ⟨-, x, shared, hx, rfl⟩ := ho
  obtain ⟨rfl, rfl⟩ := Prod.mk.inj (Option.some.inj hx)
  refine (closeDead_works h.take.1 h.take.2).bind fun _ s hs => ?_
  refine Prog.stays_call_bind _ hs (fun _ _ h ho => h.around (o := .build) ho) fun s fresh s' h ho => ?_
  obtain ⟨-, x, shared, hx, rfl⟩ := ho
  obtain ⟨rfl, rfl⟩ := Prod.mk.inj (Option.some.inj hx)
  have hunused : ((s.shared.update s.shared.built fun _ => {}).connections s.shared.built).Unused := by
    rw [Shared.update_connections_self]
    exact ⟨⟨rfl, nofun⟩, rfl, rfl⟩
  have hattempt := working_stays h.build (attempt_uses cfg _) (attempt_outcome hunused)
  refine (hattempt.mono_raise fun e s he => he.2.elim).bind fun outcome s hs => ?_
  obtain ⟨hworking, houtcome⟩ := hs
  cases outcome with
  | none => exact (hworking.shut houtcome).resting
  | some reply =>
    have hopen : (s.shared.connections _).Open := houtcome
    by_cases htype : reply.type = .error
    · simp only [if_pos htype]
      exact (close_works hworking hopen.tidy).mono fun _ s hs => hs.resting
    · simp only [if_neg htype]
      -- whoever closes the session before this call finds nothing to close
      refine Prog.stays_call_bind (fun s => Working (some _) s ∧ (s.shared.connections _).Tidy) ⟨hworking, hopen.tidy⟩
        (fun s s' h ho => ⟨h.1.around (o := .setConnection 0) ho, ?_⟩) fun s r s' h ho => ?_
      · rcases h.1.threads (o := .setConnection 0) ho with hsame | ht
        · rw [hsame]
          exact h.2
        · exact ht.tidy h.2
      · obtain ⟨hslip, x, shared, hx, rfl⟩ := ho
        obtain ⟨rfl, rfl⟩ := Prod.mk.inj (Option.some.inj hx)
        refine resting_asks (asking_of_exec (fun _ _ => rfl) fun _ _ => ⟨rfl, rfl, rfl⟩) (h.1.publish h.2 hslip)
          fun _ s hs => ?_
        exact resting_asks (asking_of_exec (fun _ _ => rfl) fun _ _ => ⟨rfl, rfl, rfl⟩) hs fun _ s hs => hs

theorem resting_rests {c : Option ConnId} (hs : Resting s) :
    (resting c).Stays Around OwnCall X (fun _ s => Resting s) s := by
  cases c with
  | none => exact hs
  | some c =>
    refine resting_asks (asking_of_exec (fun _ _ => rfl) fun _ _ => ⟨rfl, rfl, rfl⟩) hs fun can s hs => ?_
    cases can with
    | true => exact hs
    | false => exact resting_asks (asking_of_exec (fun _ _ => rfl) fun _ _ => ⟨rfl, rfl, rfl⟩) hs fun _ s hs => hs

/-- **One pass of the loop**, also one that an exception ends. -/
theorem watch_rests {cfg : Config} (hs : Resting s) :
    (watch cfg).Stays Around OwnCall (fun _ s => Resting s) (fun _ s => Resting s) s := by
  refine resting_asks (asking_of_exec (fun _ _ => rfl) fun _ _ => ⟨rfl, rfl, rfl⟩) hs fun stop s hs => ?_
  cases stop with
  | true => exact hs
  | false =>
    refine resting_asks (asking_of_exec (fun _ _ => rfl) fun _ _ => ⟨rfl, rfl, rfl⟩) hs fun connection s hs => ?_
    refine (resting_rests hs).bind fun rest s hs => ?_
    cases rest with
    | true => exact hs
    | false =>
      refine resting_asks nextDelay_asking hs fun delay s hs => ?_
      cases delay with
      | error e => exact hs
      | ok d =>
        refine resting_asks (asking_of_exec (fun _ _ => rfl) fun _ _ => ⟨rfl, rfl, rfl⟩) hs fun stop s hs => ?_
        cases stop with
        | true => exact hs
        | false => exact (reconnect_rests hs).bind fun _ s hs => hs

end Supervisor

/-! ## Every order of steps -/

/-- The session, its supervisor, and whoever closes it. -/
structure Closedown extends Parties where
  supervisor : NetM Bool

namespace Closedown

/-- One access of the supervisor, of the closer, or of anybody else. -/
def step (cfg : Config) (s : Closedown) : Move → Closedown
  | .supervisor x =>
    match s.supervisor with
    | .pure true => { s with supervisor := watch cfg }
    | .pure false => s
    | .raise _ => s
    | .call o k =>
      match Access.exec x o s.shared with
      | none => s
      | some (r, shared) => { s with shared, supervisor := k r }
  | m => { s with toParties := s.toParties.move m }

def run (cfg : Config) (s : Closedown) (ms : List Move) : Closedown := ms.foldl (step cfg) s

/-- `Session.start` has returned, and nobody has called `Session.close`. -/
def started (cfg : Config) : Closedown where
  shared := (Session.started cfg).shared
  supervisor := (Session.started cfg).supervisor

/-- The step is one of the supervisor's that loses a connection. -/
def Slips (s : Closedown) : Move → Bool
  | .supervisor _ => s.supervisor.next.any s.toParties.slips
  | _ => false

/-- No step of the run does. -/
def WithoutSlips (cfg : Config) : Closedown → List Move → Prop
  | _, [] => True
  | s, m :: ms => s.Slips m = false ∧ WithoutSlips cfg (s.step cfg m) ms

instance decidableWithoutSlips (cfg : Config) : ∀ (s : Closedown) (ms : List Move), Decidable (WithoutSlips cfg s ms)
  | _, [] => isTrue trivial
  | s, m :: ms =>
    have := decidableWithoutSlips cfg (s.step cfg m) ms
    inferInstanceAs (Decidable (_ ∧ _))

/-- `Session.close` has returned. -/
def returned (s : Closedown) : Bool :=
  match s.closer with
  | some (.pure _) => true
  | _ => false

/-- The supervisor has left its loop, or an exception has ended it. -/
def ended (s : Closedown) : Bool :=
  match s.supervisor with
  | .pure again => !again
  | .raise _ => true
  | .call _ _ => false

/-- Every connection that was ever built has been closed, and the session has none. -/
def Closed (s : Closedown) : Prop :=
  (∀ i < s.shared.built, (s.shared.connections i).Shut) ∧ s.shared.connection = none

instance (s : Closedown) : Decidable s.Closed := inferInstanceAs (Decidable (_ ∧ _))

/-- What holds between any two steps. -/
def ComesToRest (s : Closedown) : Prop :=
  s.supervisor.Stays Around OwnCall (fun _ s => Resting s) (fun _ s => Resting s) s.toParties

theorem ComesToRest.advance {cfg : Config} {s : Closedown} (h : s.ComesToRest) {x : Outside} (hx : s.Slips (.supervisor x) = false) :
    (s.step cfg (.supervisor x)).ComesToRest := by
  obtain ⟨s, p⟩ := s
  cases p with
  | pure again =>
    cases again with
    | true => exact watch_rests h
    | false => exact h
  | raise e => exact h
  | call o k =>
    simp only [step]
    cases hr : o.exec x s.shared with
    | none => exact h
    | some rs =>
      obtain ⟨r, shared⟩ := rs
      exact Prog.Stays.step h ⟨hx, x, shared, hr, rfl⟩

theorem ComesToRest.others {s : Closedown} (h : s.ComesToRest) (m : Move) :
    ({ s with toParties := s.toParties.move m } : Closedown).ComesToRest := by
  obtain ⟨s, p⟩ := s
  cases p with
  | pure again => exact Resting.around (o := .build) h ⟨m, rfl⟩
  | raise e => exact Resting.around (o := .build) h ⟨m, rfl⟩
  | call o k => exact Prog.Stays.rely h ⟨m, rfl⟩

theorem ComesToRest.step {cfg : Config} {s : Closedown} (h : s.ComesToRest) {m : Move} (hm : s.Slips m = false) :
    (s.step cfg m).ComesToRest := by
  cases m with
  | supervisor x => exact h.advance hm
  | _ => exact h.others _

theorem ComesToRest.run {cfg : Config} {s : Closedown} (h : s.ComesToRest) {ms : List Move} (hms : WithoutSlips cfg s ms) :
    (s.run cfg ms).ComesToRest := by
  induction ms generalizing s with
  | nil => exact h
  | cons m ms ih => exact ih (h.step hms.1) hms.2

theorem started_comesToRest (cfg : Config) : (started cfg).ComesToRest := by
  refine watch_rests ⟨none, trivial, fun i hi => ?_, fun i hi => ?_, nofun, nofun, nofun⟩
  · obtain rfl : i = 0 := Nat.lt_one_iff.mp hi
    exact .inr (.inr (.inr rfl))
  · cases hi
    exact ⟨Nat.one_pos, iff_of_false nofun nofun, rfl⟩

/-- Once both are through, nobody holds a connection. -/
theorem ComesToRest.closed {s : Closedown} (h : s.ComesToRest) (hreturned : s.returned = true) (hended : s.ended = true) : s.Closed := by
  have hresting : Resting s.toParties := by
    obtain ⟨s, p⟩ := s
    cases p with
    | pure again => exact h
    | raise e => exact h
    | call o k => cases hended
  obtain ⟨held, hkept⟩ := hresting
  have hdone : s.closer = some (.pure ()) := by
    unfold returned at hreturned
    split at hreturned
    · next hp => exact hp
    · cases hreturned
  have hnone : s.shared.connection = none := hkept.gone (by unfold Parties.taken; rw [hdone])
  refine ⟨fun i hi => ?_, hnone⟩
  rcases hkept.owned i hi with hs | hs | hs | hs
  · exact hs
  · -- what the closer held it has closed
    have hcloser := hkept.closer
    unfold Closer at hcloser
    rw [hdone, hs] at hcloser
    exact hcloser.2.2
  · cases hs
  · rw [hnone] at hs
    cases hs

/-- **Closing is final.** In a run where the supervisor publishes nothing after the closer
has been, and nothing refuses its handshakes, closing and ending leave no connection. -/
theorem run_closed (cfg : Config) (ms : List Move) (hms : WithoutSlips cfg (started cfg) ms)
    (hreturned : ((started cfg).run cfg ms).returned = true) (hended : ((started cfg).run cfg ms).ended = true) :
    ((started cfg).run cfg ms).Closed := ((started_comesToRest cfg).run hms).closed hreturned hended

end Closedown

namespace Losses

/-- The closer's next steps. -/
def closerSteps (n : Nat) : List Move := List.replicate n .closeConnection

/-- The connection drops, the supervisor logs in again and goes back to its loop, and the
session is closed. -/
def closedAfterwards : List Move := droppedOnce ++ [.stop] ++ closerSteps 7 ++ supervisorSteps 2

/-- The session is closed when the supervisor has logged in and is about to publish the
fresh connection. -/
def closedMeanwhile : List Move :=
  loss 0 ++ supervisorSteps 22 ++
    [.reader 1 (.frame { type := .loginOk, id := .str "r", ts := 0 }), .reader 1 .gone, .reader 1 .gone] ++
    supervisorSteps 5 ++ [.stop] ++ closerSteps 2 ++ supervisorSteps 5

end Losses

open Losses

/-- Both connections of that run are closed. -/
theorem closedAfterwards_closed :
    ((Closedown.started netConfig).run netConfig closedAfterwards).shared.built = 2 ∧
      ((Closedown.started netConfig).run netConfig closedAfterwards).Closed :=
  ⟨by decide +kernel,
    Closedown.run_closed netConfig closedAfterwards (by decide +kernel) (by decide +kernel) (by decide +kernel)⟩

/-- Both are through, and a connection that is logged in stays behind. -/
theorem closedMeanwhile_open :
    ((Closedown.started netConfig).run netConfig closedMeanwhile).returned = true ∧
      ((Closedown.started netConfig).run netConfig closedMeanwhile).ended = true ∧
      ((Closedown.started netConfig).run netConfig closedMeanwhile).shared.connection = some 1 ∧
      (((Closedown.started netConfig).run netConfig closedMeanwhile).shared.connections 1).machine = .online ∧
      (((Closedown.started netConfig).run netConfig closedMeanwhile).shared.connections 1).closing = false ∧
      ¬ ((Closedown.started netConfig).run netConfig closedMeanwhile).Closed := by
  decide +kernel

/-- The same after a handshake that was refused: nobody closes the second connection. -/
example :
    ((Closedown.started netConfig).run netConfig (droppedTwice ++ [.stop] ++ closerSteps 1)).returned = true ∧
      ((Closedown.started netConfig).run netConfig (droppedTwice ++ [.stop] ++ closerSteps 1)).ended = true ∧
      ¬ ((Closedown.started netConfig).run netConfig (droppedTwice ++ [.stop] ++ closerSteps 1)).Closed := by
  decide +kernel

end Client

end Ciphertext
