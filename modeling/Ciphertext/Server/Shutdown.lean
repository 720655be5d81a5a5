import Ciphertext.Server.HangingUp

/-!
# What a shutdown leaves

The steps of `serve_forever` are the other half: it takes a connection into its hands
(`Inv.accepting`), may close it after a failed handshake (`Inv.dropping`), adds its
handler to the set (`Inv.registering`) and starts its thread (`Inv.launching`). With
them every step of every thread keeps the invariant (`Inv.step`, `Inv.run`), from a
new server on, bound or not.

So one connection may be left open when everything has been shut down, and no more
(`ChatServer.hung_up`); `straggling` is a run where one is. No handler is in
`_handlers` once its thread has ended (`ChatServer.remembers_live`). And `Up`, an
invariant of the runs in which nobody calls `shutdown` and the system refuses nothing,
says that `serve_forever` does not end by itself: what a client does, a handshake that
fails or a line that drops, is never the reason (`ChatServer.ends_for_a_reason`).
-/

namespace Ciphertext

namespace ChatServer

section Steps

variable {s : ChatServer}

/-- `serve_forever` goes on with what it has in its hands. -/
theorem Inv.serveAt (h : Inv s) {x : Serving} (hhand : x.hand = s.serving.hand)
    (hmaking : ∀ c, x.making = some c → s.serving.making = some c)
    (hacc : ∀ l, x = .accepting l → s.shut l = false) : Inv { s with serving := x } := by
  constructor
  · intro c hc hopen
    exact (h.held c hc hopen).imp_left fun hx => hhand.trans hx
  · intro l hl
    refine (h.few l hl).imp_right fun hfew => ?_
    have hsame : ∀ c, ChatServer.Loose { s with serving := x } l c → s.Loose l c :=
      fun c hx => ⟨hx.1, hx.2.imp_left fun hc => hhand.symm.trans hc⟩
    refine ⟨fun c c' hc hc' => hfew.1 c c' (hsame c hc) (hsame c' hc'), fun hx => ?_⟩
    cases hl.symm.trans (hacc l hx)
  · exact h.marked
  · exact h.past
  · exact fun c hc => h.made c (hmaking c hc)
  · exact fun c hc => h.unstarted c (hmaking c hc)
  · exact h.started
  · exact h.live

/-- A connection comes. -/
theorem Inv.accepting (h : Inv s) {l : Nat} (hl : s.serving = .accepting l) {x : Serving}
    (hx : x.hand = some s.accepted.length) (hm : x.making = some s.accepted.length) (hacc : ∀ l, x ≠ .accepting l) :
    Inv { s with accepted := s.accepted ++ [l], serving := x } := by
  have hhand : s.serving.hand = none := by
    rw [hl]
    rfl
  constructor
  · intro c hc hopen
    by_cases heq : c = s.accepted.length
    · exact .inl (heq ▸ hx)
    · have hlt : c < s.accepted.length := by
        have hc : c < (s.accepted ++ [l]).length := hc
        rw [List.length_append, List.length_singleton] at hc
        omega
      rcases h.held c hlt hopen with hc | hkept
      · rw [hhand] at hc
        cases hc
      · exact .inr hkept
  · intro l' hl'
    refine (h.few l' hl').imp_right fun hfew => ⟨?_, fun hx => (hacc l' hx).elim⟩
    -- the new one is the only one through the socket it came through
    have hcases : ∀ c, ChatServer.Loose { s with accepted := s.accepted ++ [l], serving := x } l' c →
        (c = s.accepted.length ∧ l' = l) ∨ s.Loose l' c := by
      rintro c ⟨hc, hin⟩
      have hc : (s.accepted ++ [l])[c]? = some l' := hc
      by_cases hlt : c < s.accepted.length
      · rw [List.getElem?_append_left hlt] at hc
        refine .inr ⟨hc, .inr (hin.resolve_left fun hh => ?_)⟩
        obtain rfl : s.accepted.length = c := Option.some.inj (hx.symm.trans hh)
        exact lt_irrefl _ hlt
      · have heq : c = s.accepted.length := by
          have hle : c < (s.accepted ++ [l]).length := (List.getElem?_eq_some_iff.mp hc).1
          rw [List.length_append, List.length_singleton] at hle
          exact Nat.le_antisymm (Nat.lt_succ_iff.mp hle) (Nat.not_lt.mp hlt)
        subst heq
        rw [List.getElem?_concat_length] at hc
        exact .inl ⟨rfl, (Option.some.inj hc).symm⟩
    intro c c' hc hc'
    rcases hcases c hc with ⟨rfl, rfl⟩ | hold
    · rcases hcases c' hc' with ⟨rfl, -⟩ | hold'
      · rfl
      · exact (hfew.2 hl c' hold').elim
    · rcases hcases c' hc' with ⟨rfl, rfl⟩ | hold'
      · exact (hfew.2 hl c hold).elim
      · exact hfew.1 c c' hold hold'
  · exact h.marked
  · exact h.past
  · intro c hc
    obtain rfl : s.accepted.length = c := Option.some.inj (hm.symm.trans hc)
    show s.accepted.length < (s.accepted ++ [l]).length
    rw [List.length_append, List.length_singleton]
    exact Nat.lt_succ_self _
  · intro c hc
    obtain rfl : s.accepted.length = c := Option.some.inj (hm.symm.trans hc)
    show s.reading s.accepted.length = .absent
    by_contra hne
    exact absurd (h.started _ hne) (lt_irrefl _)
  · intro c hc
    have hlt := h.started c hc
    show c < (s.accepted ++ [l]).length
    rw [List.length_append, List.length_singleton]
    exact Nat.lt_succ_of_lt hlt
  · exact h.live

/-- A connection whose handshake failed is closed. -/
theorem Inv.dropping (h : Inv s) {c : Sid} (hc : s.serving = .dropping c) :
    Inv { s with released := Function.update s.released c true, serving := .looping } := by
  have hgrows : ∀ c', s.released c' = true → Function.update s.released c true c' = true := by
    intro c' hc'
    by_cases heq : c' = c
    · rw [heq, Function.update_self]
    · rwa [Function.update_of_ne heq]
  have hhand : s.serving.hand = some c := by
    rw [hc]
    rfl
  constructor
  · intro c' hlt hopen
    have hold : s.released c' = false := by
      refine Bool.eq_false_iff.mpr fun hx => ?_
      cases (hgrows c' hx).symm.trans hopen.2
    refine .inr ((h.held c' hlt ⟨hopen.1, hold⟩).resolve_left fun hx => ?_)
    obtain rfl : c = c' := Option.some.inj (hhand.symm.trans hx)
    have hupdate : Function.update s.released c true c = false := hopen.2
    rw [Function.update_self] at hupdate
    cases hupdate
  · intro l hl
    refine (h.few l hl).imp_right fun hfew => ⟨fun c₁ c₂ h₁ h₂ => ?_, fun hx => by cases hx⟩
    exact hfew.1 c₁ c₂ ⟨h₁.1, .inr (h₁.2.resolve_left fun hx => by cases hx)⟩
      ⟨h₂.1, .inr (h₂.2.resolve_left fun hx => by cases hx)⟩
  · exact fun c' hc' => (h.marked c' hc').imp_left (hgrows c')
  · exact h.past
  · intro c' hm
    cases hm
  · intro c' hm
    cases hm
  · exact h.started
  · exact h.live

/-- A handler joins the set. -/
theorem Inv.registering (h : Inv s) {c : Sid} (hc : s.serving = .registering c) :
    Inv { s with handlers := s.handlers ++ [c], serving := .launching c } := by
  have hhand : s.serving.hand = some c := by
    rw [hc]
    rfl
  constructor
  · intro c' hlt hopen
    rcases h.held c' hlt hopen with hx | hx | hx
    · refine .inr (.inl (List.mem_append_right _ (List.mem_singleton.mpr ?_)))
      exact (Option.some.inj (hhand.symm.trans hx)).symm
    · exact .inr (.inl (List.mem_append_left _ hx))
    · exact .inr (.inr hx)
  · intro l hl
    refine (h.few l hl).imp_right fun hfew => ⟨?_, fun hx => by cases hx⟩
    -- it was in the hand before
    have hsame : ∀ c', ChatServer.Loose { s with handlers := s.handlers ++ [c], serving := .launching c } l c' →
        s.Loose l c' := by
      rintro c' ⟨hl', hin⟩
      refine ⟨hl', ?_⟩
      rcases List.mem_append.mp (hin.resolve_left fun hx => by cases hx) with hx | hx
      · exact .inr hx
      · exact .inl (List.mem_singleton.mp hx ▸ hhand)
    exact fun c₁ c₂ h₁ h₂ => hfew.1 c₁ c₂ (hsame c₁ h₁) (hsame c₂ h₂)
  · exact h.marked
  · exact h.past
  · intro c' hm
    refine h.made c' ?_
    rw [hc]
    exact hm
  · intro c' hm
    refine h.unstarted c' ?_
    rw [hc]
    exact hm
  · exact h.started
  · intro c' hm hx
    rcases List.mem_append.mp hm with hm | hm
    · exact h.live c' hm hx
    · obtain rfl := List.mem_singleton.mp hm
      have habsent := h.unstarted c' (by rw [hc]; rfl)
      cases habsent.symm.trans hx

/-- Its thread is started. -/
theorem Inv.launching (h : Inv s) {c : Sid} (hc : s.serving = .launching c) :
    Inv { s with reading := Function.update s.reading c .serving, serving := .looping } := by
  have hmaking : s.serving.making = some c := by
    rw [hc]
    rfl
  have habsent := h.unstarted c hmaking
  have hother : ∀ c', c' ≠ c → Function.update s.reading c Reading.serving c' = s.reading c' :=
    fun c' hne => Function.update_of_ne hne ..
  have hself : Function.update s.reading c Reading.serving c = .serving := Function.update_self ..
  have hloop : Inv { s with serving := .looping } := by
    refine h.serveAt ?_ ?_ ?_
    · rw [hc]
      rfl
    · intro c' hm
      cases hm
    · intro l hl
      cases hl
  constructor
  · exact hloop.held
  · exact hloop.few
  · intro c' hc'
    refine (h.marked c' hc').imp_right (Or.imp_right (Or.imp_right (Or.imp_left fun hr => ?_)))
    have hne : c' ≠ c := by
      rintro rfl
      cases habsent.symm.trans hr
    exact (hother c' hne).trans hr
  · intro c' hp
    have hp : (Function.update s.reading c Reading.serving c').past = true := hp
    by_cases heq : c' = c
    · rw [heq, hself] at hp
      cases hp
    · exact h.past c' (hother c' heq ▸ hp)
  · intro c' hm
    cases hm
  · intro c' hm
    cases hm
  · intro c' hx
    by_cases heq : c' = c
    · rw [heq]
      exact h.made c hmaking
    · exact h.started c' fun ha => hx ((hother c' heq).trans ha)
  · intro c' hm hx
    have hx : Function.update s.reading c Reading.serving c' = .ended := hx
    by_cases heq : c' = c
    · rw [heq, hself] at hx
      cases hx
    · exact h.live c' hm ((hother c' heq).symm.trans hx)

/-- **`serve_forever`** -/
theorem Inv.serve (h : Inv s) (tls ok : Bool) : Inv (s.serveStep tls ok) := by
  -- Most lines of the loop hold no connection before and none after.
  have hempty : s.serving.making = none → ∀ x : Serving, x.making = none →
      (∀ l, x = .accepting l → s.shut l = false) → Inv { s with serving := x } := by
    intro hm x hx hacc
    have hhand : ∀ y : Serving, y.making = none → y.hand = none := by
      intro y hy
      cases y <;> first | rfl | cases hy
    refine h.serveAt ((hhand x hx).trans (hhand _ hm).symm) ?_ hacc
    intro c hc
    cases hx.symm.trans hc
  unfold serveStep
  split
  next hs =>
    refine hempty (by rw [hs]; rfl) _ ?_ ?_
    · split <;> rfl
    · split <;> simp
  next hs =>
    split
    · exact (hempty (by rw [hs]; rfl) .starting rfl (by simp)).set (some s.binds) s.running (s.binds + 1)
    · exact hempty (by rw [hs]; rfl) .raised rfl (by simp)
  next hs => exact (hempty (by rw [hs]; rfl) (.naming false) rfl (by simp)).set s.listener true s.binds
  next again hs =>
    unfold address
    split
    · exact hempty (by rw [hs]; rfl) .raised rfl (by simp)
    · refine hempty (by rw [hs]; rfl) _ ?_ ?_
      · split
        · rfl
        · cases again <;> rfl
      · split
        · simp
        · cases again <;> simp
  next hs =>
    refine hempty (by rw [hs]; rfl) _ ?_ ?_
    · split <;> rfl
    · split <;> simp
  next hs =>
    refine hempty (by rw [hs]; rfl) _ ?_ ?_
    · split <;> rfl
    · split <;> simp
  next hs =>
    split
    · exact hempty (by rw [hs]; rfl) .raised rfl (by simp)
    · exact hempty (by rw [hs]; rfl) _ rfl (by simp)
  next l hs =>
    refine hempty (by rw [hs]; rfl) _ ?_ ?_
    · split <;> rfl
    · -- the socket was not closed when the call was made
      intro l' hl'
      split at hl'
      · cases hl'
      next hopen =>
        cases hl'
        simpa using hopen
  next l hs =>
    split
    · refine h.accepting hs ?_ ?_ ?_
      · cases tls <;> rfl
      · cases tls <;> rfl
      · cases tls <;> simp
    · exact hempty (by rw [hs]; rfl) .returned rfl (by simp)
  -- the handshake has gone through or failed, and the connection is still in its hands
  next c hs =>
    refine h.serveAt ?_ ?_ ?_
    · rw [hs]
      split <;> rfl
    · intro c' hm
      rw [hs]
      split at hm <;> exact hm
    · intro l hl
      split at hl <;> cases hl
  next c hs => exact h.dropping hs
  next c hs => exact h.registering hs
  next c hs => exact h.launching hs
  · exact h
  · exact h

/-- **One step of anybody keeps the invariant.** -/
theorem Inv.step (h : Inv s) (tls : Bool) (m : Move) : Inv (s.step tls m) := by
  cases m with
  | serve ok => exact h.serve tls ok
  | stop i => exact h.stop i
  | read c => exact h.read c
  | full i c =>
    show Inv (if _ then _ else _)
    split
    next hi => exact h.full c hi.1
    next => exact h
  | hang i =>
    cases hi : s.hangs i with
    | none =>
      rw [step_hang_none hi]
      exact h
    | some p =>
      rw [step_hang hi]
      exact h.hang hi
  | writeFails c =>
    show Inv (if _ then _ else _)
    split
    next => exact h.writeFails c
    next => exact h

theorem Inv.run (h : Inv s) (tls : Bool) (ms : List Move) : Inv (s.run tls ms) := by
  induction ms generalizing s with
  | nil => exact h
  | cons m ms ih => exact ih (h.step tls m)

/-- A server nobody has connected to yet. -/
theorem inv_new (listener : Option Nat) (running : Bool) (binds : Nat) :
    Inv { listener, running, binds } := by
  constructor
  · intro c hc
    cases hc
  · intro l hl
    cases hl
  · intro c hc
    cases hc
  · intro c hc
    cases hc
  · intro c hc
    cases hc
  · intro c hc
    cases hc
  · intro c hc
    exact (hc rfl).elim
  · intro c hc
    cases hc

end Steps

/-- A call of `shutdown` goes on by its own steps only. -/
theorem step_stops (tls : Bool) (s : ChatServer) {m : Move} {i : Nat} (hm : m ≠ .stop i) :
    (s.step tls m).stops i = s.stops i := by
  cases m with
  | serve ok =>
    show (s.serveStep tls ok).stops i = s.stops i
    unfold serveStep address
    repeat' split
    all_goals rfl
  | stop j =>
    have hne : i ≠ j := by
      rintro rfl
      exact hm rfl
    have hat : ∀ (s' : ChatServer) x, s'.stops = s.stops → (s'.stopAt j x).stops i = s.stops i := by
      intro s' x hs'
      show Function.update s'.stops j x i = s.stops i
      rw [Function.update_of_ne hne, hs']
    show (s.stopStep j).stops i = s.stops i
    unfold stopStep
    split
    · exact hat _ _ rfl
    · exact hat _ _ rfl
    · exact hat _ _ rfl
    · split
      · exact hat _ _ rfl
      · exact hat _ _ rfl
    · exact hat _ _ rfl
    · exact hat _ _ rfl
    · exact hat _ _ rfl
    next k _ => cases k <;> exact hat _ _ rfl
    · rfl
    · rfl
  | read c =>
    show (s.readStep c).stops i = s.stops i
    unfold readStep
    split
    · rfl
    · rfl
    · rfl
    next k _ => cases k <;> rfl
    · rfl
    · rfl
  | full j c =>
    show (if _ then _ else _ : ChatServer).stops i = s.stops i
    split <;> rfl
  | hang j =>
    cases hj : s.hangs j with
    | none => rw [step_hang_none hj]
    | some p =>
      rw [step_hang hj]
      obtain ⟨c, k⟩ := p
      cases k <;> rfl
  | writeFails c =>
    show (if _ then _ else _ : ChatServer).stops i = s.stops i
    split <;> rfl

theorem run_stops (tls : Bool) (s : ChatServer) {ms : List Move} {i : Nat} (hms : .stop i ∉ ms) :
    (s.run tls ms).stops i = s.stops i := by
  induction ms generalizing s with
  | nil => rfl
  | cons m ms ih =>
    obtain ⟨hne, hms⟩ := not_or.mp (mt List.mem_cons.mpr hms)
    exact (ih (s.step tls m) hms).trans (step_stops tls s (Ne.symm hne))

/-! ## What is left open -/

/-- No call of `shutdown` is under way. -/
def Still (s : ChatServer) : Prop := ∀ i, s.stops i = .uncalled ∨ s.stops i = .returned ∨ s.stops i = .raised

/-- A connection that came through that listening socket and that nobody has closed, or is about to:
its writer has not failed either. -/
def Left (s : ChatServer) (l : Nat) : Set Sid :=
  {c | s.accepted[c]? = some l ∧ s.released c = false ∧ s.failed c = false ∧ ¬ s.Releasing c}

/-- **At most one connection outlives a shutdown.** Whoever calls `shutdown`, how often and when: when
no call is under way, all connections that came through a listening socket that has been closed are
closed or about to be, but those whose writer failed and one more. -/
theorem hung_up (tls : Bool) (s : ChatServer) (hs : s = unbound ∨ s = bound) (ms : List Move)
    (hstill : (s.run tls ms).Still) {l : Nat} (hl : (s.run tls ms).shut l = true) :
    ((s.run tls ms).Left l).Subsingleton := by
  have h : Inv (s.run tls ms) := by
    rcases hs with rfl | rfl
    · exact (inv_new none false 0).run tls ms
    · exact (inv_new (some 0) true 1).run tls ms
  have hloose : ∀ c ∈ (s.run tls ms).Left l, (s.run tls ms).Loose l c := by
    rintro c ⟨hc, hre, hfa, hno⟩
    have hcl : (s.run tls ms).closed c = false := by
      refine Bool.eq_false_iff.mpr fun hx => ?_
      rcases h.marked c hx with hr | hr | hr
      · cases hre.symm.trans hr
      · cases hfa.symm.trans hr
      · exact hno hr
    rcases h.held c (List.getElem?_eq_some_iff.mp hc).1 ⟨hcl, hre⟩ with hk | hk | ⟨i, hi⟩
    · exact ⟨hc, .inl hk⟩
    · exact ⟨hc, .inr hk⟩
    · -- nobody is hanging up any more
      rcases hstill i with hx | hx | hx <;> rw [hx] at hi <;> cases hi
  intro c hc c' hc'
  rcases h.few l hl with ⟨i, hi⟩ | ⟨hone, -⟩
  · rcases hstill i with hx | hx | hx <;> rw [hx] at hi <;> cases hi
  · exact hone c c' (hloose c hc) (hloose c' hc')

/-- **No handler outlives its thread** in `_handlers`: the set does not grow with those who come and
go. -/
theorem remembers_live (tls : Bool) (s : ChatServer) (hs : s = unbound ∨ s = bound) (ms : List Move) (c : Sid)
    (hc : c ∈ (s.run tls ms).handlers) : (s.run tls ms).reading c ≠ .ended := by
  rcases hs with rfl | rfl
  · exact ((inv_new none false 0).run tls ms).live c hc
  · exact ((inv_new (some 0) true 1).run tls ms).live c hc

/-! ## Why it ends -/

/-- A step that may end `serve_forever`: somebody calls `shutdown`, or the system refuses the socket or
a connection. -/
def Ends (s : ChatServer) : Move → Prop
  | .stop _ => True
  | .serve ok => ok = false ∧ (s.serving = .binding ∨ ∃ l, s.serving = .accepting l)
  | _ => False

/-- It is up: the listening socket is open, from the moment there has to be one. -/
structure Up (s : ChatServer) : Prop where
  shut : ∀ l, s.shut l = false
  listener : s.serving ≠ .entering → s.serving ≠ .binding → s.listener ≠ none
  running : s.listener ≠ none → s.serving ≠ .starting → s.running = true
  serving : s.serving ≠ .returned ∧ s.serving ≠ .raised

/-- A step that has nothing to do with it. -/
theorem Up.aside {s s' : ChatServer} (h : Up s) (hshut : s'.shut = s.shut) (hlistener : s'.listener = s.listener)
    (hrunning : s'.running = s.running) (hserving : s'.serving = s.serving) : Up s' := by
  refine ⟨hshut ▸ h.shut, ?_, ?_, hserving ▸ h.serving⟩
  · rw [hserving, hlistener]
    exact h.listener
  · rw [hserving, hlistener, hrunning]
    exact h.running

/-- With a listener and `_running` set it may go on to anything but its end. -/
theorem up_of {s : ChatServer} (hshut : ∀ l, s.shut l = false) (hlistener : s.listener ≠ none)
    (hrunning : s.running = true) (hreturned : s.serving ≠ .returned) (hraised : s.serving ≠ .raised) : Up s :=
  ⟨hshut, fun _ _ => hlistener, fun _ _ => hrunning, hreturned, hraised⟩

theorem Up.serve {s : ChatServer} (h : Up s) (tls ok : Bool) (hno : ¬ s.Ends (.serve ok)) :
    Up (s.serveStep tls ok) := by
  have hlater : s.serving ≠ .entering → s.serving ≠ .binding → s.serving ≠ .starting →
      s.listener ≠ none ∧ s.running = true := by
    intro h₁ h₂ h₃
    have hl := h.listener h₁ h₂
    exact ⟨hl, h.running hl h₃⟩
  unfold serveStep
  split
  next hs =>
    cases hl : s.listener with
    | none => exact ⟨h.shut, fun _ hx => (hx rfl).elim, fun hx => (hx rfl).elim, by simp, by simp⟩
    | some l =>
      have hlistener : s.listener ≠ none := by simp [hl]
      exact up_of h.shut (by simp) (h.running hlistener (by simp [hs])) (by simp) (by simp)
  next hs =>
    cases ok with
    | true => exact ⟨h.shut, fun _ _ => by simp, fun _ hx => (hx rfl).elim, by simp, by simp⟩
    | false => exact (hno ⟨rfl, .inl hs⟩).elim
  next hs => exact up_of h.shut (h.listener (by simp [hs]) (by simp [hs])) rfl (by simp) (by simp)
  next again hs =>
    obtain ⟨hl, hr⟩ := hlater (by simp [hs]) (by simp [hs]) (by simp [hs])
    unfold address
    split
    next hnone => exact (hl hnone).elim
    next l _ =>
      refine up_of h.shut hl hr ?_ ?_
      · cases again <;> simp [h.shut l]
      · cases again <;> simp [h.shut l]
  next hs =>
    obtain ⟨hl, hr⟩ := hlater (by simp [hs]) (by simp [hs]) (by simp [hs])
    refine up_of h.shut hl hr ?_ ?_
    · split <;> simp
    · cases hx : s.listener with
      | none => exact (hl hx).elim
      | some l => simp
  next hs =>
    obtain ⟨hl, hr⟩ := hlater (by simp [hs]) (by simp [hs]) (by simp [hs])
    exact up_of h.shut hl hr (by simp [hr]) (by simp [hr])
  next hs =>
    obtain ⟨hl, hr⟩ := hlater (by simp [hs]) (by simp [hs]) (by simp [hs])
    split
    next hnone => exact (hl hnone).elim
    next l _ => exact up_of h.shut hl hr (by simp) (by simp)
  next l hs =>
    obtain ⟨hl, hr⟩ := hlater (by simp [hs]) (by simp [hs]) (by simp [hs])
    exact up_of h.shut hl hr (by simp [h.shut l]) (by simp [h.shut l])
  next l hs =>
    obtain ⟨hl, hr⟩ := hlater (by simp [hs]) (by simp [hs]) (by simp [hs])
    cases ok with
    | true =>
      refine up_of h.shut hl hr ?_ ?_
      · cases tls <;> simp
      · cases tls <;> simp
    | false => exact (hno ⟨rfl, .inr ⟨l, hs⟩⟩).elim
  next c hs =>
    -- a failed handshake is one client's problem
    obtain ⟨hl, hr⟩ := hlater (by simp [hs]) (by simp [hs]) (by simp [hs])
    refine up_of h.shut hl hr ?_ ?_
    · cases ok <;> simp
    · cases ok <;> simp
  next c hs =>
    obtain ⟨hl, hr⟩ := hlater (by simp [hs]) (by simp [hs]) (by simp [hs])
    exact up_of h.shut hl hr (by simp) (by simp)
  next c hs =>
    obtain ⟨hl, hr⟩ := hlater (by simp [hs]) (by simp [hs]) (by simp [hs])
    exact up_of h.shut hl hr (by simp) (by simp)
  next c hs =>
    obtain ⟨hl, hr⟩ := hlater (by simp [hs]) (by simp [hs]) (by simp [hs])
    exact up_of h.shut hl hr (by simp) (by simp)
  · exact h
  · exact h

theorem Up.step {s : ChatServer} (h : Up s) (tls : Bool) (m : Move) (hno : ¬ s.Ends m) : Up (s.step tls m) := by
  cases m with
  | serve ok => exact h.serve tls ok hno
  | stop i => exact (hno trivial).elim
  | read c =>
    show Up (s.readStep c)
    unfold readStep
    split
    · exact h
    · exact h.aside rfl rfl rfl rfl
    · exact h.aside rfl rfl rfl rfl
    next k _ => cases k <;> exact h.aside rfl rfl rfl rfl
    · exact h.aside rfl rfl rfl rfl
    · exact h
  | full i c =>
    show Up (if _ then _ else _)
    split <;> exact h.aside rfl rfl rfl rfl
  | hang i =>
    cases hi : s.hangs i with
    | none =>
      rw [step_hang_none hi]
      exact h
    | some p =>
      rw [step_hang hi]
      obtain ⟨c, k⟩ := p
      cases k <;> exact h.aside rfl rfl rfl rfl
  | writeFails c =>
    show Up (if _ then _ else _)
    split <;> exact h.aside rfl rfl rfl rfl

theorem run_snoc (tls : Bool) (s : ChatServer) (ms : List Move) (m : Move) :
    s.run tls (ms ++ [m]) = (s.run tls ms).step tls m := by
  rw [run, List.foldl_append]
  rfl

end ChatServer

namespace Sample

open ChatServer

/-- One connection is served, and another has just been accepted, when `shutdown` is called. -/
def straggling : List Move :=
  List.replicate 12 (.serve true) ++ List.replicate 10 (.stop 0) ++ List.replicate 3 (.serve true)

end Sample

section Concrete

open ChatServer Sample

/-- The first is hung up on, the second is not, and it is the only one. -/
theorem straggling_left :
    (bound.run false straggling).released 0 = true ∧ (bound.run false straggling).handlers = [1] ∧
      (bound.run false straggling).released 1 = false ∧ (bound.run false straggling).serving = .returned ∧
      ((bound.run false straggling).Left 0).Subsingleton := by
  refine ⟨by decide +kernel, by decide +kernel, by decide +kernel, by decide +kernel, ?_⟩
  refine hung_up false bound (.inr rfl) straggling ?_ (by decide +kernel)
  intro i
  by_cases hi : i = 0
  · subst hi
    exact .inr (.inl (by decide +kernel))
  · refine .inl (run_stops false bound ?_)
    simp [straggling, hi]

/-- Its handler is in the new set and is being served. -/
theorem straggling_live : (bound.run false straggling).reading 1 ≠ .ended :=
  remembers_live false bound (.inr rfl) straggling 1 (by decide +kernel)

end Concrete

end Ciphertext
