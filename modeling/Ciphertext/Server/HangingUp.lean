import Ciphertext.Server.Listening

/-!
# Those who hang up

`ClientHandler.close` is called by three kinds of threads: a call of `shutdown`, for
every handler it has taken; the handler's own thread, when its loop has ended; and a
`send` that finds the outbox full. Each sets `_closed` and closes the connection in a
step of its own after that, and one that finds the flag set goes away without closing
anything. A writer that fails sets the flag and does no more.

`Inv.aside` is the frame of all these steps: nothing moves between the sets, flags are
only ever set, and whoever sets one is about to close the connection. `Inv.close` is
one line of `close`, whoever calls it, and `Inv.stop`, `Inv.read`, `Inv.hang` and
`Inv.writeFails` are the four threads. The step that has an argument of its own is
`Inv.taking`: the call of `shutdown` that takes the handlers takes every one there
is, so that what came through a closed socket and is in no call's hands can only be
with `serve_forever`.
-/

namespace Ciphertext

namespace ChatServer

section Steps

variable {s s' : ChatServer}

/-- A step that is not one of `serve_forever` and leaves the sets and the sockets alone. -/
theorem Inv.aside (h : Inv s) (haccepted : s'.accepted = s.accepted) (hserving : s'.serving = s.serving)
    (hhandlers : s'.handlers = s.handlers) (hshut : s'.shut = s.shut)
    (hclosed : ∀ c, s.closed c = true → s'.closed c = true)
    (hreleased : ∀ c, s.released c = true → s'.released c = true)
    (hfailed : ∀ c, s.failed c = true → s'.failed c = true)
    (htodo : ∀ i c, c ∈ (s.stops i).todo → ¬ s'.Open c ∨ ∃ j, c ∈ (s'.stops j).todo)
    (howed : s.Owed → s'.Owed)
    (hreleasing : ∀ c, s.Releasing c → s'.released c = true ∨ s'.Releasing c)
    (hmarked : ∀ c, s'.closed c = true → s.closed c = true ∨ s'.failed c = true ∨ s'.Releasing c)
    (hpast : ∀ c, (s'.reading c).past = true → (s.reading c).past = true ∨ s'.closed c = true)
    (habsent : ∀ c, s'.reading c = .absent ↔ s.reading c = .absent)
    (hended : ∀ c, s'.reading c = .ended → s.reading c = .ended) : Inv s' := by
  constructor
  · rintro c hc ⟨hcl, hre⟩
    have hopen : s.Open c := by
      refine ⟨Bool.eq_false_iff.mpr fun hx => ?_, Bool.eq_false_iff.mpr fun hx => ?_⟩
      · rw [hclosed c hx] at hcl
        cases hcl
      · rw [hreleased c hx] at hre
        cases hre
    rcases h.held c (haccepted ▸ hc) hopen with hhand | hset | ⟨i, hi⟩
    · exact .inl (hserving ▸ hhand)
    · exact .inr (.inl (hhandlers ▸ hset))
    · exact .inr (.inr ((htodo i c hi).resolve_left fun hx => hx ⟨hcl, hre⟩))
  · intro l hl
    refine (h.few l (hshut ▸ hl)).imp howed fun hfew => ?_
    simpa only [Loose, haccepted, hserving, hhandlers] using hfew
  · intro c hc
    rcases hmarked c hc with hx | hx | hx
    · rcases h.marked c hx with hx | hx | hx
      · exact .inl (hreleased c hx)
      · exact .inr (.inl (hfailed c hx))
      · exact (hreleasing c hx).imp_right .inr
    · exact .inr (.inl hx)
    · exact .inr (.inr hx)
  · intro c hc
    exact (hpast c hc).elim (fun hx => hclosed c (h.past c hx)) id
  · intro c hc
    rw [haccepted]
    exact h.made c (hserving ▸ hc)
  · intro c hc
    exact (habsent c).mpr (h.unstarted c (hserving ▸ hc))
  · intro c hc
    rw [haccepted]
    exact h.started c fun hx => hc ((habsent c).mpr hx)
  · intro c hc hx
    exact h.live c (hhandlers ▸ hc) (hended c hx)

/-- A thread goes on in `close`. -/
theorem Inv.close (h : Inv s) (c : Sid) (k : HandlerClose) (stops : Nat → Stopping) (reading : Sid → Reading)
    (hangs : Nat → Option (Sid × HandlerClose))
    (htodo : ∀ i c', c' ∈ (s.stops i).todo → c' = c ∧ (s.closeStep c k).1 = none ∨ ∃ j, c' ∈ (stops j).todo)
    (howed : s.Owed → ∃ j, (stops j).owes = true)
    (hreleasing : ∀ c', s.Releasing c' → (k = .releasing ∧ c' = c) ∨ { s with stops, reading, hangs }.Releasing c')
    (hnow : k = .marking → { s with stops, reading, hangs }.Releasing c)
    (hpast : ∀ c', (reading c').past = true → (s.reading c').past = true ∨
      c' = c ∧ (k = .marking ∨ k = .checking ∧ s.closed c = true))
    (habsent : ∀ c', reading c' = .absent ↔ s.reading c' = .absent)
    (hended : ∀ c', reading c' = .ended → s.reading c' = .ended) :
    Inv { (s.closeStep c k).2 with stops, reading, hangs } := by
  have hclosed : ∀ c', s.closed c' = true → (s.closeStep c k).2.closed c' = true := by
    intro c' hc'
    cases k with
    | marking =>
      show Function.update s.closed c true c' = true
      by_cases heq : c' = c
      · rw [heq, Function.update_self]
      · rwa [Function.update_of_ne heq]
    | _ => exact hc'
  -- closing writes `closed` and `released` only, and each only upwards
  refine h.aside ?_ ?_ ?_ ?_ hclosed ?_ ?_ ?_ howed ?_ ?_ ?_ habsent hended
  · cases k <;> rfl
  · cases k <;> rfl
  · cases k <;> rfl
  · cases k <;> rfl
  · intro c' hc'
    cases k with
    | releasing =>
      show Function.update s.released c true c' = true
      by_cases heq : c' = c
      · rw [heq, Function.update_self]
      · rwa [Function.update_of_ne heq]
    | _ => exact hc'
  · intro c' hc'
    cases k <;> exact hc'
  · intro i c' hc'
    refine (htodo i c' hc').imp_left ?_
    rintro ⟨rfl, hnone⟩ ⟨hcl, hre⟩
    cases k with
    | checking =>
      -- it was found closed
      by_cases hx : s.closed c' = true
      · cases (hclosed c' hx).symm.trans hcl
      · simp [closeStep, hx] at hnone
    | marking => cases hnone
    | releasing =>
      have hupdate : Function.update s.released c' true c' = false := hre
      rw [Function.update_self] at hupdate
      cases hupdate
  · intro c' hc'
    refine (hreleasing c' hc').imp_left ?_
    rintro ⟨rfl, rfl⟩
    exact Function.update_self ..
  · intro c' hc'
    by_cases hk : k = .marking
    · subst hk
      by_cases heq : c' = c
      · exact .inr (.inr (heq ▸ hnow rfl))
      · left
        have hupdate : Function.update s.closed c true c' = true := hc'
        rwa [Function.update_of_ne heq] at hupdate
    · left
      cases k with
      | marking => exact (hk rfl).elim
      | _ => exact hc'
  · intro c' hc'
    rcases hpast c' hc' with hp | ⟨rfl, rfl | ⟨rfl, hp⟩⟩
    · exact .inl hp
    · exact .inr (Function.update_self ..)
    · exact .inr hp

/-- A call of `shutdown` goes on. -/
theorem Inv.stopAt (h : Inv s) {i : Nat} {x : Stopping}
    (htodo : (s.stops i).todo ⊆ x.todo)
    (howes : (s.stops i).owes = true → x.owes = true)
    (hreleasing : ∀ c rest, s.stops i ≠ .hanging (c :: rest) .releasing) : Inv (s.stopAt i x) := by
  refine h.aside rfl rfl rfl rfl (fun _ hc => hc) (fun _ hc => hc) (fun _ hc => hc) ?_ ?_ ?_ (fun _ hc => .inl hc)
    (fun _ hc => .inl hc) (fun _ => Iff.rfl) (fun _ hc => hc)
  · intro j c hc
    by_cases hj : j = i
    · subst hj
      refine .inr ⟨j, ?_⟩
      show c ∈ (Function.update s.stops j x j).todo
      rw [Function.update_self]
      exact htodo hc
    · refine .inr ⟨j, ?_⟩
      show c ∈ (Function.update s.stops i x j).todo
      rwa [Function.update_of_ne hj]
  · rintro ⟨j, hj⟩
    by_cases heq : j = i
    · subst heq
      refine ⟨j, ?_⟩
      show (Function.update s.stops j x j).owes = true
      rw [Function.update_self]
      exact howes hj
    · refine ⟨j, ?_⟩
      show (Function.update s.stops i x j).owes = true
      rwa [Function.update_of_ne heq]
  · rintro c (⟨j, rest, hj⟩ | hr)
    · have heq : j ≠ i := by
        rintro rfl
        exact hreleasing c rest hj
      refine .inr (.inl ⟨j, rest, ?_⟩)
      show Function.update s.stops i x j = _
      rwa [Function.update_of_ne heq]
    · exact .inr (.inr hr)

/-- `_running` and `_listener` are in nothing of it. -/
theorem Inv.set (h : Inv s) (listener : Option Nat) (running : Bool) (binds : Nat) :
    Inv { s with listener, running, binds } :=
  ⟨h.held, h.few, h.marked, h.past, h.made, h.unstarted, h.started, h.live⟩

/-- A listening socket is closed by a call that will take the handlers. -/
theorem Inv.shutting (h : Inv s) {i : Nat} (l : Nat) (hi : s.stops i = .shutting) :
    Inv ({ s with shut := Function.update s.shut l true }.stopAt i .forgetting) := by
  have hs : Inv (s.stopAt i .forgetting) := by
    refine h.stopAt ?_ ?_ ?_
    · intro c hc
      rw [hi] at hc
      cases hc
    · intro _
      rfl
    · intro c rest heq
      rw [hi] at heq
      cases heq
  refine ⟨hs.held, fun l' _ => .inl ⟨i, ?_⟩, hs.marked, hs.past, hs.made, hs.unstarted, hs.started, hs.live⟩
  show (Function.update s.stops i Stopping.forgetting i).owes = true
  rw [Function.update_self]
  rfl

/-- The handlers are taken, all of them. -/
theorem Inv.taking (h : Inv s) {i : Nat} (hi : s.stops i = .taking) :
    Inv ({ s with handlers := [] }.stopAt i (.hanging s.handlers .checking)) := by
  have hother : ∀ j, j ≠ i → Function.update s.stops i (Stopping.hanging s.handlers .checking) j = s.stops j :=
    fun j hj => Function.update_of_ne hj ..
  constructor
  · intro c hc hopen
    rcases h.held c hc hopen with hhand | hset | ⟨j, hj⟩
    · exact .inl hhand
    · refine .inr (.inr ⟨i, ?_⟩)
      show c ∈ (Function.update s.stops i (Stopping.hanging s.handlers .checking) i).todo
      rw [Function.update_self]
      exact hset
    · have hne : j ≠ i := by
        rintro rfl
        rw [hi] at hj
        cases hj
      refine .inr (.inr ⟨j, ?_⟩)
      show c ∈ (Function.update s.stops i (Stopping.hanging s.handlers .checking) j).todo
      rwa [hother j hne]
  · intro l _
    -- what is left is in the one hand
    refine .inr ⟨?_, ?_⟩
    · rintro c c' ⟨-, hc⟩ ⟨-, hc'⟩
      have hc : s.serving.hand = some c := hc.resolve_right fun hx => by cases hx
      have hc' : s.serving.hand = some c' := hc'.resolve_right fun hx => by cases hx
      exact Option.some.inj (hc.symm.trans hc')
    · rintro hacc c ⟨-, hc⟩
      have hserving : s.serving = .accepting l := hacc
      have hc : s.serving.hand = some c := hc.resolve_right fun hx => by cases hx
      rw [hserving] at hc
      cases hc
  · intro c hc
    refine (h.marked c hc).imp_right (Or.imp_right fun hr => ?_)
    rcases hr with ⟨j, rest, hj⟩ | hr
    · have hne : j ≠ i := by
        rintro rfl
        rw [hi] at hj
        cases hj
      exact .inl ⟨j, rest, (hother j hne).trans hj⟩
    · exact .inr hr
  · exact h.past
  · exact h.made
  · exact h.unstarted
  · exact h.started
  · intro c hc
    cases hc

/-- `shutdown` goes on in a handler's `close`. -/
theorem Inv.hanging (h : Inv s) {i : Nat} {c : Sid} {rest : List Sid} {k : HandlerClose}
    (hi : s.stops i = .hanging (c :: rest) k) {x : Stopping}
    (hx : x = ((s.closeStep c k).1.map (Stopping.hanging (c :: rest))).getD (.hanging rest .checking)) :
    Inv ((s.closeStep c k).2.stopAt i x) := by
  have hself : Function.update s.stops i x i = x := Function.update_self ..
  have hother : ∀ j, j ≠ i → Function.update s.stops i x j = s.stops j := fun j hj => Function.update_of_ne hj ..
  have hstep : (s.closeStep c k).2.stopAt i x =
      { (s.closeStep c k).2 with stops := Function.update s.stops i x, reading := s.reading, hangs := s.hangs } := by
    cases k <;> rfl
  rw [hstep]
  refine h.close c k _ _ _ ?_ ?_ ?_ ?_ (fun _ hc' => .inl hc') (fun _ => Iff.rfl) (fun _ hc' => hc')
  · intro j c' hc'
    by_cases hj : j = i
    · subst hj
      rw [hi] at hc'
      cases hk : (s.closeStep c k).1 with
      | some k' =>
        refine .inr ⟨j, ?_⟩
        rw [hself, hx, hk]
        exact hc'
      | none =>
        rcases List.mem_cons.mp hc' with rfl | hc'
        · exact .inl ⟨rfl, rfl⟩
        · refine .inr ⟨j, ?_⟩
          rw [hself, hx, hk]
          exact hc'
    · exact .inr ⟨j, (hother j hj).symm ▸ hc'⟩
  · rintro ⟨j, hj⟩
    by_cases heq : j = i
    · subst heq
      rw [hi] at hj
      cases hj
    · exact ⟨j, (hother j heq).symm ▸ hj⟩
  · rintro c' (⟨j, rest', hj⟩ | hr)
    · by_cases heq : j = i
      · subst heq
        obtain ⟨heq, rfl⟩ := Stopping.hanging.inj (hi.symm.trans hj)
        exact .inl ⟨rfl, (List.cons.inj heq).1.symm⟩
      · exact .inr (.inl ⟨j, rest', (hother j heq).trans hj⟩)
    · exact .inr (.inr hr)
  · rintro rfl
    exact .inl ⟨i, rest, hself.trans hx⟩

/-- **`shutdown`** -/
theorem Inv.stop (h : Inv s) (i : Nat) : Inv (s.stopStep i) := by
  unfold stopStep
  have hquiet : ∀ x, s.stops i = x → x.todo = [] → x.owes = false → ∀ y, Inv (s.stopAt i y) := by
    intro x hx htodo howes y
    refine h.stopAt ?_ ?_ ?_
    · intro c hc
      rw [hx, htodo] at hc
      cases hc
    · intro ho
      rw [hx, howes] at ho
      cases ho
    · intro c rest heq
      rw [hx.symm.trans heq] at htodo
      cases htodo
  split
  next hi => exact hquiet _ hi rfl rfl _
  next hi => exact (hquiet _ hi rfl rfl .looking).set s.listener false s.binds
  next hi => exact hquiet _ hi rfl rfl _
  next hi =>
    split
    · exact hquiet _ hi rfl rfl _
    · exact h.shutting _ hi
  next hi =>
    have hs : Inv (s.stopAt i .taking) := by
      refine h.stopAt ?_ (fun _ => rfl) ?_
      · intro c hc
        rw [hi] at hc
        cases hc
      · intro c rest heq
        rw [hi] at heq
        cases heq
    exact hs.set none s.running s.binds
  next hi => exact h.taking hi
  next k hi => exact hquiet _ hi rfl rfl _
  next c rest k hi => exact h.hanging hi rfl
  · exact h
  · exact h

/-- The handler's thread goes on outside `close`. -/
theorem Inv.readAt (h : Inv s) {c : Sid} {x : Reading} (hpast : x.past = true → (s.reading c).past = true)
    (hnew : x ≠ .absent ∧ x ≠ .ended) (hold : s.reading c ≠ .absent ∧ s.reading c ≠ .closing .releasing) :
    Inv (s.readAt c x) := by
  have hself : (s.readAt c x).reading c = x := Function.update_self ..
  have hother : ∀ c', c' ≠ c → (s.readAt c x).reading c' = s.reading c' :=
    fun c' hne => Function.update_of_ne hne ..
  refine h.aside rfl rfl rfl rfl (fun _ hc => hc) (fun _ hc => hc) (fun _ hc => hc)
    (fun i c hc => .inr ⟨i, hc⟩) id ?_ (fun _ hc => .inl hc) ?_ ?_ ?_
  · rintro c' (hr | hr | hr)
    · exact .inr (.inl hr)
    · have hne : c' ≠ c := by
        rintro rfl
        exact hold.2 hr
      exact .inr (.inr (.inl ((hother c' hne).trans hr)))
    · exact .inr (.inr (.inr hr))
  · intro c' hc'
    by_cases heq : c' = c
    · subst heq
      rw [hself] at hc'
      exact .inl (hpast hc')
    · exact .inl (hother c' heq ▸ hc')
  · intro c'
    by_cases heq : c' = c
    · subst heq
      rw [hself]
      exact ⟨fun hx => (hnew.1 hx).elim, fun hx => (hold.1 hx).elim⟩
    · rw [hother c' heq]
  · intro c' hc'
    by_cases heq : c' = c
    · subst heq
      rw [hself] at hc'
      exact (hnew.2 hc').elim
    · exact hother c' heq ▸ hc'

/-- The handler's thread goes on in `close`. -/
theorem Inv.closing (h : Inv s) {c : Sid} {k : HandlerClose} (hc : s.reading c = .closing k) {x : Reading}
    (hx : x = ((s.closeStep c k).1.map Reading.closing).getD .discarding) :
    Inv ((s.closeStep c k).2.readAt c x) := by
  have hself : Function.update s.reading c x c = x := Function.update_self ..
  have hother : ∀ c', c' ≠ c → Function.update s.reading c x c' = s.reading c' :=
    fun c' hne => Function.update_of_ne hne ..
  have hnew : x ≠ .absent ∧ x ≠ .ended := by
    rw [hx]
    cases (s.closeStep c k).1 <;> simp
  have hstep : (s.closeStep c k).2.readAt c x =
      { (s.closeStep c k).2 with stops := s.stops, reading := Function.update s.reading c x, hangs := s.hangs } := by
    cases k <;> rfl
  rw [hstep]
  refine h.close c k _ _ _ (fun i c' hc' => .inr ⟨i, hc'⟩) id ?_ ?_ ?_ ?_ ?_
  · rintro c' (hr | hr | hr)
    · exact .inr (.inl hr)
    · by_cases heq : c' = c
      · subst heq
        exact .inl ⟨Reading.closing.inj (hc.symm.trans hr), rfl⟩
      · exact .inr (.inr (.inl ((hother c' heq).trans hr)))
    · exact .inr (.inr (.inr hr))
  · rintro rfl
    exact .inr (.inl (hself.trans hx))
  · intro c' hc'
    by_cases heq : c' = c
    · subst heq
      rw [hself] at hc'
      cases k with
      | checking =>
        by_cases hcl : s.closed c' = true
        · exact .inr ⟨rfl, .inr ⟨rfl, hcl⟩⟩
        · simp [hx, closeStep, hcl, Reading.past] at hc'
      | marking => exact .inr ⟨rfl, .inl rfl⟩
      | releasing =>
        left
        rw [hc]
        rfl
    · exact .inl (hother c' heq ▸ hc')
  · intro c'
    by_cases heq : c' = c
    · subst heq
      rw [hself, hc]
      exact ⟨fun ha => (hnew.1 ha).elim, fun ha => by cases ha⟩
    · rw [hother c' heq]
  · intro c' hc'
    by_cases heq : c' = c
    · subst heq
      rw [hself] at hc'
      exact (hnew.2 hc').elim
    · exact hother c' heq ▸ hc'

/-- A handler whose thread is at its end leaves the set. -/
theorem Inv.discarding (h : Inv s) {c : Sid} (hc : s.reading c = .discarding) :
    Inv ({ s with handlers := s.handlers.filter (· ≠ c) }.readAt c .ended) := by
  have hother : ∀ c', c' ≠ c → Function.update s.reading c Reading.ended c' = s.reading c' :=
    fun c' hne => Function.update_of_ne hne ..
  have hclosed : s.closed c = true := h.past c (by rw [hc]; rfl)
  have hset : ∀ c', c' ∈ s.handlers.filter (· ≠ c) ↔ c' ∈ s.handlers ∧ c' ≠ c := by
    intro c'
    simp
  constructor
  · intro c' hlt hopen
    refine (h.held c' hlt hopen).imp_right (Or.imp_left fun hmem => ?_)
    refine (hset c').mpr ⟨hmem, ?_⟩
    rintro rfl
    cases hclosed.symm.trans hopen.1
  · intro l hl
    refine (h.few l hl).imp_right fun hfew => ?_
    have hsub : ∀ c', ChatServer.Loose ({ s with handlers := s.handlers.filter (· ≠ c) }.readAt c .ended) l c' →
        s.Loose l c' := fun c' hx => ⟨hx.1, hx.2.imp_right fun hm => ((hset c').mp hm).1⟩
    exact ⟨fun c₁ c₂ h₁ h₂ => hfew.1 c₁ c₂ (hsub c₁ h₁) (hsub c₂ h₂), fun hacc c' hx => hfew.2 hacc c' (hsub c' hx)⟩
  · intro c' hc'
    refine (h.marked c' hc').imp_right (Or.imp_right (Or.imp_right (Or.imp_left fun hr => ?_)))
    have hne : c' ≠ c := by
      rintro rfl
      cases hc.symm.trans hr
    exact (hother c' hne).trans hr
  · intro c' hp
    by_cases heq : c' = c
    · rw [heq]
      exact hclosed
    · exact h.past c' (hother c' heq ▸ hp)
  · exact h.made
  · intro c' hm
    have habsent := h.unstarted c' hm
    have hne : c' ≠ c := by
      rintro rfl
      cases hc.symm.trans habsent
    exact (hother c' hne).trans habsent
  · intro c' hx
    by_cases heq : c' = c
    · refine h.started c' ?_
      rw [heq, hc]
      simp
    · exact h.started c' fun ha => hx ((hother c' heq).trans ha)
  · intro c' hm hx
    obtain ⟨hm, hne⟩ := (hset c').mp hm
    exact h.live c' hm ((hother c' hne).symm.trans hx)

/-- **A handler's thread** -/
theorem Inv.read (h : Inv s) (c : Sid) : Inv (s.readStep c) := by
  unfold readStep
  split
  · exact h
  next hc => exact h.readAt (by simp [Reading.past]) (by simp) (by simp [hc])
  next hc => exact h.readAt (by simp [Reading.past]) (by simp) (by simp [hc])
  next k hc => exact h.closing hc rfl
  next hc => exact h.discarding hc
  · exact h

/-- **A `send` that finds the outbox full** -/
theorem Inv.full (h : Inv s) {i : Nat} (c : Sid) (hi : s.hangs i = none) :
    Inv { s with hangs := Function.update s.hangs i (some (c, .checking)) } := by
  refine h.aside rfl rfl rfl rfl (fun _ hc => hc) (fun _ hc => hc) (fun _ hc => hc) (fun i c hc => .inr ⟨i, hc⟩) id
    ?_ (fun _ hc => .inl hc) (fun _ hc => .inl hc) (fun _ => Iff.rfl) (fun _ hc => hc)
  rintro c' (hr | hr | ⟨j, hj⟩)
  · exact .inr (.inl hr)
  · exact .inr (.inr (.inl hr))
  · have hne : j ≠ i := by
      rintro rfl
      rw [hi] at hj
      cases hj
    refine .inr (.inr (.inr ⟨j, ?_⟩))
    show Function.update s.hangs i _ j = _
    rwa [Function.update_of_ne hne]

/-- **The `close` it calls** -/
theorem Inv.hang (h : Inv s) {i : Nat} {c : Sid} {k : HandlerClose} (hi : s.hangs i = some (c, k)) :
    Inv { (s.closeStep c k).2 with
      hangs := Function.update s.hangs i ((s.closeStep c k).1.map (c, ·)) } := by
  have hstep : ({ (s.closeStep c k).2 with
      hangs := Function.update s.hangs i ((s.closeStep c k).1.map (c, ·)) } : ChatServer) =
      { (s.closeStep c k).2 with
        stops := s.stops
        reading := s.reading
        hangs := Function.update s.hangs i ((s.closeStep c k).1.map (c, ·)) } := by
    cases k <;> rfl
  rw [hstep]
  refine h.close c k _ _ _ (fun i c' hc' => .inr ⟨i, hc'⟩) id ?_ ?_ (fun _ hc' => .inl hc') (fun _ => Iff.rfl)
    (fun _ hc' => hc')
  · rintro c' (hr | hr | ⟨j, hj⟩)
    · exact .inr (.inl hr)
    · exact .inr (.inr (.inl hr))
    · by_cases heq : j = i
      · subst heq
        cases hi.symm.trans hj
        exact .inl ⟨rfl, rfl⟩
      · refine .inr (.inr (.inr ⟨j, ?_⟩))
        show Function.update s.hangs i _ j = _
        rwa [Function.update_of_ne heq]
  · rintro rfl
    exact .inr (.inr ⟨i, Function.update_self ..⟩)

/-- **A writer that fails** -/
theorem Inv.writeFails (h : Inv s) (c : Sid) :
    Inv { s with closed := Function.update s.closed c true, failed := Function.update s.failed c true } := by
  have hgrows : ∀ f : Sid → Bool, ∀ c', f c' = true → Function.update f c true c' = true := by
    intro f c' hc'
    by_cases heq : c' = c
    · rw [heq, Function.update_self]
    · rwa [Function.update_of_ne heq]
  refine h.aside rfl rfl rfl rfl (hgrows s.closed) (fun _ hc => hc) (hgrows s.failed) (fun i c hc => .inr ⟨i, hc⟩) id
    (fun _ hr => .inr hr) ?_ (fun _ hc => .inl hc) (fun _ => Iff.rfl) (fun _ hc => hc)
  intro c' hc'
  have hc' : Function.update s.closed c true c' = true := hc'
  by_cases heq : c' = c
  · right
    left
    show Function.update s.failed c true c' = true
    rw [heq, Function.update_self]
  · rw [Function.update_of_ne heq] at hc'
    exact .inl hc'

end Steps

end ChatServer

end Ciphertext
