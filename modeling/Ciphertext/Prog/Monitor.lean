import Mathlib.Logic.Function.Basic
import Ciphertext.Prog.Threads
import Ciphertext.Prog.Rely

/-!
# Calls that take more than one step

`Prog/Threads.lean` lets a thread make a call in one piece. An object behind a
lock does not work like that: the call takes the lock, does what it does step by
step, and gives the lock back, and in between other threads go on with whatever
the lock does not guard. `Monitors` says how each call is carried out: under
which lock, by which program of steps on the part of the state that the lock
guards. `Crew` is the pool of threads at this level.

The two levels agree (`Crew.Reach.atomic`): whatever a crew can come to, a pool
that makes each call in one piece comes to as well, with the same calls answered
alike in the same order. A call counts when its lock is given back. Until then
the pool still has the part as it was when the lock was taken, and what is left
of the call takes it from where it is now to where the whole call would have
taken it.
-/

namespace Ciphertext

open Prog

namespace Prog

/-! ## Programs of steps -/

variable {T : Signature} {ε α τ : Type}

/-- A program under way: from `p` in `s` some of its steps lead to `q` in `s'`. -/
inductive Midway (step : (m : T.Op) → τ → T.Ret m × τ) (p : Prog T ε α) (s : τ) : Prog T ε α → τ → Prop
  | start : Midway step p s p s
  | snoc {m : T.Op} {q : T.Ret m → Prog T ε α} {s' : τ} (h : Midway step p s (.call m q) s') :
      Midway step p s (q (step m s').1) (step m s').2

/-- Run a program whose calls do not raise by themselves. -/
def runSteps (step : (m : T.Op) → τ → T.Ret m × τ) (p : Prog T ε α) (s : τ) : Except ε α × τ :=
  p.run (fun m s => (.ok (step m s).1, (step m s).2)) s

variable {step : (m : T.Op) → τ → T.Ret m × τ} {p q : Prog T ε α} {s s' : τ}

@[simp] theorem runSteps_pure (a : α) : (Prog.pure a : Prog T ε α).runSteps step s = (.ok a, s) := rfl

@[simp] theorem runSteps_raise (e : ε) : (Prog.raise e : Prog T ε α).runSteps step s = (.error e, s) := rfl

@[simp] theorem runSteps_call (m : T.Op) (k : T.Ret m → Prog T ε α) :
    (Prog.call m k).runSteps step s = (k (step m s).1).runSteps step (step m s).2 :=
  run_call_ok rfl

theorem runSteps_bind {β : Type} (f : α → Prog T ε β) :
    (p >>= f).runSteps step s =
      match p.runSteps step s with
      | (.ok a, s') => (f a).runSteps step s'
      | (.error e, s') => (.error e, s') :=
  run_bind p f s

/-- The handler goes on in the state the exception left. -/
theorem runSteps_tryCatch {ε' : Type} (h : ε → Prog T ε' α) :
    (p.tryCatch h).runSteps step s =
      match p.runSteps step s with
      | (.ok a, s') => (.ok a, s')
      | (.error e, s') => (h e).runSteps step s' := by
  induction p generalizing s with
  | pure a => rfl
  | raise e => rfl
  | call m k ih =>
    rw [Prog.tryCatch, runSteps_call, runSteps_call]
    exact ih _

/-- Where it ends has been settled from the beginning. -/
theorem Midway.run (h : Midway step p s q s') : q.runSteps step s' = p.runSteps step s := by
  induction h with
  | start => rfl
  | snoc _ ih => rw [← ih, runSteps_call]

/-- What every step keeps holds on the way. -/
theorem Midway.inv {J : Prog T ε α → τ → Prop} (h : Midway step p s q s') (h₀ : J p s)
    (hstep : ∀ m k s, J (.call m k) s → J (k (step m s).1) (step m s).2) : J q s' := by
  induction h with
  | start => exact h₀
  | snoc _ ih => exact hstep _ _ _ ih

end Prog

/-- How the calls of `S` are carried out. -/
structure Monitors (S : Signature) (ε : Type) where
  Lock : Type
  /-- The part of the state that a lock guards -/
  Part : Lock → Type
  /-- What can be done to it in one step -/
  Steps : Lock → Signature
  step : (l : Lock) → (m : (Steps l).Op) → Part l → (Steps l).Ret m × Part l
  /-- The lock a call takes -/
  guard : S.Op → Lock
  /-- What it does while it has it -/
  body : (o : S.Op) → Prog (Steps (guard o)) ε (S.Ret o)

namespace Monitors

variable {S : Signature} {ε : Type} (M : Monitors S ε)

/-- All parts together. -/
abbrev State : Type := ∀ l, M.Part l

/-- A call from beginning to end, on its part. A step never raises by itself. -/
def runBody (o : S.Op) (s : M.Part (M.guard o)) : Except ε (S.Ret o) × M.Part (M.guard o) :=
  (M.body o).runSteps (M.step _) s

variable [DecidableEq M.Lock]

/-- A call in one piece. -/
def whole (o : S.Op) (s : M.State) : Except ε (S.Ret o) × M.State :=
  ((M.runBody o (s (M.guard o))).1, Function.update s (M.guard o) (M.runBody o (s (M.guard o))).2)

end Monitors

variable {S : Signature} {ε ℓ : Type}

/-- Where a thread is: between two calls, or inside one, with what is left of it
and of the program after it. -/
inductive Place (M : Monitors S ε) where
  | outside (p : Prog S ε Unit)
  | inside (o : S.Op) (k : S.Ret o → Prog S ε Unit) (p : Prog (M.Steps (M.guard o)) ε (S.Ret o))

namespace Place

variable {M : Monitors S ε}

/-- The thread has the lock. -/
def Holds (l : M.Lock) : Place M → Prop
  | .outside _ => False
  | .inside o _ _ => M.guard o = l

/-- What is left of its program as long as the call it is in does not count. -/
def rest : Place M → Prog S ε Unit
  | .outside p => p
  | .inside o k _ => .call o k

end Place

/-- The state, the threads and the calls that have come to their end. -/
structure Crew (M : Monitors S ε) (ℓ : Type) where
  state : M.State
  threads : List (ℓ × Place M) := []
  log : List (Nat × Event S) := []

namespace Crew

variable {M : Monitors S ε}

/-- Nobody has the lock. -/
def Free (c : Crew M ℓ) (l : M.Lock) : Prop := ∀ x ∈ c.threads, ¬ x.2.Holds l

/-- Nobody is inside a call. -/
def Quiet (c : Crew M ℓ) : Prop := ∀ l, c.Free l

/-! ## One holder at a time -/

/-- A lock is held by one thread at most. -/
def Exclusive (c : Crew M ℓ) : Prop :=
  ∀ (t u : Nat) (x y : ℓ × Place M) (l : M.Lock), c.threads[t]? = some x → c.threads[u]? = some y →
    x.2.Holds l → y.2.Holds l → t = u

theorem Exclusive.set {c : Crew M ℓ} (h : c.Exclusive) {t : Nat} {x y : ℓ × Place M}
    (ht : c.threads[t]? = some x) (hxy : ∀ l, y.2.Holds l → x.2.Holds l ∨ c.Free l)
    (state : M.State) (log : List (Nat × Event S)) :
    Exclusive ⟨state, c.threads.set t y, log⟩ := by
  have hold : ∀ u z l, c.threads[u]? = some z → z.2.Holds l → y.2.Holds l → u = t := by
    intro u z l hu hz hy
    rcases hxy l hy with hx | hfree
    · exact h u t z x l hu ht hz hx
    · exact absurd hz (hfree z (List.mem_of_getElem? hu))
  intro u v z w l hu hv hz hw
  rw [List.getElem?_set] at hu hv
  by_cases htu : t = u
  · by_cases htv : t = v
    · exact htu.symm.trans htv
    · rw [if_neg htv] at hv
      have hy : y.2.Holds l := by
        rw [if_pos htu] at hu
        split at hu
        · cases hu
          exact hz
        · cases hu
      exact htu.symm.trans (hold v w l hv hw hy).symm
  · rw [if_neg htu] at hu
    by_cases htv : t = v
    · have hy : y.2.Holds l := by
        rw [if_pos htv] at hv
        split at hv
        · cases hv
          exact hw
        · cases hv
      exact (hold u z l hu hz hy).trans htv
    · rw [if_neg htv] at hv
      exact h u v z w l hu hv hz hw

/-! ## The pool behind a crew -/

/-- The pool has made the calls of the log, each in one piece. -/
structure Behind (a : Pool S ε ℓ M.State) (c : Crew M ℓ) : Prop where
  log : a.log = c.log
  threads : a.threads = c.threads.map fun x => (x.1, x.2.rest)
  /-- A part whose lock is free is the same. -/
  free : ∀ l, c.Free l → a.state l = c.state l
  /-- What a call does has led from the part of the pool to that of the crew. -/
  busy : ∀ x ∈ c.threads, ∀ o k p, x.2 = .inside o k p →
    Midway (M.step _) (M.body o) (a.state (M.guard o)) p (c.state (M.guard o))

theorem Behind.rest {a : Pool S ε ℓ M.State} {c : Crew M ℓ} (h : Behind a c) {t : Nat} {x : ℓ × Place M}
    (ht : c.threads[t]? = some x) : a.threads[t]? = some (x.1, x.2.rest) := by
  rw [h.threads, List.getElem?_map, ht]
  rfl

/-- The threads of the pool when one of the crew has moved on. -/
theorem Behind.set {a : Pool S ε ℓ M.State} {c : Crew M ℓ} (h : Behind a c) (t : Nat) (y : ℓ × Place M) :
    a.threads.set t (y.1, y.2.rest) = (c.threads.set t y).map fun x => (x.1, x.2.rest) := by
  rw [h.threads, List.map_set]

/-- The others of a crew in which one thread has the lock do not have it. -/
theorem Exclusive.other {c : Crew M ℓ} (h : c.Exclusive) {t u : Nat} {x y : ℓ × Place M} {l : M.Lock}
    (ht : c.threads[t]? = some x) (hx : x.2.Holds l) (hu : c.threads[u]? = some y) (hne : u ≠ t) :
    ¬ y.2.Holds l := fun hy => hne (h u t y x l hu ht hy hx)

/-- A thread of a crew in which one has moved on: that one, or one of the others. -/
theorem mem_set {xs : List (ℓ × Place M)} {t : Nat} {x y : ℓ × Place M} (h : x ∈ xs.set t y) :
    x = y ∨ ∃ u, u ≠ t ∧ xs[u]? = some x := by
  obtain ⟨u, hu⟩ := List.mem_iff_getElem?.mp h
  rw [List.getElem?_set] at hu
  split at hu
  · split at hu
    · exact .inl (Option.some.inj hu).symm
    · cases hu
  next hne => exact .inr ⟨u, Ne.symm hne, hu⟩

/-- A lock that is free after a thread has moved on, and that it did not have before, was free. -/
theorem free_of_set {c : Crew M ℓ} {t : Nat} {x y : ℓ × Place M} {l : M.Lock} (ht : c.threads[t]? = some x)
    (hx : ¬ x.2.Holds l) (h : ∀ z ∈ c.threads.set t y, ¬ z.2.Holds l) : c.Free l := by
  intro z hz hheld
  obtain ⟨u, hu⟩ := List.mem_iff_getElem?.mp hz
  by_cases hut : u = t
  · subst hut
    cases ht.symm.trans hu
    exact hx hheld
  · refine h z (List.mem_iff_getElem?.mpr ⟨u, ?_⟩) hheld
    rw [List.getElem?_set_ne (Ne.symm hut)]
    exact hu

/-- A thread that goes on inside its call, or enters it, is where it was for the pool. -/
theorem Behind.still {a : Pool S ε ℓ M.State} {c : Crew M ℓ} (h : Behind a c) {t : Nat} {x y : ℓ × Place M}
    (ht : c.threads[t]? = some x) (hfst : y.1 = x.1) (hrest : y.2.rest = x.2.rest) :
    a.threads = (c.threads.set t y).map fun x => (x.1, x.2.rest) := by
  rw [← h.set t y, hfst, hrest]
  obtain ⟨hlen, hget⟩ := List.getElem?_eq_some_iff.mp (h.rest ht)
  rw [← hget, List.set_getElem_self]

/-! ## What a crew can come to -/

variable [DecidableEq M.Lock] (M) (prog : ℓ → Prog S ε Unit) (s₀ : M.State)

/-- What can come about from a crew. A lock is taken when nobody has it; a step
touches the part of its lock only. -/
inductive From (c₀ : Crew M ℓ) : Crew M ℓ → Prop
  | start : From c₀ c₀
  | spawn {c : Crew M ℓ} (h : From c₀ c) (l : ℓ) :
      From c₀ { c with threads := c.threads ++ [(l, .outside (prog l))] }
  | enter {c : Crew M ℓ} (h : From c₀ c) {t : Nat} {l : ℓ} {o : S.Op} {k : S.Ret o → Prog S ε Unit}
      (ht : c.threads[t]? = some (l, .outside (.call o k))) (hfree : c.Free (M.guard o)) :
      From c₀ { c with threads := c.threads.set t (l, .inside o k (M.body o)) }
  | step {c : Crew M ℓ} (h : From c₀ c) {t : Nat} {l : ℓ} {o : S.Op} {k : S.Ret o → Prog S ε Unit}
      {m : (M.Steps (M.guard o)).Op} {q : (M.Steps (M.guard o)).Ret m → Prog (M.Steps (M.guard o)) ε (S.Ret o)}
      (ht : c.threads[t]? = some (l, .inside o k (.call m q))) :
      From c₀ { c with
        state := Function.update c.state (M.guard o) (M.step _ m (c.state (M.guard o))).2
        threads := c.threads.set t (l, .inside o k (q (M.step _ m (c.state (M.guard o))).1)) }
  | leave {c : Crew M ℓ} (h : From c₀ c) {t : Nat} {l : ℓ} {o : S.Op} {k : S.Ret o → Prog S ε Unit}
      {r : S.Ret o} (ht : c.threads[t]? = some (l, .inside o k (.pure r))) :
      From c₀ { c with
        threads := c.threads.set t (l, .outside (k r))
        log := c.log ++ [(t, ⟨o, r⟩)] }
  | throw {c : Crew M ℓ} (h : From c₀ c) {t : Nat} {l : ℓ} {o : S.Op} {k : S.Ret o → Prog S ε Unit}
      {e : ε} (ht : c.threads[t]? = some (l, .inside o k (.raise e))) :
      From c₀ { c with threads := c.threads.set t (l, .outside (.raise e)) }

/-- What can come about from no threads at all. -/
abbrev Reach : Crew M ℓ → Prop := From M prog ⟨s₀, [], []⟩

variable {M prog s₀}

/-- One thing after another. -/
theorem From.trans {c₀ c c' : Crew M ℓ} (h : From M prog c₀ c) (h' : From M prog c c') : From M prog c₀ c' := by
  induction h' with
  | start => exact h
  | spawn _ l ih => exact ih.spawn l
  | enter _ ht hfree ih => exact ih.enter ht hfree
  | step _ ht ih => exact ih.step ht
  | leave _ ht ih => exact ih.leave ht
  | throw _ ht ih => exact ih.throw ht

/-- No two threads are ever in calls under one lock. -/
theorem Reach.exclusive {c : Crew M ℓ} (h : Reach M prog s₀ c) : c.Exclusive := by
  induction h with
  | start =>
    intro t u x y l hx
    simp at hx
  | @spawn c _ l ih =>
    -- the new thread is in no call
    intro t u x y lock hx hy hhx hhy
    have hone : ∀ (v : Nat) (z : ℓ × Place M), (c.threads ++ [(l, Place.outside (prog l))])[v]? = some z → z.2.Holds lock →
        c.threads[v]? = some z := by
      intro v z hv hz
      rw [List.getElem?_append] at hv
      split at hv
      · exact hv
      · rw [List.mem_singleton.mp (List.mem_of_getElem? hv)] at hz
        exact hz.elim
    exact ih t u x y lock (hone t x hx hhx) (hone u y hy hhy) hhx hhy
  | enter _ ht hfree ih =>
    refine ih.set ht (fun l hl => .inr ?_) _ _
    obtain rfl : _ = l := hl
    exact hfree
  | step _ ht ih =>
    refine ih.set ht (fun l hl => .inl ?_) _ _
    exact hl
  | leave _ ht ih =>
    refine ih.set ht (fun l hl => ?_) _ _
    cases hl
  | throw _ ht ih =>
    refine ih.set ht (fun l hl => ?_) _ _
    cases hl

/-- A thread that gives its lock back: the call has its full effect in the pool. -/
theorem Behind.given {a : Pool S ε ℓ M.State} {c : Crew M ℓ} (h : Behind a c) (hex : c.Exclusive) {t : Nat} {l : ℓ}
    {o : S.Op} {k : S.Ret o → Prog S ε Unit} {p : Prog (M.Steps (M.guard o)) ε (S.Ret o)} {q : Prog S ε Unit}
    {res : Except ε (S.Ret o)} (ht : c.threads[t]? = some (l, .inside o k p))
    (hend : p.runSteps (M.step _) (c.state (M.guard o)) = (res, c.state (M.guard o)))
    (log : List (Nat × Event S)) :
    M.whole o a.state = (res, Function.update a.state (M.guard o) (c.state (M.guard o))) ∧
      Behind ⟨Function.update a.state (M.guard o) (c.state (M.guard o)), a.threads.set t (l, q), log⟩
        ⟨c.state, c.threads.set t (l, .outside q), log⟩ := by
  have hbody : M.runBody o (a.state (M.guard o)) = (res, c.state (M.guard o)) :=
    (h.busy _ (List.mem_of_getElem? ht) o k p rfl).run.symm.trans hend
  refine ⟨by rw [Monitors.whole, hbody], ⟨rfl, h.set t (l, .outside q), fun l' hl' => ?_, ?_⟩⟩
  · by_cases hl : l' = M.guard o
    · subst hl
      exact Function.update_self ..
    · -- whoever has `l'` is not this thread
      exact (Function.update_of_ne hl ..).trans (h.free l' (free_of_set ht (fun he => hl he.symm) hl'))
  · intro x hx o' k' p' hp'
    rcases mem_set hx with rfl | ⟨u, hne, hu⟩
    · cases hp'
    · have hother : M.guard o' ≠ M.guard o := by
        have := hex.other ht (l := M.guard o) rfl hu hne
        rw [hp'] at this
        exact this
      dsimp only
      rw [Function.update_of_ne hother]
      exact h.busy x (List.mem_of_getElem? hu) o' k' p' hp'

/-- **Locks make calls atomic.** -/
theorem Reach.atomic {c : Crew M ℓ} (h : Reach M prog s₀ c) :
    ∃ a, Pool.Reach M.whole prog s₀ a ∧ Behind a c := by
  -- A call counts when its last step is made; until then the thread that makes it is behind.
  induction h with
  | start => exact ⟨⟨s₀, [], []⟩, .start, ⟨rfl, rfl, fun _ _ => rfl, fun x hx => by cases hx⟩⟩
  | @spawn c _ l ih =>
    obtain ⟨a, ha, hb⟩ := ih
    refine ⟨_, ha.spawn l, ⟨hb.log, ?_, fun lock hl => ?_, fun x hx o k p hp => ?_⟩⟩
    · rw [List.map_append, hb.threads]
      rfl
    · exact hb.free lock fun x hx => hl x (List.mem_append_left _ hx)
    · rcases List.mem_append.mp hx with hx | hx
      · exact hb.busy x hx o k p hp
      · rw [List.mem_singleton.mp hx] at hp
        cases hp
  | @enter c h t l o k ht hfree ih =>
    obtain ⟨a, ha, hb⟩ := ih
    refine ⟨a, ha, ⟨hb.log, hb.still ht rfl rfl, fun lock hl => ?_, fun x hx o' k' p hp => ?_⟩⟩
    · exact hb.free lock (free_of_set ht id hl)
    · rcases mem_set hx with rfl | ⟨u, -, hu⟩
      · cases hp
        rw [hb.free _ hfree]
        exact .start
      · exact hb.busy x (List.mem_of_getElem? hu) o' k' p hp
  | @step c h t l o k m q ht ih =>
    obtain ⟨a, ha, hb⟩ := ih
    have hex := Reach.exclusive h
    have hother : ∀ {l' : M.Lock} {s : M.Part (M.guard o)}, l' ≠ M.guard o →
        Function.update c.state (M.guard o) s l' = c.state l' := fun hne => Function.update_of_ne hne ..
    refine ⟨a, ha, ⟨hb.log, hb.still ht rfl rfl, fun lock hl => ?_, fun x hx o' k' p hp => ?_⟩⟩
    -- the part this lock guards is in the thread's hands, so it is not free
    · have hne : lock ≠ M.guard o := by
        rintro rfl
        refine hl (l, .inside o k (q (M.step _ m (c.state (M.guard o))).1)) ?_ rfl
        exact List.mem_set (List.getElem?_eq_some_iff.mp ht).1 _
      dsimp only
      rw [hother hne]
      exact hb.free lock (free_of_set ht (fun he => hne he.symm) hl)
    · rcases mem_set hx with rfl | ⟨u, hne, hu⟩
      · cases hp
        dsimp only
        rw [Function.update_self]
        exact (hb.busy _ (List.mem_of_getElem? ht) o k _ rfl).snoc
      · have hguard : M.guard o' ≠ M.guard o := by
          have := hex.other ht (l := M.guard o) rfl hu hne
          rw [hp] at this
          exact this
        dsimp only
        rw [hother hguard]
        exact hb.busy x (List.mem_of_getElem? hu) o' k' p hp
  | @leave c h t l o k r ht ih =>
    obtain ⟨a, ha, hb⟩ := ih
    obtain ⟨hwhole, hbehind⟩ := hb.given (Reach.exclusive h) (q := k r) ht rfl (c.log ++ [(t, ⟨o, r⟩)])
    rw [← hb.log] at hbehind ⊢
    exact ⟨_, ha.call (hb.rest ht) hwhole, hbehind⟩
  | @throw c h t l o k e ht ih =>
    obtain ⟨a, ha, hb⟩ := ih
    obtain ⟨hwhole, hbehind⟩ := hb.given (Reach.exclusive h) (q := .raise e) ht rfl c.log
    rw [← hb.log] at hbehind ⊢
    exact ⟨_, ha.fail (hb.rest ht) hwhole, hbehind⟩

/-! ## The crew of a pool -/

/-- A program that has come to its end. -/
def ended {T : Signature} {α : Type} : Except ε α → Prog T ε α
  | .ok a => .pure a
  | .error e => .raise e

/-- Writing back what is there changes nothing. -/
theorem Reach.same {c : Crew M ℓ} (h : Reach M prog s₀ c) {t : Nat} {x : ℓ × Place M} (ht : c.threads[t]? = some x)
    (l : M.Lock) : Reach M prog s₀ ⟨Function.update c.state l (c.state l), c.threads.set t x, c.log⟩ := by
  obtain ⟨hlen, hget⟩ := List.getElem?_eq_some_iff.mp ht
  rw [Function.update_eq_self, ← hget, List.set_getElem_self]
  exact h

/-- A thread may carry its call through. -/
theorem Reach.through {c : Crew M ℓ} (h : Reach M prog s₀ c) {t : Nat} {l : ℓ} {o : S.Op}
    {k : S.Ret o → Prog S ε Unit} {p : Prog (M.Steps (M.guard o)) ε (S.Ret o)}
    (ht : c.threads[t]? = some (l, .inside o k p)) {res : Except ε (S.Ret o)} {s' : M.Part (M.guard o)}
    (hp : p.runSteps (M.step _) (c.state (M.guard o)) = (res, s')) :
    Reach M prog s₀ ⟨Function.update c.state (M.guard o) s', c.threads.set t (l, .inside o k (ended res)), c.log⟩ := by
  induction p generalizing c with
  | pure a =>
    obtain ⟨rfl, rfl⟩ := Prod.mk.inj hp
    exact h.same ht _
  | raise e =>
    obtain ⟨rfl, rfl⟩ := Prod.mk.inj hp
    exact h.same ht _
  | call m q ih =>
    rw [runSteps_call] at hp
    have hlen := (List.getElem?_eq_some_iff.mp ht).1
    have hnext := ih _ (h.step ht) (List.getElem?_set_self hlen) (by
      dsimp only
      rwa [Function.update_self])
    dsimp only at hnext
    rwa [Function.update_idem, List.set_set] at hnext

/-- The crew in which nobody is inside a call. -/
def ofPool (a : Pool S ε ℓ M.State) : Crew M ℓ := ⟨a.state, a.threads.map fun x => (x.1, .outside x.2), a.log⟩

omit [DecidableEq M.Lock] in
theorem quiet_ofPool (a : Pool S ε ℓ M.State) : (ofPool a).Quiet := by
  intro l x hx
  obtain ⟨y, -, rfl⟩ := List.mem_map.mp hx
  exact id

/-- **Whatever calls in one piece come to, calls step by step can come to.** -/
theorem reach_ofPool {a : Pool S ε ℓ M.State} (h : Pool.Reach M.whole prog s₀ a) : Reach M prog s₀ (ofPool a) := by
  -- into the call, through it, and to where it is left from
  have hcarry : ∀ {a : Pool S ε ℓ M.State} {t l o k res s'}, Reach M prog s₀ (ofPool a) →
      a.threads[t]? = some (l, .call o k) → M.whole o a.state = (res, s') →
      Reach M prog s₀ ⟨s', (ofPool a).threads.set t (l, .inside o k (ended res)), a.log⟩ ∧
        t < (ofPool a).threads.length := by
    intro a t l o k res s' ha ht hwhole
    have ht' : (ofPool a).threads[t]? = some (l, .outside (.call o k)) := by
      rw [ofPool, List.getElem?_map, ht]
      rfl
    have hlen := (List.getElem?_eq_some_iff.mp ht').1
    obtain ⟨rfl, rfl⟩ := Prod.mk.inj hwhole
    have hin := ha.enter ht' (quiet_ofPool a (M.guard o))
    have hthrough := Reach.through hin (List.getElem?_set_self hlen) rfl
    dsimp only at hthrough
    rw [List.set_set] at hthrough
    exact ⟨hthrough, hlen⟩
  have hset : ∀ (a : Pool S ε ℓ M.State) (t : Nat) (l : ℓ) (p : Prog S ε Unit),
      (ofPool a).threads.set t (l, .outside p) = (a.threads.set t (l, p)).map fun x => (x.1, .outside x.2) := by
    intro a t l p
    rw [List.map_set]
    rfl
  induction h with
  | start => exact .start
  | @spawn c _ l ih =>
    have hnext := ih.spawn l
    unfold ofPool at hnext ⊢
    rw [List.map_append]
    exact hnext
  | @call c _ t l o k r s' ht he ih =>
    obtain ⟨hin, hlen⟩ := hcarry ih ht he
    have hout := hin.leave (List.getElem?_set_self hlen)
    dsimp only at hout
    rw [List.set_set, hset] at hout
    exact hout
  | @fail c _ t l o k e s' ht he ih =>
    obtain ⟨hin, hlen⟩ := hcarry ih ht he
    have hout := hin.throw (List.getElem?_set_self hlen)
    dsimp only at hout
    rw [List.set_set, hset] at hout
    exact hout

end Crew

/-! ## Pools over different states -/

namespace Pool

variable {σ τ : Type} {exec : (o : S.Op) → σ → Except ε (S.Ret o) × σ}
  {exec' : (o : S.Op) → τ → Except ε (S.Ret o) × τ} {prog : ℓ → Prog S ε Unit} {s₀ : σ}

/-- The same pool over another state. -/
def mapState (f : σ → τ) (c : Pool S ε ℓ σ) : Pool S ε ℓ τ := ⟨f c.state, c.threads, c.log⟩

/-- Calls that answer alike on what `f` makes of the states lead to the same
pools over them. `I` is what is known of the states. -/
theorem Reach.mapState {I : σ → Prop} {f : σ → τ} (h₀ : I s₀)
    (hexec : ∀ o s, I s → I (exec o s).2 ∧ exec' o (f s) = ((exec o s).1, f (exec o s).2))
    {c : Pool S ε ℓ σ} (h : Reach exec prog s₀ c) :
    I c.state ∧ Reach exec' prog (f s₀) (c.mapState f) := by
  induction h with
  | start => exact ⟨h₀, .start⟩
  | spawn _ l ih => exact ⟨ih.1, ih.2.spawn l⟩
  | @call c _ t l o k r s' ht he ih =>
    obtain ⟨hI, heq⟩ := hexec o c.state ih.1
    rw [he] at hI heq
    exact ⟨hI, ih.2.call ht heq⟩
  | @fail c _ t l o k e s' ht he ih =>
    obtain ⟨hI, heq⟩ := hexec o c.state ih.1
    rw [he] at hI heq
    exact ⟨hI, ih.2.fail ht heq⟩

end Pool

end Ciphertext
