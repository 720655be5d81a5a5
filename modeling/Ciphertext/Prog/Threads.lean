import Ciphertext.Prog.Logic

/-!
# Programs that run side by side

A `Pool` is a shared state and any number of threads, each with what is left of
its program. A step starts a thread, or lets one thread make its next call; the
call is atomic, and any thread may be next. The pool keeps the log of all calls
in the order they were made, each with the thread that made it and what was
answered.

Reasoning goes through the log. What one thread has done so far is a path
through its program (`Reach.path`), whatever the others did meanwhile, so facts
about the order of its own calls are facts about the program text. What the
state looks like is an invariant that ties it to the log, proved one call at a
time.
-/

namespace Ciphertext

/-- A call that was made and what it answered. -/
structure Event (S : Signature) where
  op : S.Op
  answer : S.Ret op

namespace Prog

variable {S : Signature} {ε α β : Type}

/-! ## Paths -/

/-- `q` is what is left of `p` after the events. -/
inductive Path : Prog S ε α → List (Event S) → Prog S ε α → Prop
  | nil (p : Prog S ε α) : Path p [] p
  | cons {o : S.Op} {k : S.Ret o → Prog S ε α} {r : S.Ret o} {es : List (Event S)}
      {q : Prog S ε α} (h : Path (k r) es q) : Path (.call o k) (⟨o, r⟩ :: es) q

theorem Path.snoc {p : Prog S ε α} {es : List (Event S)} {o : S.Op} {k : S.Ret o → Prog S ε α}
    (h : Path p es (.call o k)) (r : S.Ret o) : Path p (es ++ [⟨o, r⟩]) (k r) := by
  generalize hq : Prog.call o k = q at h
  induction h with
  | nil p =>
    subst hq
    exact .cons (.nil _)
  | cons _ ih => exact .cons (ih hq)

/-- Every call on a path is one the program may make. -/
theorem Path.uses {A : S.Op → Prop} {p q : Prog S ε α} {es : List (Event S)} (h : Path p es q)
    (hp : p.Uses A) : ∀ e ∈ es, A e.op := by
  induction h with
  | nil p => simp
  | cons _ ih =>
    intro e he
    rcases List.mem_cons.mp he with rfl | he
    · exact hp.1
    · exact ih (hp.2 _) e he

/-- The events of a run of the program that returns `a`. -/
def Yields (p : Prog S ε α) (es : List (Event S)) (a : α) : Prop := Path p es (.pure a)

theorem yields_pure {a b : α} {es : List (Event S)} :
    Yields (.pure a : Prog S ε α) es b ↔ es = [] ∧ b = a := by
  constructor
  · intro h
    cases h
    exact ⟨rfl, rfl⟩
  · rintro ⟨rfl, rfl⟩
    exact .nil _

theorem not_yields_raise {e : ε} {es : List (Event S)} {a : α} :
    ¬ Yields (.raise e : Prog S ε α) es a := by
  intro h
  cases h

theorem yields_call {o : S.Op} {k : S.Ret o → Prog S ε α} {es : List (Event S)} {a : α} :
    Yields (.call o k) es a ↔ ∃ r rest, es = ⟨o, r⟩ :: rest ∧ Yields (k r) rest a := by
  constructor
  · intro h
    cases h with
    | cons h => exact ⟨_, _, rfl, h⟩
  · rintro ⟨r, rest, rfl, h⟩
    exact .cons h

theorem yields_bind {p : Prog S ε α} {f : α → Prog S ε β} {es : List (Event S)} {b : β} :
    Yields (p >>= f) es b ↔
      ∃ a es₁ es₂, es = es₁ ++ es₂ ∧ Yields p es₁ a ∧ Yields (f a) es₂ b := by
  induction p generalizing es with
  | pure a =>
    constructor
    · intro h
      exact ⟨a, [], es, rfl, .nil _, h⟩
    · rintro ⟨a', es₁, es₂, rfl, h₁, h₂⟩
      obtain ⟨rfl, rfl⟩ := yields_pure.mp h₁
      exact h₂
  | raise e =>
    constructor
    · intro h
      exact (not_yields_raise h).elim
    · rintro ⟨a', es₁, es₂, rfl, h₁, h₂⟩
      exact (not_yields_raise h₁).elim
  | call o k ih =>
    rw [call_bind, yields_call]
    constructor
    · rintro ⟨r, rest, rfl, h⟩
      obtain ⟨a, es₁, es₂, rfl, h₁, h₂⟩ := (ih r).mp h
      exact ⟨a, ⟨o, r⟩ :: es₁, es₂, rfl, .cons h₁, h₂⟩
    · rintro ⟨a, es₁, es₂, rfl, h₁, h₂⟩
      obtain ⟨r, rest, rfl, hk⟩ := yields_call.mp h₁
      exact ⟨r, rest ++ es₂, rfl, (ih r).mpr ⟨a, rest, es₂, rfl, hk, h₂⟩⟩

/-- One call, run to its end. -/
theorem yields_call_pure {o : S.Op} {es : List (Event S)} {a : S.Ret o} :
    Yields (.call o .pure : Prog S ε (S.Ret o)) es a ↔ es = [⟨o, a⟩] := by
  rw [yields_call]
  constructor
  · rintro ⟨r, rest, rfl, h⟩
    obtain ⟨rfl, rfl⟩ := yields_pure.mp h
    rfl
  · rintro rfl
    exact ⟨a, [], rfl, .nil _⟩

/-- One call, then the rest. -/
theorem yields_call_bind {o : S.Op} {f : S.Ret o → Prog S ε β} {es : List (Event S)} {b : β} :
    Yields ((Prog.call o .pure : Prog S ε (S.Ret o)) >>= f) es b ↔
      ∃ r rest, es = ⟨o, r⟩ :: rest ∧ Yields (f r) rest b :=
  yields_call

/-! ## Calls that come after another -/

/-- Until an event in `R` has happened, only calls in `A` are made. -/
def Gated (R : Event S → Prop) (A : S.Op → Prop) : Prog S ε α → Prop
  | .pure _ => True
  | .raise _ => True
  | .call o k => A o ∧ ∀ r, ¬ R ⟨o, r⟩ → (k r).Gated R A

section Gated

variable {R : Event S → Prop} {A : S.Op → Prop}

theorem Gated.bind {p : Prog S ε α} {f : α → Prog S ε β} (hp : p.Gated R A)
    (hf : ∀ a, (f a).Gated R A) : (p >>= f).Gated R A := by
  induction p with
  | pure a => exact hf a
  | raise e => trivial
  | call o k ih => exact ⟨hp.1, fun r hr => ih r (hp.2 r hr)⟩

/-- One call, then the rest. -/
theorem gated_call_bind {o : S.Op} {f : S.Ret o → Prog S ε β} (ho : A o)
    (h : ∀ r, ¬ R ⟨o, r⟩ → (f r).Gated R A) :
    ((Prog.call o .pure : Prog S ε (S.Ret o)) >>= f).Gated R A :=
  ⟨ho, h⟩

theorem Uses.gated {p : Prog S ε α} (hp : p.Uses A) : p.Gated R A := by
  induction p with
  | pure a => trivial
  | raise e => trivial
  | call o k ih => exact ⟨hp.1, fun r _ => ih r (hp.2 r)⟩

/-- A call outside `A` on a path comes after an event in `R`. -/
theorem Path.gated {p q : Prog S ε α} {es : List (Event S)} (h : Path p es q) (hp : p.Gated R A)
    {e : Event S} (he : e ∈ es) (hA : ¬ A e.op) : ∃ e' ∈ es, R e' := by
  induction h with
  | nil p => cases he
  | @cons o k r es q h ih =>
    by_cases hR : R ⟨o, r⟩
    · exact ⟨_, List.mem_cons_self .., hR⟩
    rcases List.mem_cons.mp he with rfl | he
    · exact (hA hp.1).elim
    · obtain ⟨e', he', hR'⟩ := ih (hp.2 r hR) he
      exact ⟨e', List.mem_cons_of_mem _ he', hR'⟩

/-- Unless an event in `R` has happened, what is returned is in `Q`. -/
def Ends (R : Event S → Prop) (Q : α → Prop) : Prog S ε α → Prop
  | .pure a => Q a
  | .raise _ => True
  | .call o k => ∀ r, ¬ R ⟨o, r⟩ → (k r).Ends R Q

theorem Ends.bind {Q : α → Prop} {Q' : β → Prop} {p : Prog S ε α} {f : α → Prog S ε β} (hp : p.Ends R Q)
    (hf : ∀ a, Q a → (f a).Ends R Q') : (p >>= f).Ends R Q' := by
  induction p with
  | pure a => exact hf a hp
  | raise e => trivial
  | call o k ih => exact fun r hr => ih r (hp r hr)

/-- What is always so. -/
theorem Ends.of_all {Q : α → Prop} (p : Prog S ε α) (h : ∀ a, Q a) : p.Ends R Q := by
  induction p with
  | pure a => exact h a
  | raise e => trivial
  | call o k ih => exact fun r _ => ih r

/-- One call, then the rest. -/
theorem ends_call_bind {Q : α → Prop} {o : S.Op} {f : S.Ret o → Prog S ε α}
    (h : ∀ r, ¬ R ⟨o, r⟩ → (f r).Ends R Q) : ((Prog.call o .pure : Prog S ε (S.Ret o)) >>= f).Ends R Q :=
  h

/-- What follows need only answer for what can be returned. -/
theorem Gated.bind_ends {Q : α → Prop} {p : Prog S ε α} {f : α → Prog S ε β} (hp : p.Gated R A)
    (hq : p.Ends R Q) (hf : ∀ a, Q a → (f a).Gated R A) : (p >>= f).Gated R A := by
  induction p with
  | pure a => exact hf a hq
  | raise e => trivial
  | call o k ih => exact ⟨hp.1, fun r hr => ih r (hp.2 r hr) (hq r hr)⟩

end Gated

end Prog

/-! ## Pools -/

open Prog

variable {S : Signature} {ε ℓ σ : Type}

/-- A shared state, the threads with what is left of each, and the calls made so
far. A thread is known by its place in the list. -/
structure Pool (S : Signature) (ε ℓ σ : Type) where
  state : σ
  threads : List (ℓ × Prog S ε Unit) := []
  log : List (Nat × Event S) := []

namespace Pool

/-- The calls one thread has made. -/
def own (c : Pool S ε ℓ σ) (t : Nat) : List (Event S) :=
  (c.log.filter fun e => e.1 = t).map Prod.snd

variable (exec : (o : S.Op) → σ → Except ε (S.Ret o) × σ) (prog : ℓ → Prog S ε Unit) (s₀ : σ)

/-- The pools that can come about. A call that fails ends its thread. -/
inductive Reach : Pool S ε ℓ σ → Prop
  | start : Reach ⟨s₀, [], []⟩
  | spawn {c : Pool S ε ℓ σ} (h : Reach c) (l : ℓ) :
      Reach { c with threads := c.threads ++ [(l, prog l)] }
  | call {c : Pool S ε ℓ σ} (h : Reach c) {t : Nat} {l : ℓ} {o : S.Op}
      {k : S.Ret o → Prog S ε Unit} {r : S.Ret o} {s' : σ}
      (ht : c.threads[t]? = some (l, .call o k)) (he : exec o c.state = (.ok r, s')) :
      Reach ⟨s', c.threads.set t (l, k r), c.log ++ [(t, ⟨o, r⟩)]⟩
  | fail {c : Pool S ε ℓ σ} (h : Reach c) {t : Nat} {l : ℓ} {o : S.Op}
      {k : S.Ret o → Prog S ε Unit} {e : ε} {s' : σ}
      (ht : c.threads[t]? = some (l, .call o k)) (he : exec o c.state = (.error e, s')) :
      Reach ⟨s', c.threads.set t (l, .raise e), c.log⟩

variable {exec prog s₀}

theorem own_snoc (s' : σ) (ts : List (ℓ × Prog S ε Unit)) (log : List (Nat × Event S)) (t u : Nat)
    (e : Event S) : (⟨s', ts, log ++ [(t, e)]⟩ : Pool S ε ℓ σ).own u =
      (⟨s', ts, log⟩ : Pool S ε ℓ σ).own u ++ if t = u then [e] else [] := by
  unfold own
  rw [List.filter_append, List.map_append]
  by_cases htu : t = u <;> simp [htu]

/-- Only threads that exist have made calls. -/
theorem Reach.lt_length {c : Pool S ε ℓ σ} (h : Reach exec prog s₀ c) :
    ∀ e ∈ c.log, e.1 < c.threads.length := by
  induction h with
  | start => simp
  | spawn _ l ih =>
    intro e he
    have := ih e he
    simp only [List.length_append, List.length_cons, List.length_nil]
    omega
  | @call c _ t l o k r s' ht he ih =>
    intro e hmem
    rw [List.length_set]
    rcases List.mem_append.mp hmem with hmem | hmem
    · exact ih e hmem
    · rw [List.mem_singleton.mp hmem]
      exact (List.getElem?_eq_some_iff.mp ht).1
  | fail _ ht he ih =>
    intro e hmem
    rw [List.length_set]
    exact ih e hmem

/-- **What a thread has done is a path through its program.** -/
theorem Reach.path {c : Pool S ε ℓ σ} (h : Reach exec prog s₀ c) {t : Nat} {l : ℓ}
    {p : Prog S ε Unit} (ht : c.threads[t]? = some (l, p)) :
    ∃ q, Path (prog l) (c.own t) q ∧ (q = p ∨ ∃ e, p = .raise e) := by
  induction h generalizing t l p with
  | start => simp at ht
  | @spawn c h l' ih =>
    by_cases hold : t < c.threads.length
    · rw [List.getElem?_append_left hold] at ht
      exact ih ht
    · -- The new thread: nothing in the log is its own yet.
      rw [List.getElem?_append_right (by omega)] at ht
      obtain ⟨hlen, hget⟩ := List.getElem?_eq_some_iff.mp ht
      have heq : (l, p) = (l', prog l') := by
        simpa using hget.symm
      obtain ⟨rfl, rfl⟩ := Prod.mk.inj heq
      have hown : own { c with threads := c.threads ++ [(l, prog l)] } t = [] := by
        unfold own
        rw [List.map_eq_nil_iff, List.filter_eq_nil_iff]
        intro e he
        have hlt := h.lt_length e he
        simp only [decide_eq_true_eq]
        omega
      rw [hown]
      exact ⟨_, .nil _, .inl rfl⟩
  | @call c h t' l' o k r s' ht' he ih =>
    rw [own_snoc]
    by_cases htt : t' = t
    · subst htt
      obtain ⟨hlen, -⟩ := List.getElem?_eq_some_iff.mp ht'
      rw [List.getElem?_set_self hlen] at ht
      obtain ⟨rfl, rfl⟩ := Prod.mk.inj (Option.some.inj ht)
      obtain ⟨q, hq, hqp⟩ := ih ht'
      rcases hqp with rfl | ⟨e, hcall⟩
      · rw [if_pos rfl]
        exact ⟨_, hq.snoc r, .inl rfl⟩
      · cases hcall
    · rw [List.getElem?_set_ne htt] at ht
      rw [if_neg htt, List.append_nil]
      exact ih ht
  | @fail c h t' l' o k e s' ht' he ih =>
    by_cases htt : t' = t
    · subst htt
      obtain ⟨hlen, -⟩ := List.getElem?_eq_some_iff.mp ht'
      rw [List.getElem?_set_self hlen] at ht
      obtain ⟨rfl, rfl⟩ := Prod.mk.inj (Option.some.inj ht)
      obtain ⟨q, hq, -⟩ := ih ht'
      exact ⟨q, hq, .inr ⟨e, rfl⟩⟩
    · rw [List.getElem?_set_ne htt] at ht
      exact ih ht

/-- What a thread has done when it is about to make a call. -/
theorem Reach.path_call {c : Pool S ε ℓ σ} (h : Reach exec prog s₀ c) {t : Nat} {l : ℓ} {o : S.Op}
    {k : S.Ret o → Prog S ε Unit} (ht : c.threads[t]? = some (l, .call o k)) :
    Path (prog l) (c.own t) (.call o k) := by
  obtain ⟨q, hq, hqp⟩ := h.path ht
  rcases hqp with rfl | ⟨e, he⟩
  · exact hq
  · cases he

/-- An invariant of the state and the log. A failed call leaves no event. -/
theorem Reach.inv {I : σ → List (Nat × Event S) → Prop} (h₀ : I s₀ [])
    (hcall : ∀ (c : Pool S ε ℓ σ) (t : Nat) (l : ℓ) (o : S.Op) (k : S.Ret o → Prog S ε Unit)
      (r : S.Ret o) (s' : σ), Reach exec prog s₀ c → c.threads[t]? = some (l, .call o k) →
      exec o c.state = (.ok r, s') → I c.state c.log → I s' (c.log ++ [(t, ⟨o, r⟩)]))
    (hfail : ∀ (o : S.Op) (e : ε) (s s' : σ) (log : List (Nat × Event S)),
      exec o s = (.error e, s') → I s log → I s' log)
    {c : Pool S ε ℓ σ} (h : Reach exec prog s₀ c) : I c.state c.log := by
  induction h with
  | start => exact h₀
  | spawn _ l ih => exact ih
  | call h ht he ih => exact hcall _ _ _ _ _ _ _ h ht he ih
  | fail _ _ he ih => exact hfail _ _ _ _ _ he ih

/-- A call in the log was made by some thread. -/
theorem Reach.mem_own {c : Pool S ε ℓ σ} (h : Reach exec prog s₀ c) {t : Nat} {e : Event S}
    (he : (t, e) ∈ c.log) : ∃ l p, c.threads[t]? = some (l, p) ∧ e ∈ c.own t := by
  have hlt := h.lt_length _ he
  refine ⟨_, _, List.getElem?_eq_getElem hlt, ?_⟩
  unfold own
  exact List.mem_map.mpr ⟨(t, e), List.mem_filter.mpr ⟨he, by simp⟩, rfl⟩

/-- A thread that has returned has run its whole program. -/
theorem Reach.yields {c : Pool S ε ℓ σ} (h : Reach exec prog s₀ c) {t : Nat} {l : ℓ} {a : Unit}
    (ht : c.threads[t]? = some (l, .pure a)) : Yields (prog l) (c.own t) a := by
  obtain ⟨q, hq, rfl | ⟨e, he⟩⟩ := h.path ht
  · exact hq
  · cases he

/-! ## One thread after the other -/

/-- The calls a program makes when it runs alone. -/
def events {α : Type} (exec : (o : S.Op) → σ → Except ε (S.Ret o) × σ) :
    Prog S ε α → σ → List (Event S)
  | .pure _, _ => []
  | .raise _, _ => []
  | .call o k, s =>
    match exec o s with
    | (.ok r, s') => ⟨o, r⟩ :: events exec (k r) s'
    | (.error _, _) => []

/-- What is left of a program that has run to its end. -/
def ended : Except ε Unit → Prog S ε Unit
  | .ok a => .pure a
  | .error e => .raise e

/-- Start a thread and let it run alone. -/
def serve (exec : (o : S.Op) → σ → Except ε (S.Ret o) × σ) (prog : ℓ → Prog S ε Unit)
    (c : Pool S ε ℓ σ) (l : ℓ) : Pool S ε ℓ σ where
  state := ((prog l).run exec c.state).2
  threads := c.threads ++ [(l, ended ((prog l).run exec c.state).1)]
  log := c.log ++ (events exec (prog l) c.state).map fun e => (c.threads.length, e)

/-- A thread may run on alone. -/
theorem Reach.alone {c : Pool S ε ℓ σ} (h : Reach exec prog s₀ c) {t : Nat} {l : ℓ}
    {p : Prog S ε Unit} (ht : c.threads[t]? = some (l, p)) :
    Reach exec prog s₀ ⟨(p.run exec c.state).2, c.threads.set t (l, ended (p.run exec c.state).1),
      c.log ++ (events exec p c.state).map fun e => (t, e)⟩ := by
  obtain ⟨hlen, hget⟩ := List.getElem?_eq_some_iff.mp ht
  induction p generalizing c with
  | pure a =>
    have hset : c.threads.set t (l, Prog.pure a) = c.threads := by
      rw [← hget, List.set_getElem_self]
    simpa [ended, events, hset] using h
  | raise e =>
    have hset : c.threads.set t (l, Prog.raise e) = c.threads := by
      rw [← hget, List.set_getElem_self]
    simpa [ended, events, hset] using h
  | call o k ih =>
    rcases he : exec o c.state with ⟨e | r, s'⟩
    · simpa [run_call_error he, events, he, ended] using h.fail ht he
    · have hnext := h.call ht he
      have hlen' : t < (c.threads.set t (l, k r)).length := by
        rw [List.length_set]
        exact hlen
      have := ih r hnext (List.getElem?_set_self hlen) hlen' (List.getElem_set_self hlen')
      simpa [run_call_ok he, events, he] using this

theorem Reach.serve {c : Pool S ε ℓ σ} (h : Reach exec prog s₀ c) (l : ℓ) :
    Reach exec prog s₀ (c.serve exec prog l) := by
  have ht : (c.threads ++ [(l, prog l)])[c.threads.length]? = some (l, prog l) := by simp
  have := (h.spawn l).alone ht
  simpa [Pool.serve] using this

/-- Threads served one after the other are one of the executions. -/
theorem Reach.serveAll (ls : List ℓ) :
    Reach exec prog s₀ (ls.foldl (Pool.serve exec prog) ⟨s₀, [], []⟩) := by
  have hall : ∀ c : Pool S ε ℓ σ, Reach exec prog s₀ c →
      Reach exec prog s₀ (ls.foldl (Pool.serve exec prog) c) := by
    induction ls with
    | nil => exact fun c h => h
    | cons l ls ih => exact fun c h => ih _ (h.serve l)
  exact hall _ .start

end Pool

end Ciphertext
