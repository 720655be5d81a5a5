import Ciphertext.Prog.Basic

/-!
# Reasoning about programs: footprints, invariants, two runs

Four judgements, each closed under composition and loops, so that a handler is
checked by walking its text once:

* `Uses A p` — every call `p` can make, whatever the earlier calls answered,
  is one that `A` allows. It mentions no state, and is the cheapest: an
  invariant every allowed call keeps is kept by the whole program (`Uses.keeps`).
* `Keeps exec I p Φ` — from a state with `I`, `p` ends in one with `I`, and a
  value it returns satisfies `Φ`. It may raise.
* `Total exec I p Q` — from a state with `I`, `p` returns, and `Q` holds of
  what it returns and the state it leaves.
* `Sim exec R A p q` — from two states related by `R`, running `p` in the one
  and `q` in the other ends in related states, and their outcomes agree as far
  as `A` says.
-/

namespace Ciphertext

namespace Prog

variable {S : Signature} {ε α β γ δ σ : Type}

/-! ## Footprints -/

/-- Every call the program can make is allowed by `A`. -/
def Uses (A : S.Op → Prop) : Prog S ε α → Prop
  | .pure _ => True
  | .raise _ => True
  | .call o k => A o ∧ ∀ r, (k r).Uses A

section Uses

variable {A B : S.Op → Prop}

@[simp] theorem uses_pure (a : α) : (Prog.pure a : Prog S ε α).Uses A := trivial

@[simp] theorem uses_raise (e : ε) : (Prog.raise e : Prog S ε α).Uses A := trivial

@[simp] theorem uses_call {o : S.Op} {k : S.Ret o → Prog S ε α} :
    (Prog.call o k).Uses A ↔ A o ∧ ∀ r, (k r).Uses A := Iff.rfl

/-- What a sequence calls is what its parts call. -/
theorem Uses.bind {p : Prog S ε α} {f : α → Prog S ε β} (hp : p.Uses A)
    (hf : ∀ a, (f a).Uses A) : (p >>= f).Uses A := by
  induction p with
  | pure a => exact hf a
  | raise e => trivial
  | call o k ih => exact ⟨hp.1, fun r => ih r (hp.2 r)⟩

/-- A wider allowance is met as well. -/
theorem Uses.mono {p : Prog S ε α} (hp : p.Uses A) (h : ∀ o, A o → B o) : p.Uses B := by
  induction p with
  | pure a => trivial
  | raise e => trivial
  | call o k ih => exact ⟨h o hp.1, fun r => ih r (hp.2 r)⟩

/-- Every program uses some calls. -/
theorem uses_any (p : Prog S ε α) : p.Uses fun _ => True := by
  induction p with
  | pure a => trivial
  | raise e => trivial
  | call o k ih => exact ⟨trivial, ih⟩

/-- A loop calls what its body calls. -/
theorem uses_forEach {xs : List β} {f : β → Prog S ε Unit} (h : ∀ x ∈ xs, (f x).Uses A) :
    (forEach xs f).Uses A := by
  induction xs with
  | nil => trivial
  | cons x xs ih =>
    exact Uses.bind (h x (List.mem_cons_self ..)) fun _ =>
      ih fun y hy => h y (List.mem_cons_of_mem _ hy)

end Uses

/-! ## Invariants -/

section Keeps

variable (exec : (o : S.Op) → σ → Except ε (S.Ret o) × σ) (I : σ → Prop)

/-- From a state with `I` the program ends in one with `I`, and what it returns
satisfies `Φ`. -/
def Keeps (p : Prog S ε α) (Φ : α → Prop) : Prop :=
  ∀ s, I s → I (p.run exec s).2 ∧ ∀ a, (p.run exec s).1 = .ok a → Φ a

variable {exec I} {Φ Φ' : α → Prop} {Ψ : β → Prop}

/-- Returning changes no state. -/
theorem keeps_pure {a : α} (h : Φ a) : Keeps exec I (.pure a) Φ := by
  intro s hs
  refine ⟨hs, fun b hb => ?_⟩
  injection hb with hb
  exact hb ▸ h

/-- Nor does raising, and what is returned is then free. -/
theorem keeps_raise (e : ε) : Keeps exec I (.raise e) Φ := by
  intro s hs
  exact ⟨hs, fun b hb => by simp at hb⟩

/-- What is said of the value can be weakened. -/
theorem Keeps.mono {p : Prog S ε α} (hp : Keeps exec I p Φ) (h : ∀ a, Φ a → Φ' a) :
    Keeps exec I p Φ' :=
  fun s hs => ⟨(hp s hs).1, fun a ha => h a ((hp s hs).2 a ha)⟩

/-- The invariant goes through a sequence, with what the first part returned at hand in the
second. -/
theorem Keeps.bind {p : Prog S ε α} {f : α → Prog S ε β} (hp : Keeps exec I p Φ)
    (hf : ∀ a, Φ a → Keeps exec I (f a) Ψ) : Keeps exec I (p >>= f) Ψ := by
  intro s hs
  obtain ⟨hI, hΦ⟩ := hp s hs
  rw [run_bind]
  rcases hr : p.run exec s with ⟨e | a, s'⟩
  · rw [hr] at hI
    exact ⟨hI, fun b hb => by simp at hb⟩
  · rw [hr] at hI hΦ
    exact hf a (hΦ a rfl) s' hI

/-- An invariant that every allowed call keeps, whatever it answers. -/
theorem Uses.keeps {A : S.Op → Prop} {p : Prog S ε α} (hp : p.Uses A)
    (h : ∀ o, A o → ∀ s, I s → I (exec o s).2) : Keeps exec I p fun _ => True := by
  induction p with
  | pure a => exact keeps_pure trivial
  | raise e => exact keeps_raise e
  | call o k ih =>
    intro s hs
    have hI := h o hp.1 s hs
    rw [run_call]
    rcases hr : exec o s with ⟨e | r, s'⟩
    · rw [hr] at hI
      exact ⟨hI, fun _ _ => trivial⟩
    · rw [hr] at hI
      exact ih r (hp.2 r) s' hI

end Keeps

/-! ## Programs that return -/

section Total

variable (exec : (o : S.Op) → σ → Except ε (S.Ret o) × σ)

/-- From a state with `I` the program returns, and `Q` holds of the value and
the state after it. -/
def Total (I : σ → Prop) (p : Prog S ε α) (Q : α → σ → Prop) : Prop :=
  ∀ s, I s → ∃ a s', p.run exec s = (.ok a, s') ∧ Q a s'

variable {exec} {I J : σ → Prop} {Q Q' : α → σ → Prop} {R : β → σ → Prop}

/-- Returning raises nothing. -/
theorem total_pure {a : α} (h : ∀ s, I s → Q a s) : Total exec I (.pure a) Q :=
  fun s hs => ⟨a, s, rfl, h s hs⟩

/-- A call is total where every state it may find answers it. -/
theorem total_call {o : S.Op} {Q : S.Ret o → σ → Prop}
    (h : ∀ s, I s → ∃ r s', exec o s = (.ok r, s') ∧ Q r s') :
    Total exec I (.call o .pure) Q := by
  intro s hs
  rw [run_call_pure]
  exact h s hs

/-- The rule of consequence. -/
theorem Total.conseq {p : Prog S ε α} (hp : Total exec I p Q) (hI : ∀ s, J s → I s)
    (hQ : ∀ a s, Q a s → Q' a s) : Total exec J p Q' := by
  intro s hs
  obtain ⟨a, s', hrun, hq⟩ := hp s (hI s hs)
  exact ⟨a, s', hrun, hQ a s' hq⟩

/-- The rule of composition: the first part's postcondition is the precondition of the
second. -/
theorem Total.bind {p : Prog S ε α} {f : α → Prog S ε β} (hp : Total exec I p Q)
    (hf : ∀ a, Total exec (Q a) (f a) R) : Total exec I (p >>= f) R := by
  intro s hs
  obtain ⟨a, s', hrun, hq⟩ := hp s hs
  rw [run_bind_ok hrun]
  exact hf a s' hq

/-- A loop whose body keeps `I`. -/
theorem total_forEach {xs : List γ} {f : γ → Prog S ε Unit}
    (h : ∀ x ∈ xs, Total exec I (f x) fun _ => I) : Total exec I (forEach xs f) fun _ => I := by
  induction xs with
  | nil => exact total_pure fun _ hs => hs
  | cons x xs ih =>
    exact (h x (List.mem_cons_self ..)).bind fun _ =>
      ih fun y hy => h y (List.mem_cons_of_mem _ hy)

end Total

/-! ## Two runs side by side -/

section Sim

variable (exec : (o : S.Op) → σ → Except ε (S.Ret o) × σ) (R : σ → σ → Prop)

/-- Outcomes that agree: values related by `A`, or both exceptions. -/
def OkRel (A : α → β → Prop) : Except ε α → Except ε β → Prop
  | .ok a, .ok b => A a b
  | .error _, .error _ => True
  | _, _ => False

/-- Related states stay related, and the outcomes agree as far as `A` says. -/
def Sim (A : Except ε α → Except ε β → Prop) (p : Prog S ε α) (q : Prog S ε β) : Prop :=
  ∀ s t, R s t → R (p.run exec s).2 (q.run exec t).2 ∧ A (p.run exec s).1 (q.run exec t).1

variable {exec R} {A : α → β → Prop} {B : Except ε γ → Except ε δ → Prop}

/-- Two values that correspond. -/
theorem sim_pure {a : α} {b : β} (h : A a b) :
    Sim exec R (OkRel A) (.pure a) (.pure b) := fun _ _ hst => ⟨hst, h⟩

/-- Two programs that raise correspond, whatever they raise. -/
theorem sim_raise (e e' : ε) :
    Sim exec R (OkRel A) (.raise e : Prog S ε α) (.raise e' : Prog S ε β) :=
  fun _ _ hst => ⟨hst, trivial⟩

/-- The rest may be compared as loosely as `B` likes, as long as two exceptions
always count as agreeing. -/
theorem Sim.bind {p : Prog S ε α} {q : Prog S ε β} {f : α → Prog S ε γ} {g : β → Prog S ε δ}
    (hp : Sim exec R (OkRel A) p q) (hB : ∀ e e', B (.error e) (.error e'))
    (hf : ∀ a b, A a b → Sim exec R B (f a) (g b)) : Sim exec R B (p >>= f) (q >>= g) := by
  intro s t hst
  obtain ⟨hR, hA⟩ := hp s t hst
  rw [run_bind, run_bind]
  rcases hr : p.run exec s with ⟨e | a, s'⟩ <;> rcases hq : q.run exec t with ⟨e' | b, t'⟩ <;>
    rw [hr, hq] at hR hA
  · exact ⟨hR, hB e e'⟩
  · exact hA.elim
  · exact hA.elim
  · exact hf a b hA s' t' hR

/-- Two loops correspond step by step over lists that do. -/
theorem sim_forEach {T : γ → δ → Prop} {xs : List γ} {ys : List δ} {f : γ → Prog S ε Unit}
    {g : δ → Prog S ε Unit} (hxy : List.Forall₂ T xs ys)
    (h : ∀ x y, T x y → Sim exec R (OkRel fun _ _ => True) (f x) (g y)) :
    Sim exec R (OkRel fun _ _ => True) (forEach xs f) (forEach ys g) := by
  induction hxy with
  | nil => exact sim_pure trivial
  | cons hx _ ih => exact (h _ _ hx).bind (fun _ _ => trivial) fun _ _ _ => ih

/-- A program compared with itself, when the calls it can make answer the same
on both sides. -/
theorem Uses.sim {C : S.Op → Prop} {p : Prog S ε α} (hp : p.Uses C)
    (h : ∀ o, C o → Sim exec R (OkRel (· = ·)) (.call o .pure : Prog S ε (S.Ret o)) (.call o .pure)) :
    Sim exec R (OkRel (· = ·)) p p := by
  induction p with
  | pure a => exact sim_pure rfl
  | raise e => exact sim_raise e e
  | call o k ih =>
    have hbind : ∀ a b : S.Ret o, a = b → Sim exec R (OkRel (· = ·)) (k a) (k b) := by
      intro a b hab
      subst hab
      exact ih a (hp.2 a)
    exact (h o hp.1).bind (fun _ _ => trivial) hbind

end Sim

end Prog

end Ciphertext
