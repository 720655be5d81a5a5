import Ciphertext.Prog.Logic

/-!
# Keeping to terms

`Uses` forgets what the calls answered. Where a program may write only what an
earlier call has vouched for, the answers matter: `Terms` says which calls are
allowed and what each can answer, and `Prog.Abides` that a program makes only
those calls as long as it gets such answers. An invariant of the state that
makes the answers come true, and that the allowed calls keep, is kept by the
program (`Abides.run`).

The check walks the program's text, a call at a time, with the answers it may have got at
hand; where the answers do not matter `Uses.abides` does it in one step. In the invariant
the terms are an argument, so a program that is interrupted after some call has still kept
to them, and the invariant holds where it was interrupted.
-/

namespace Ciphertext

/-- The calls that are allowed, and what each of them can answer. -/
structure Terms (S : Signature) where
  may : S.Op → Prop
  answers : (o : S.Op) → S.Ret o → Prop

namespace Prog

variable {S : Signature} {ε α β γ σ : Type}

/-- The program keeps to the terms, and what it returns satisfies `Q`. It may
raise anywhere. -/
def Abides (T : Terms S) (Q : α → Prop) : Prog S ε α → Prop
  | .pure a => Q a
  | .raise _ => True
  | .call o k => T.may o ∧ ∀ r, T.answers o r → (k r).Abides T Q

variable {T : Terms S} {Q Q' : α → Prop} {R : β → Prop}

theorem abides_pure {a : α} (h : Q a) : (Prog.pure a : Prog S ε α).Abides T Q := h

theorem abides_raise (e : ε) : (Prog.raise e : Prog S ε α).Abides T Q := trivial

/-- One call, then the rest. -/
theorem abides_call {o : S.Op} {f : S.Ret o → Prog S ε β} (hmay : T.may o)
    (hf : ∀ r, T.answers o r → (f r).Abides T R) :
    ((Prog.call o .pure : Prog S ε (S.Ret o)) >>= f).Abides T R := ⟨hmay, hf⟩

theorem Abides.bind {p : Prog S ε α} {f : α → Prog S ε β} (hp : p.Abides T Q)
    (hf : ∀ a, Q a → (f a).Abides T R) : (p >>= f).Abides T R := by
  induction p with
  | pure a => exact hf a hp
  | raise e => trivial
  | call o k ih => exact ⟨hp.1, fun r hr => ih r (hp.2 r hr)⟩

theorem Abides.mono {p : Prog S ε α} (hp : p.Abides T Q) (h : ∀ a, Q a → Q' a) :
    p.Abides T Q' := by
  induction p with
  | pure a => exact h a hp
  | raise e => trivial
  | call o k ih => exact ⟨hp.1, fun r hr => ih r (hp.2 r hr)⟩

theorem abides_forEach {xs : List γ} {f : γ → Prog S ε Unit}
    (h : ∀ x ∈ xs, (f x).Abides T fun _ => True) :
    (forEach xs f).Abides T fun _ => True := by
  induction xs with
  | nil => exact abides_pure trivial
  | cons x xs ih =>
    exact (h x (List.mem_cons_self ..)).bind fun _ _ =>
      ih fun y hy => h y (List.mem_cons_of_mem _ hy)

/-- Calls that are allowed whatever was answered. -/
theorem Uses.abides {A : S.Op → Prop} {p : Prog S ε α} (hp : p.Uses A) (h : ∀ o, A o → T.may o) :
    p.Abides T fun _ => True := by
  induction p with
  | pure a => trivial
  | raise e => trivial
  | call o k ih => exact ⟨h o hp.1, fun r _ => ih r (hp.2 r)⟩

/-- **The rule for runs.** In a state with `I` an allowed call answers as the
terms say and keeps `I`. -/
theorem Abides.run {exec : (o : S.Op) → σ → Except ε (S.Ret o) × σ} {I : σ → Prop}
    (hcall : ∀ o s, T.may o → I s →
      I (exec o s).2 ∧ ∀ r, (exec o s).1 = .ok r → T.answers o r)
    {p : Prog S ε α} (hp : p.Abides T Q) : Keeps exec I p Q := by
  induction p with
  | pure a => exact keeps_pure hp
  | raise e => exact keeps_raise e
  | call o k ih =>
    intro s hs
    obtain ⟨hI, hanswer⟩ := hcall o s hp.1 hs
    rw [run_call]
    rcases hr : exec o s with ⟨e | r, s'⟩
    · rw [hr] at hI
      exact ⟨hI, fun _ h => by simp at h⟩
    · rw [hr] at hI hanswer
      exact ih r (hp.2 r (hanswer r rfl)) s' hI

end Prog

end Ciphertext
