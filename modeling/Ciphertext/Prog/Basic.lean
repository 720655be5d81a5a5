import Mathlib.Logic.Basic
import Mathlib.Data.List.Basic

/-!
# Programs over a signature of atomic calls

A handler of a threaded service is a sequence of calls on shared objects, each
atomic behind its own lock, with ordinary code between them. `Prog S ε α` is
that shape: it either returns, raises, or makes one call of the signature `S`
and goes on with whatever the call answered. One program then has two meanings,
and they are compared rather than written twice:

* `Prog.run` executes it in one piece against a deterministic `exec`, which is
  what "the handler ran alone" means;
* a thread pool executes it one call at a time, with other threads between the
  calls (`Prog/Threads.lean`).

A call that fails raises out of the program: the state keeps what the calls
before it did, exactly as an exception leaves a half-finished handler.
-/

namespace Ciphertext

/-- The calls a program may make, and what each of them answers. -/
structure Signature where
  Op : Type
  Ret : Op → Type

/-- A program that makes calls of `S`, may raise an `ε`, and returns an `α`. -/
inductive Prog (S : Signature) (ε α : Type) where
  | pure (a : α)
  | raise (e : ε)
  | call (o : S.Op) (k : S.Ret o → Prog S ε α)

namespace Prog

variable {S : Signature} {ε α β γ σ : Type}

/-- Sequential composition: the rest runs on whatever the first part returned. -/
protected def bind : Prog S ε α → (α → Prog S ε β) → Prog S ε β
  | .pure a, f => f a
  | .raise e, _ => .raise e
  | .call o k, f => .call o fun r => (k r).bind f

instance : Monad (Prog S ε) where
  pure := .pure
  bind := .bind

@[simp] theorem pure_def (a : α) : (Pure.pure a : Prog S ε α) = .pure a := rfl

@[simp] theorem pure_bind' (a : α) (f : α → Prog S ε β) : (Prog.pure a >>= f) = f a := rfl

@[simp] theorem raise_bind (e : ε) (f : α → Prog S ε β) :
    ((Prog.raise e : Prog S ε α) >>= f) = .raise e := rfl

@[simp] theorem call_bind (o : S.Op) (k : S.Ret o → Prog S ε α) (f : α → Prog S ε β) :
    (Prog.call o k >>= f) = .call o fun r => k r >>= f := rfl

/-- Sequencing associates: the second law of a monad. -/
theorem bind_assoc' (p : Prog S ε α) (f : α → Prog S ε β) (g : β → Prog S ε γ) :
    (p >>= f) >>= g = p >>= fun a => f a >>= g := by
  induction p with
  | pure a => rfl
  | raise e => rfl
  | call o k ih =>
    simp only [call_bind]
    exact congrArg (Prog.call o) (funext fun r => ih r)

/-- Returning what came last changes nothing: the third. -/
theorem bind_pure' (p : Prog S ε α) : (p >>= fun a => (Prog.pure a : Prog S ε α)) = p := by
  induction p with
  | pure a => rfl
  | raise e => rfl
  | call o k ih =>
    simp only [call_bind]
    exact congrArg (Prog.call o) (funext fun r => ih r)

instance : LawfulMonad (Prog S ε) :=
  LawfulMonad.mk' (Prog S ε) (fun p => bind_pure' p) (fun _ _ => rfl) bind_assoc'

/-- A `for` loop whose body returns nothing: one pass per element, in order. -/
def forEach : List β → (β → Prog S ε Unit) → Prog S ε Unit
  | [], _ => .pure ()
  | x :: xs, f => f x >>= fun _ => forEach xs f

@[simp] theorem forEach_nil (f : β → Prog S ε Unit) : forEach [] f = .pure () := rfl

@[simp] theorem forEach_cons (x : β) (xs : List β) (f : β → Prog S ε Unit) :
    forEach (x :: xs) f = f x >>= fun _ => forEach xs f := rfl

/-! ## Running a program in one piece -/

/-- Run a program alone against a deterministic `exec`. -/
def run (exec : (o : S.Op) → σ → Except ε (S.Ret o) × σ) :
    Prog S ε α → σ → Except ε α × σ
  | .pure a, s => (.ok a, s)
  | .raise e, s => (.error e, s)
  | .call o k, s =>
    match exec o s with
    | (.ok r, s') => (k r).run exec s'
    | (.error e, s') => (.error e, s')

section Run

variable {exec : (o : S.Op) → σ → Except ε (S.Ret o) × σ}

@[simp] theorem run_pure (a : α) (s : σ) : (Prog.pure a : Prog S ε α).run exec s = (.ok a, s) := rfl

@[simp] theorem run_raise (e : ε) (s : σ) :
    (Prog.raise e : Prog S ε α).run exec s = (.error e, s) := rfl

/-- A call hands its answer on, or stops the program with what it raised. -/
theorem run_call (o : S.Op) (k : S.Ret o → Prog S ε α) (s : σ) :
    (Prog.call o k).run exec s =
      match exec o s with
      | (.ok r, s') => (k r).run exec s'
      | (.error e, s') => (.error e, s') := by
  rw [run]

/-- The first of the two, as a rewriting step. -/
theorem run_call_ok {o : S.Op} {k : S.Ret o → Prog S ε α} {s s' : σ} {r : S.Ret o}
    (h : exec o s = (.ok r, s')) : (Prog.call o k).run exec s = (k r).run exec s' := by
  rw [run_call, h]

/-- And the second. -/
theorem run_call_error {o : S.Op} {k : S.Ret o → Prog S ε α} {s s' : σ} {e : ε}
    (h : exec o s = (.error e, s')) : (Prog.call o k).run exec s = (.error e, s') := by
  rw [run_call, h]

/-- A program of one call runs as the call does. -/
theorem run_call_pure (o : S.Op) (s : σ) :
    (Prog.call o .pure : Prog S ε (S.Ret o)).run exec s = exec o s := by
  rw [run_call]
  rcases exec o s with ⟨e | r, s'⟩ <;> rfl

/-- A composite raises where its first part raised, and otherwise runs the rest
on the value and the state the first part left. -/
theorem run_bind (p : Prog S ε α) (f : α → Prog S ε β) (s : σ) :
    (p >>= f).run exec s =
      match p.run exec s with
      | (.ok a, s') => (f a).run exec s'
      | (.error e, s') => (.error e, s') := by
  induction p generalizing s with
  | pure a => rfl
  | raise e => rfl
  | call o k ih =>
    rw [call_bind, run_call, run_call]
    rcases exec o s with ⟨e | r, s'⟩
    · rfl
    · exact ih r s'

/-- A sequence runs its second part where the first has returned. -/
theorem run_bind_ok {p : Prog S ε α} {f : α → Prog S ε β} {s s' : σ} {a : α}
    (h : p.run exec s = (.ok a, s')) : (p >>= f).run exec s = (f a).run exec s' := by
  rw [run_bind, h]

/-- A composite that returned: its first part did, and the rest after it. -/
theorem run_bind_eq_ok {p : Prog S ε α} {f : α → Prog S ε β} {s s' : σ} {b : β}
    (h : (p >>= f).run exec s = (.ok b, s')) :
    ∃ a s₁, p.run exec s = (.ok a, s₁) ∧ (f a).run exec s₁ = (.ok b, s') := by
  rw [run_bind] at h
  rcases hp : p.run exec s with ⟨e | a, s₁⟩ <;> rw [hp] at h
  · cases h
  · exact ⟨a, s₁, rfl, h⟩

end Run

end Prog

end Ciphertext
