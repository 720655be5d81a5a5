import Mathlib.Logic.Basic
import Mathlib.Data.List.Basic

/-!
# Code that changes a state and may raise

`Act σ ε` is a method body of a single-threaded object: it reads and assigns the
fields of a `σ`, and an exception it raises leaves them as they were at that
point. Three judgements about it, each closed under composition, loops and
`try`/`except`:

* `Ends m s Q X` — from `s`, the value `m` returns and the state it leaves
  satisfy `Q`, or the exception and the state satisfy `X`;
* `Steps G m` — whatever it does and however it ends, `m` changes the state by
  the preorder `G`;
* `Sim R A m n` — from two states related by `R`, `m` and `n` both return,
  with results related by `A`, or both raise the same exception, and the states
  they leave are related by `R`.
-/

namespace Ciphertext

/-- Code over a state `σ` that may raise an `ε`. -/
abbrev Act (σ ε : Type) := ExceptT ε (StateM σ)

namespace Act

variable {σ ε α β γ δ : Type}

/-- Run the code: what it returns or raises, and the state it leaves. -/
def exec (m : Act σ ε α) (s : σ) : Except ε α × σ := m s

@[simp] theorem exec_pure (a : α) (s : σ) : exec (pure a : Act σ ε α) s = (.ok a, s) := rfl

@[simp] theorem exec_throw (e : ε) (s : σ) : exec (throw e : Act σ ε α) s = (.error e, s) := rfl

@[simp] theorem exec_get (s : σ) : exec (get : Act σ ε σ) s = (.ok s, s) := rfl

@[simp] theorem exec_modify (f : σ → σ) (s : σ) :
    exec (modify f : Act σ ε PUnit) s = (.ok ⟨⟩, f s) := rfl

/-- Where the first part raises, the second does not start. -/
theorem exec_bind (m : Act σ ε α) (f : α → Act σ ε β) (s : σ) :
    exec (m >>= f) s =
      match exec m s with
      | (.ok a, s') => exec (f a) s'
      | (.error e, s') => (.error e, s') := by
  show (ExceptT.bind m f : Act σ ε β) s = _
  rcases hm : exec m s with ⟨e | a, s'⟩
  · simp only [exec] at hm ⊢
    simp only [ExceptT.bind, ExceptT.mk, bind, StateT.bind, hm]
    rfl
  · simp only [exec] at hm ⊢
    simp only [ExceptT.bind, ExceptT.mk, bind, StateT.bind, hm]
    rfl

/-- A handler starts in the state the exception left, not in the one the body found. -/
theorem exec_tryCatch (m : Act σ ε α) (h : ε → Act σ ε α) (s : σ) :
    exec (tryCatch m h) s =
      match exec m s with
      | (.ok a, s') => (.ok a, s')
      | (.error e, s') => exec (h e) s' := by
  show (ExceptT.tryCatch m h : Act σ ε α) s = _
  rcases hm : exec m s with ⟨e | a, s'⟩
  · simp only [exec] at hm ⊢
    simp only [ExceptT.tryCatch, ExceptT.mk, bind, StateT.bind, hm]
  · simp only [exec] at hm ⊢
    simp only [ExceptT.tryCatch, ExceptT.mk, bind, StateT.bind, hm]
    rfl

/-! ## One run -/

section Ends

/-- From `s`, the code returns in `Q` or raises in `X`. -/
def Ends (m : Act σ ε α) (s : σ) (Q : α → σ → Prop) (X : ε → σ → Prop) : Prop :=
  match exec m s with
  | (.ok a, s') => Q a s'
  | (.error e, s') => X e s'

variable {Q : α → σ → Prop} {X : ε → σ → Prop}

/-- Returning ends as required if the value does. -/
theorem ends_pure {a : α} {s : σ} (h : Q a s) : Ends (pure a) s Q X := h

/-- Raising, if the exception does. -/
theorem ends_throw {e : ε} {s : σ} (h : X e s) : Ends (throw e : Act σ ε α) s Q X := h

/-- What the run is. -/
theorem ends_exec (m : Act σ ε α) (s : σ) :
    Ends m s (fun a s' => exec m s = (.ok a, s')) (fun e s' => exec m s = (.error e, s')) := by
  unfold Ends
  rcases exec m s with ⟨e | a, s'⟩
  · rfl
  · rfl

/-- The rule of composition. -/
theorem Ends.bind {m : Act σ ε β} {f : β → Act σ ε α} {Q' : β → σ → Prop} {s : σ}
    (hm : Ends m s Q' X) (hf : ∀ b s', Q' b s' → Ends (f b) s' Q X) : Ends (m >>= f) s Q X := by
  unfold Ends at hm ⊢
  rw [exec_bind]
  rcases h : exec m s with ⟨e | b, s'⟩ <;> rw [h] at hm
  · exact hm
  · exact hf b s' hm

/-- Reading the state puts it into the program that follows. -/
theorem ends_get {f : σ → Act σ ε α} {s : σ} (h : Ends (f s) s Q X) : Ends (get >>= f) s Q X := by
  unfold Ends at h ⊢
  rw [exec_bind]
  exact h

/-- An assignment ends in the assigned state. -/
theorem ends_modify {f : σ → σ} {Q : PUnit → σ → Prop} {s : σ} (h : Q ⟨⟩ (f s)) :
    Ends (modify f : Act σ ε PUnit) s Q X := h

/-- Followed by a program, it starts it there. -/
theorem ends_modify_bind {f : σ → σ} {g : PUnit → Act σ ε α} {s : σ} (h : Ends (g ⟨⟩) (f s) Q X) :
    Ends (modify f >>= g) s Q X := by
  unfold Ends at h ⊢
  rw [exec_bind]
  exact h

/-- The rule of consequence. -/
theorem Ends.mono {m : Act σ ε α} {s : σ} {Q' : α → σ → Prop} {X' : ε → σ → Prop}
    (h : Ends m s Q X) (hQ : ∀ a s, Q a s → Q' a s) (hX : ∀ e s, X e s → X' e s) :
    Ends m s Q' X' := by
  unfold Ends at h ⊢
  rcases hm : exec m s with ⟨e | a, s'⟩ <;> rw [hm] at h
  · exact hX e s' h
  · exact hQ a s' h

/-- What holds however it ends, holds in the end. -/
theorem Ends.final {m : Act σ ε α} {s : σ} {P : σ → Prop} (h : Ends m s (fun _ s' => P s') fun _ s' => P s') :
    P (exec m s).2 := by
  unfold Ends at h
  rcases hm : exec m s with ⟨e | a, s'⟩ <;> rw [hm] at h
  · exact h
  · exact h

/-- Two things known of one run. -/
theorem Ends.and {m : Act σ ε α} {s : σ} {Q' : α → σ → Prop} {X' : ε → σ → Prop} (h : Ends m s Q X)
    (h' : Ends m s Q' X') : Ends m s (fun a s' => Q a s' ∧ Q' a s') fun e s' => X e s' ∧ X' e s' := by
  unfold Ends at h h' ⊢
  cases hm : exec m s with
  | mk r s' =>
    rw [hm] at h h'
    cases r with
    | ok a => exact ⟨h, h'⟩
    | error e => exact ⟨h, h'⟩

/-- A handler has the body's exceptional postcondition as its precondition. -/
theorem Ends.tryCatch {m : Act σ ε α} {h : ε → Act σ ε α} {s : σ} {X' : ε → σ → Prop}
    (hm : Ends m s Q X') (hh : ∀ e s', X' e s' → Ends (h e) s' Q X) :
    Ends (tryCatch m h) s Q X := by
  unfold Ends at hm ⊢
  rw [exec_tryCatch]
  rcases hs : exec m s with ⟨e | a, s'⟩ <;> rw [hs] at hm
  · exact hh e s' hm
  · exact hm

/-- Each branch under its own condition. -/
theorem ends_ite {p : Prop} [Decidable p] {m m' : Act σ ε α} {s : σ} (h : p → Ends m s Q X)
    (h' : ¬ p → Ends m' s Q X) : Ends (if p then m else m') s Q X := by
  by_cases hp : p
  · rw [if_pos hp]
    exact h hp
  · rw [if_neg hp]
    exact h' hp

/-- What cannot raise returns. -/
theorem Ends.returns {m : Act σ ε α} {s : σ} (h : Ends m s Q fun _ _ => False) :
    ∃ a s', exec m s = (.ok a, s') ∧ Q a s' := by
  unfold Ends at h
  rcases hm : exec m s with ⟨e | a, s'⟩ <;> rw [hm] at h
  · exact h.elim
  · exact ⟨a, s', rfl, h⟩

/-- A loop, with an invariant of the elements still to come. -/
theorem ends_forM {xs : List β} {f : β → Act σ ε PUnit} {I : List β → σ → Prop} {s : σ}
    (hs : I xs s) (hf : ∀ x xs s, I (x :: xs) s → Ends (f x) s (fun _ s' => I xs s') X) :
    Ends (xs.forM f) s (fun _ s' => I [] s') X := by
  induction xs generalizing s with
  | nil => exact hs
  | cons x xs ih => exact (hf x xs s hs).bind fun _ s' hs' => ih hs'

end Ends

/-! ## What a run changes -/

section Steps

variable (G : σ → σ → Prop)

/-- Every run of the code changes the state by `G`, whether it returns or
raises. -/
def Steps (m : Act σ ε α) : Prop := ∀ s, G s (exec m s).2

variable {G}

/-- A program that returns stays where it is, -/
theorem steps_pure (hr : ∀ s, G s s) (a : α) : Steps G (pure a : Act σ ε α) := hr

/-- and so does one that raises. -/
theorem steps_throw (hr : ∀ s, G s s) (e : ε) : Steps G (throw e : Act σ ε α) := hr

/-- An assignment moves as its function does. -/
theorem steps_modify {f : σ → σ} (h : ∀ s, G s (f s)) : Steps G (modify f : Act σ ε PUnit) := h

/-- The first part from one state only. -/
theorem steps_bind_at {m : Act σ ε α} {f : α → Act σ ε β} {s : σ} (ht : ∀ a b c, G a b → G b c → G a c)
    (hm : G s (exec m s).2) (hf : ∀ a, Steps G (f a)) : G s (exec (m >>= f) s).2 := by
  rw [exec_bind]
  cases hs : exec m s with
  | mk r s' =>
    rw [hs] at hm
    cases r with
    | error e => exact hm
    | ok a => exact ht _ _ _ hm (hf a s')

/-- A transitive relation goes through a sequence, -/
theorem Steps.bind {m : Act σ ε α} {f : α → Act σ ε β} (ht : ∀ a b c, G a b → G b c → G a c)
    (hm : Steps G m) (hf : ∀ a, Steps G (f a)) : Steps G (m >>= f) := fun s => steps_bind_at ht (hm s) hf

/-- What was read can be used in what follows. -/
theorem steps_get {f : σ → Act σ ε α} (h : ∀ s, G s (exec (f s) s).2) : Steps G (get >>= f) := by
  intro s
  rw [exec_bind]
  exact h s

/-- through a handler, -/
theorem Steps.tryCatch {m : Act σ ε α} {h : ε → Act σ ε α} (ht : ∀ a b c, G a b → G b c → G a c)
    (hm : Steps G m) (hh : ∀ e, Steps G (h e)) : Steps G (tryCatch m h) := by
  intro s
  have hs := hm s
  rw [exec_tryCatch]
  rcases he : exec m s with ⟨e | a, s'⟩ <;> rw [he] at hs
  · exact ht _ _ _ hs (hh e s')
  · exact hs

/-- through both branches, -/
theorem steps_ite {p : Prop} [Decidable p] {m m' : Act σ ε α} (h : Steps G m) (h' : Steps G m') :
    Steps G (if p then m else m') := by
  by_cases hp : p
  · rwa [if_pos hp]
  · rwa [if_neg hp]

/-- and through a loop. -/
theorem steps_forM {xs : List β} {f : β → Act σ ε PUnit} (hr : ∀ s, G s s)
    (ht : ∀ a b c, G a b → G b c → G a c) (hf : ∀ x, Steps G (f x)) : Steps G (xs.forM f) := by
  induction xs with
  | nil => exact steps_pure hr _
  | cons x xs ih => exact Steps.bind ht (hf x) fun _ => ih

/-- What a run changes is a postcondition, whichever way it ends. -/
theorem Steps.ends {m : Act σ ε α} (h : Steps G m) (s : σ) :
    Ends m s (fun _ s' => G s s') (fun _ s' => G s s') := by
  have hs := h s
  unfold Ends
  rcases he : exec m s with ⟨e | a, s'⟩ <;> rw [he] at hs
  · exact hs
  · exact hs

/-- One run, with what every run changes. -/
theorem Ends.and_steps {m : Act σ ε α} {s : σ} {Q : α → σ → Prop} {X : ε → σ → Prop}
    (h : Ends m s Q X) (hm : Steps G m) :
    Ends m s (fun a s' => G s s' ∧ Q a s') (fun e s' => G s s' ∧ X e s') := by
  have hs := hm s
  unfold Ends at h ⊢
  rcases he : exec m s with ⟨e | a, s'⟩ <;> rw [he] at hs h
  · exact ⟨hs, h⟩
  · exact ⟨hs, h⟩

end Steps

/-! ## Two runs -/

section Sim

variable (R : σ → σ → Prop)

/-- How two outcomes have to agree. -/
def Agree (A : α → β → Prop) : Except ε α × σ → Except ε β × σ → Prop
  | (.ok a, s), (.ok b, t) => A a b ∧ R s t
  | (.error e, s), (.error e', t) => e = e' ∧ R s t
  | _, _ => False

/-- From related states, related outcomes. -/
def Sim (A : α → β → Prop) (m : Act σ ε α) (n : Act σ ε β) : Prop :=
  ∀ s t, R s t → Agree R A (exec m s) (exec n t)

variable {R}

/-- Values that correspond. -/
theorem sim_pure {A : α → β → Prop} {a : α} {b : β} (h : A a b) :
    Sim R A (pure a : Act σ ε α) (pure b) := fun _ _ hR => ⟨h, hR⟩

/-- The same exception on both sides. -/
theorem sim_throw {A : α → β → Prop} (e : ε) :
    Sim R A (throw e : Act σ ε α) (throw e : Act σ ε β) := fun _ _ hR => ⟨rfl, hR⟩

/-- Two sequences correspond part by part. -/
theorem Sim.bind {A : α → β → Prop} {B : γ → δ → Prop} {m : Act σ ε α} {n : Act σ ε β}
    {f : α → Act σ ε γ} {g : β → Act σ ε δ} (hm : Sim R A m n)
    (hf : ∀ a b, A a b → Sim R B (f a) (g b)) : Sim R B (m >>= f) (n >>= g) := by
  intro s t hR
  have h := hm s t hR
  rw [exec_bind, exec_bind]
  rcases hs : exec m s with ⟨e | a, s'⟩ <;> rcases ht : exec n t with ⟨e' | b, t'⟩ <;>
    rw [hs, ht] at h
  · exact h
  · exact h.elim
  · exact h.elim
  · exact hf a b h.1 s' t' h.2

/-- Two conditionals on the same condition do branch by branch. -/
theorem sim_ite {A : α → β → Prop} {p : Prop} [Decidable p] {m m' : Act σ ε α} {n n' : Act σ ε β}
    (h : Sim R A m n) (h' : Sim R A m' n') :
    Sim R A (if p then m else m') (if p then n else n') := by
  by_cases hp : p
  · rwa [if_pos hp, if_pos hp]
  · rwa [if_neg hp, if_neg hp]

/-- One program run twice from one state. -/
theorem sim_self (m : Act σ ε α) : Sim Eq Eq m m := by
  rintro s t rfl
  rcases exec m s with ⟨e | a, s'⟩
  · exact ⟨rfl, rfl⟩
  · exact ⟨rfl, rfl⟩

/-- The state is read in both runs, and the rest depends on what was read. -/
theorem sim_get {B : γ → δ → Prop} {f : σ → Act σ ε γ} {g : σ → Act σ ε δ}
    (h : ∀ s t, R s t → Agree R B (exec (f s) s) (exec (g t) t)) :
    Sim R B (get >>= f) (get >>= g) := by
  intro s t hR
  rw [exec_bind, exec_bind]
  exact h s t hR

/-- Two assignments do that keep the states in correspondence. -/
theorem sim_modify {f g : σ → σ} (h : ∀ s t, R s t → R (f s) (g t)) :
    Sim R Eq (modify f : Act σ ε PUnit) (modify g) := fun s t hR => ⟨rfl, h s t hR⟩

/-- Two handlers do that see the same exceptions. -/
theorem Sim.tryCatch {A : α → β → Prop} {m : Act σ ε α} {n : Act σ ε β} {h : ε → Act σ ε α}
    {k : ε → Act σ ε β} (hm : Sim R A m n) (hh : ∀ e, Sim R A (h e) (k e)) :
    Sim R A (tryCatch m h) (tryCatch n k) := by
  intro s t hR
  have hr := hm s t hR
  rw [exec_tryCatch, exec_tryCatch]
  rcases hs : exec m s with ⟨e | a, s'⟩ <;> rcases ht : exec n t with ⟨e' | b, t'⟩ <;>
    rw [hs, ht] at hr
  · obtain ⟨rfl, hR'⟩ := hr
    exact hh e s' t' hR'
  · exact hr.elim
  · exact hr.elim
  · exact hr

/-- Two loops do over lists that correspond. -/
theorem sim_forM {xs : List α} {ys : List β} {B : α → β → Prop} (hxs : List.Forall₂ B xs ys)
    {f : α → Act σ ε PUnit} {g : β → Act σ ε PUnit} (hf : ∀ x y, B x y → Sim R Eq (f x) (g y)) :
    Sim R Eq (xs.forM f) (ys.forM g) := by
  induction hxs with
  | nil => exact sim_pure rfl
  | cons hxy _ ih => exact (hf _ _ hxy).bind fun _ _ _ => ih

/-- One loop in both runs. -/
theorem sim_forM_self {xs : List α} {f : α → Act σ ε PUnit} (hf : ∀ x, Sim R Eq (f x) (f x)) :
    Sim R Eq (xs.forM f) (xs.forM f) := by
  induction xs with
  | nil => exact sim_pure rfl
  | cons x xs ih => exact (hf x).bind fun _ _ _ => ih

end Sim

end Act

end Ciphertext
