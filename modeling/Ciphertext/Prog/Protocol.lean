import Ciphertext.Prog.Threads

/-!
# Keeping to a protocol

A `Protocol` says how far a peer has come, as a phase that each of its calls
moves on: which calls a phase allows, what they can answer there, and which of
them may raise. `Prog.Follows` says that a program keeps to it; it is checked by
walking the program's text, with what the answers are known to be at hand. A
program that keeps to it keeps every invariant of state and phase that the
allowed calls keep (`Follows.run`).

The phase is not part of the state: it is what an observer of the calls would have noted
down. A phase may end in a condition on the value that is returned, so a result that says
how far the program came can be used by what follows it (`Follows.bind`). `Prog/Lanes.lean`
is where many programs keep to one protocol, each in a phase of its own.
-/

namespace Ciphertext

variable {S : Signature} {ε κ Φ α β γ : Type}

/-- How a peer's calls move it from phase to phase. -/
structure Protocol (S : Signature) (κ Φ : Type) where
  /-- the calls a phase allows a peer -/
  may : κ → Φ → S.Op → Prop
  /-- what a call can answer there -/
  answers : κ → Φ → (o : S.Op) → S.Ret o → Prop
  /-- the calls that may raise -/
  raises : S.Op → Prop
  next : Φ → Event S → Φ

namespace Prog

/-- From the phase on, the program makes only calls that peer `x` is allowed; it
returns as `Q` says, and raises only where `X` allows. -/
def Follows (P : Protocol S κ Φ) (x : κ) (Q : α → Φ → Prop) (X : Φ → Prop) : Φ → Prog S ε α → Prop
  | φ, .pure a => Q a φ
  | φ, .raise _ => X φ
  | φ, .call o k => P.may x φ o ∧ (P.raises o → X φ) ∧
      ∀ r, P.answers x φ o r → Follows P x Q X (P.next φ ⟨o, r⟩) (k r)

variable {P : Protocol S κ Φ} {x : κ} {Q : α → Φ → Prop} {R : β → Φ → Prop} {X : Φ → Prop} {φ : Φ}

theorem Follows.bind {p : Prog S ε α} {f : α → Prog S ε β} (hp : Follows P x Q X φ p)
    (hf : ∀ a φ', Q a φ' → Follows P x R X φ' (f a)) : Follows P x R X φ (p >>= f) := by
  induction p generalizing φ with
  | pure a => exact hf a φ hp
  | raise e => exact hp
  | call o k ih => exact ⟨hp.1, hp.2.1, fun r hr => ih r (hp.2.2 r hr)⟩

/-- One call, then the rest. -/
theorem follows_call {o : S.Op} {f : S.Ret o → Prog S ε β} (hmay : P.may x φ o) (hX : P.raises o → X φ)
    (hf : ∀ r, P.answers x φ o r → Follows P x R X (P.next φ ⟨o, r⟩) (f r)) :
    Follows P x R X φ ((Prog.call o .pure : Prog S ε (S.Ret o)) >>= f) :=
  ⟨hmay, hX, hf⟩

/-- A loop, with the phase that each element leaves to the rest of the list. -/
theorem follows_forEach {f : γ → Prog S ε Unit} (φ : List γ → Φ)
    (hf : ∀ y l, Follows P x (fun _ φ' => φ' = φ l) X (φ (y :: l)) (f y)) (l : List γ) :
    Follows P x (fun _ φ' => φ' = φ []) X (φ l) (forEach l f) := by
  induction l with
  | nil => exact rfl
  | cons y l ih =>
    refine (hf y l).bind fun _ φ' hφ => ?_
    rw [hφ]
    exact ih

/-- Nothing left to do. -/
def Ended : Prog S ε α → Prop
  | .call _ _ => False
  | _ => True

instance : (p : Prog S ε α) → Decidable p.Ended
  | .pure _ => .isTrue trivial
  | .raise _ => .isTrue trivial
  | .call _ _ => .isFalse id

theorem Follows.ended {E : Φ → Prop} {p : Prog S ε α} (h : Follows P x (fun _ => E) E φ p)
    (hp : p.Ended) : E φ := by
  cases p with
  | pure a => exact h
  | raise e => exact h
  | call o k => exact hp.elim

/-- A footprint of calls that the phase allows and that leave it as it is. -/
theorem Uses.follows {A : S.Op → Prop} {p : Prog S ε α} (hp : p.Uses A)
    (hnext : ∀ o, A o → ∀ r, P.next φ ⟨o, r⟩ = φ) (hmay : ∀ o, A o → P.may x φ o) (hX : X φ) :
    Follows P x (fun _ φ' => φ' = φ) X φ p := by
  induction p with
  | pure a => exact rfl
  | raise e => exact hX
  | call o k ih =>
    refine ⟨hmay o hp.1, fun _ => hX, fun r _ => ?_⟩
    rw [hnext o hp.1 r]
    exact ih r (hp.2 r)

theorem Follows.mono {Q' : α → Φ → Prop} {p : Prog S ε α} (hp : Follows P x Q X φ p)
    (h : ∀ a φ', Q a φ' → Q' a φ') : Follows P x Q' X φ p := by
  induction p generalizing φ with
  | pure a => exact h a φ hp
  | raise e => exact hp
  | call o k ih => exact ⟨hp.1, hp.2.1, fun r hr => ih r (hp.2.2 r hr)⟩

/-- **The rule for runs.** `I` ties the state to the phase. -/
theorem Follows.run {σ : Type} {exec : (o : S.Op) → σ → Except ε (S.Ret o) × σ} {I : σ → Φ → Prop}
    (hcall : ∀ s φ o r s', I s φ → P.may x φ o → exec o s = (.ok r, s') →
      P.answers x φ o r ∧ I s' (P.next φ ⟨o, r⟩))
    (hfail : ∀ s φ o e s', I s φ → P.may x φ o → exec o s = (.error e, s') → I s' φ ∧ P.raises o)
    {p : Prog S ε α} (hp : Follows P x Q X φ p) {s : σ} (hs : I s φ) :
    ∃ φ', I (p.run exec s).2 φ' ∧
      match (p.run exec s).1 with
      | .ok a => Q a φ'
      | .error _ => X φ' := by
  induction p generalizing φ s with
  | pure a => exact ⟨φ, hs, hp⟩
  | raise e => exact ⟨φ, hs, hp⟩
  | call o k ih =>
    rw [run_call]
    rcases he : exec o s with ⟨e | r, s'⟩
    · obtain ⟨hI, hraises⟩ := hfail s φ o e s' hs hp.1 he
      exact ⟨φ, hI, hp.2.1 hraises⟩
    · obtain ⟨hanswer, hI⟩ := hcall s φ o r s' hs hp.1 he
      exact ih r (hp.2.2 r hanswer) hI

end Prog

end Ciphertext
