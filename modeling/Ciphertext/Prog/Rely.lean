import Ciphertext.Prog.Logic

/-!
# One program and the threads around it

`Prog/Threads.lean` treats all threads alike. Here one program is in the
foreground and everything else is its environment: between two of its calls the
others may change the state in any way a relation `R` allows, and what `R`
allows may depend on the call the program is about to make.

`Stays R E X Q p s` says that `p`, started in `s`, ends well whatever happens
around it: a value it returns satisfies `Q`, an exception it raises satisfies
`X`. The rule for a call (`stays_call`) is the usual one: name an assertion that
holds now and that the environment keeps, and go on from every state that has
it.
-/

namespace Ciphertext

namespace Prog

variable {S : Signature} {ε ε' α β σ : Type}

/-- `try p except`: the handler takes over where `p` raised. -/
protected def tryCatch : Prog S ε α → (ε → Prog S ε' α) → Prog S ε' α
  | .pure a, _ => .pure a
  | .raise e, h => h e
  | .call o k, h => .call o fun r => (k r).tryCatch h

/-- The call the program is about to make. -/
def next : Prog S ε α → Option S.Op
  | .call o _ => some o
  | _ => none

/-- The calls of the block and of its handlers. -/
theorem Uses.tryCatch {A : S.Op → Prop} {p : Prog S ε α} {h : ε → Prog S ε' α} (hp : p.Uses A)
    (hh : ∀ e, (h e).Uses A) : (p.tryCatch h).Uses A := by
  induction p with
  | pure a => trivial
  | raise e => exact hh e
  | call o k ih => exact ⟨hp.1, fun r => ih r (hp.2 r)⟩

section Stays

variable (R : S.Op → σ → σ → Prop) (E : (o : S.Op) → σ → S.Ret o → σ → Prop)
  (X : ε → σ → Prop) (Q : α → σ → Prop)

/-- Whatever the environment does, the program ends in `Q`, or raises in `X`. -/
def Stays : Prog S ε α → σ → Prop
  | .pure a, s => Q a s
  | .raise e, s => X e s
  | .call o k, s => ∃ J : σ → Prop, J s ∧ (∀ s s', J s → R o s s' → J s') ∧
      ∀ s r s', J s → E o s r s' → (k r).Stays s'

variable {R E X Q}

theorem stays_call {o : S.Op} {k : S.Ret o → Prog S ε α} {s : σ} (J : σ → Prop) (hs : J s)
    (hR : ∀ s s', J s → R o s s' → J s')
    (hE : ∀ s r s', J s → E o s r s' → (k r).Stays R E X Q s') :
    (Prog.call o k).Stays R E X Q s := ⟨J, hs, hR, hE⟩

/-- One call, then the rest. -/
theorem stays_call_bind {o : S.Op} {f : S.Ret o → Prog S ε β} {Q : β → σ → Prop} {s : σ}
    (J : σ → Prop) (hs : J s) (hR : ∀ s s', J s → R o s s' → J s')
    (hE : ∀ s r s', J s → E o s r s' → (f r).Stays R E X Q s') :
    ((Prog.call o .pure : Prog S ε (S.Ret o)) >>= f).Stays R E X Q s := ⟨J, hs, hR, hE⟩

/-- What the environment does while the program is about to make a call. -/
theorem Stays.rely {o : S.Op} {k : S.Ret o → Prog S ε α} {s s' : σ}
    (h : (Prog.call o k).Stays R E X Q s) (hR : R o s s') : (Prog.call o k).Stays R E X Q s' := by
  obtain ⟨J, hs, hJ, hE⟩ := h
  exact ⟨J, hJ s s' hs hR, hJ, hE⟩

/-- The program's own next call. -/
theorem Stays.step {o : S.Op} {k : S.Ret o → Prog S ε α} {s s' : σ} {r : S.Ret o}
    (h : (Prog.call o k).Stays R E X Q s) (hE : E o s r s') : (k r).Stays R E X Q s' := by
  obtain ⟨J, hs, -, hJ⟩ := h
  exact hJ s r s' hs hE

theorem Stays.mono {p : Prog S ε α} {Q' : α → σ → Prop} {s : σ} (hp : p.Stays R E X Q s)
    (h : ∀ a s, Q a s → Q' a s) : p.Stays R E X Q' s := by
  induction p generalizing s with
  | pure a => exact h a s hp
  | raise e => exact hp
  | call o k ih =>
    obtain ⟨J, hs, hR, hE⟩ := hp
    exact ⟨J, hs, hR, fun s r s' hJ he => ih r (hE s r s' hJ he)⟩

theorem Stays.mono_raise {p : Prog S ε α} {X' : ε → σ → Prop} {s : σ} (hp : p.Stays R E X Q s)
    (h : ∀ e s, X e s → X' e s) : p.Stays R E X' Q s := by
  induction p generalizing s with
  | pure a => exact hp
  | raise e => exact h e s hp
  | call o k ih =>
    obtain ⟨J, hs, hR, hE⟩ := hp
    exact ⟨J, hs, hR, fun s r s' hJ he => ih r (hE s r s' hJ he)⟩

/-- A composite: the rest starts in the state the first part left. -/
theorem Stays.bind {p : Prog S ε α} {f : α → Prog S ε β} {Q' : α → σ → Prop} {Q : β → σ → Prop}
    {s : σ} (hp : p.Stays R E X Q' s) (hf : ∀ a s', Q' a s' → (f a).Stays R E X Q s') :
    (p >>= f).Stays R E X Q s := by
  induction p generalizing s with
  | pure a => exact hf a s hp
  | raise e => exact hp
  | call o k ih =>
    obtain ⟨J, hs, hR, hE⟩ := hp
    exact ⟨J, hs, hR, fun s r s' hJ he => ih r (hE s r s' hJ he)⟩

/-- A guarded block: the handler starts in the state the exception left. -/
theorem Stays.tryCatch {p : Prog S ε α} {h : ε → Prog S ε' α} {X' : ε → σ → Prop}
    {X : ε' → σ → Prop} {s : σ} (hp : p.Stays R E X' Q s)
    (hh : ∀ e s', X' e s' → (h e).Stays R E X Q s') : (p.tryCatch h).Stays R E X Q s := by
  induction p generalizing s with
  | pure a => exact hp
  | raise e => exact hh e s hp
  | call o k ih =>
    obtain ⟨J, hs, hR, hE⟩ := hp
    exact ⟨J, hs, hR, fun s r s' hJ he => ih r (hE s r s' hJ he)⟩

/-- With fewer outcomes of its own calls. -/
theorem Stays.own {E' : (o : S.Op) → σ → S.Ret o → σ → Prop} {p : Prog S ε α} {s : σ} (hp : p.Stays R E X Q s)
    (h : ∀ o s r s', E' o s r s' → E o s r s') : p.Stays R E' X Q s := by
  induction p generalizing s with
  | pure a => exact hp
  | raise e => exact hp
  | call o k ih =>
    obtain ⟨J, hs, hR, hE⟩ := hp
    exact ⟨J, hs, hR, fun s r s' hJ he => ih r (hE s r s' hJ (h o s r s' he))⟩

/-- A program that works on a part of the state only. What is shown about the part alone
holds of it where it lies, as long as `I` keeps the rest from interfering. -/
theorem Stays.frame {τ : Type} {A : S.Op → Prop} {R' : S.Op → τ → τ → Prop}
    {E' : (o : S.Op) → τ → S.Ret o → τ → Prop} {X' : ε → τ → Prop} {Q' : α → τ → Prop} (view : σ → τ) (I : σ → Prop)
    (hR : ∀ o s s', I s → R o s s' → I s' ∧ (view s' = view s ∨ R' o (view s) (view s')))
    (hE : ∀ o s r s', A o → I s → E o s r s' → I s' ∧ E' o (view s) r (view s'))
    {p : Prog S ε α} (hA : p.Uses A) : ∀ {s : σ}, I s → p.Stays R' E' X' Q' (view s) →
    p.Stays R E (fun e s => I s ∧ X' e (view s)) (fun a s => I s ∧ Q' a (view s)) s := by
  induction p with
  | pure a => exact fun hs hp => ⟨hs, hp⟩
  | raise e => exact fun hs hp => ⟨hs, hp⟩
  | call o k ih =>
    intro s hs hp
    obtain ⟨J, hJ, hJR, hJE⟩ := hp
    refine stays_call (fun s => I s ∧ J (view s)) ⟨hs, hJ⟩ (fun s s' h ho => ?_) fun s r s' h he => ?_
    · obtain ⟨hI, hview⟩ := hR o s s' h.1 ho
      refine ⟨hI, ?_⟩
      cases hview with
      | inl hsame =>
        rw [hsame]
        exact h.2
      | inr hown => exact hJR _ _ h.2 hown
    · obtain ⟨hI, hown⟩ := hE o s r s' hA.1 h.1 he
      exact ih r (hA.2 r) hI (hJE _ r _ h.2 hown)

end Stays

/-! ## What holds all along -/

section Within

variable (R : S.Op → σ → σ → Prop) (E : (o : S.Op) → σ → S.Ret o → σ → Prop) (I : σ → Prop)
  (X : ε → σ → Prop) (Q : α → σ → Prop)

/-- As `Stays`, and `I` holds at every moment on the way. -/
def Within : Prog S ε α → σ → Prop
  | .pure a, s => I s ∧ Q a s
  | .raise e, s => I s ∧ X e s
  | .call o k, s => ∃ J : σ → Prop, J s ∧ (∀ s, J s → I s) ∧ (∀ s s', J s → R o s s' → J s') ∧
      ∀ s r s', J s → E o s r s' → (k r).Within s'

variable {R E I X Q}

/-- One call, then the rest. -/
theorem within_call_bind {o : S.Op} {f : S.Ret o → Prog S ε β} {Q : β → σ → Prop} {s : σ}
    (J : σ → Prop) (hs : J s) (hI : ∀ s, J s → I s) (hR : ∀ s s', J s → R o s s' → J s')
    (hE : ∀ s r s', J s → E o s r s' → (f r).Within R E I X Q s') :
    ((Prog.call o .pure : Prog S ε (S.Ret o)) >>= f).Within R E I X Q s := ⟨J, hs, hI, hR, hE⟩

theorem Within.holds {p : Prog S ε α} {s : σ} (h : p.Within R E I X Q s) : I s := by
  cases p with
  | pure a => exact h.1
  | raise e => exact h.1
  | call o k =>
    obtain ⟨J, hs, hI, -⟩ := h
    exact hI s hs

/-- What the environment does while the program is about to make a call. -/
theorem Within.rely {o : S.Op} {k : S.Ret o → Prog S ε α} {s s' : σ}
    (h : (Prog.call o k).Within R E I X Q s) (hR : R o s s') : (Prog.call o k).Within R E I X Q s' := by
  obtain ⟨J, hs, hI, hJ, hE⟩ := h
  exact ⟨J, hJ s s' hs hR, hI, hJ, hE⟩

/-- The program's own next call. -/
theorem Within.step {o : S.Op} {k : S.Ret o → Prog S ε α} {s s' : σ} {r : S.Ret o}
    (h : (Prog.call o k).Within R E I X Q s) (hE : E o s r s') : (k r).Within R E I X Q s' := by
  obtain ⟨J, hs, -, -, hJ⟩ := h
  exact hJ s r s' hs hE

theorem Within.mono {p : Prog S ε α} {X' : ε → σ → Prop} {Q' : α → σ → Prop} {s : σ} (hp : p.Within R E I X Q s)
    (hX : ∀ e s, X e s → X' e s) (hQ : ∀ a s, Q a s → Q' a s) : p.Within R E I X' Q' s := by
  induction p generalizing s with
  | pure a => exact ⟨hp.1, hQ a s hp.2⟩
  | raise e => exact ⟨hp.1, hX e s hp.2⟩
  | call o k ih =>
    obtain ⟨J, hs, hI, hR, hE⟩ := hp
    exact ⟨J, hs, hI, hR, fun s r s' hJ he => ih r (hE s r s' hJ he)⟩

theorem Within.bind {p : Prog S ε α} {f : α → Prog S ε β} {Q' : α → σ → Prop} {Q : β → σ → Prop} {s : σ}
    (hp : p.Within R E I X Q' s) (hf : ∀ a s', I s' → Q' a s' → (f a).Within R E I X Q s') :
    (p >>= f).Within R E I X Q s := by
  induction p generalizing s with
  | pure a => exact hf a s hp.1 hp.2
  | raise e => exact hp
  | call o k ih =>
    obtain ⟨J, hs, hI, hR, hE⟩ := hp
    exact ⟨J, hs, hI, hR, fun s r s' hJ he => ih r (hE s r s' hJ he)⟩

/-- A guarded block: the handler starts in the state the exception left. -/
theorem Within.tryCatch {p : Prog S ε α} {h : ε → Prog S ε' α} {Y : ε → σ → Prop} {X : ε' → σ → Prop} {s : σ}
    (hp : p.Within R E I Y Q s) (hh : ∀ e s', I s' → Y e s' → (h e).Within R E I X Q s') :
    (p.tryCatch h).Within R E I X Q s := by
  induction p generalizing s with
  | pure a => exact hp
  | raise e => exact hh e s hp.1 hp.2
  | call o k ih =>
    obtain ⟨J, hs, hI, hR, hE⟩ := hp
    exact ⟨J, hs, hI, hR, fun s r s' hJ he => ih r (hE s r s' hJ he)⟩

/-- A program each of whose calls keeps an assertion. -/
theorem Uses.within {A : S.Op → Prop} {J : σ → Prop} {p : Prog S ε α} {s : σ} (hp : p.Uses A) (hs : J s)
    (hI : ∀ s, J s → I s) (hR : ∀ o s s', J s → R o s s' → J s')
    (hE : ∀ o s r s', A o → J s → E o s r s' → J s') :
    p.Within R E I (fun _ s => J s) (fun _ s => J s) s := by
  induction p generalizing s with
  | pure a => exact ⟨hI s hs, hs⟩
  | raise e => exact ⟨hI s hs, hs⟩
  | call o k ih => exact ⟨J, hs, hI, hR o, fun s r s' hJ he => ih r (hp.2 r) (hE o s r s' hp.1 hJ he)⟩

end Within

end Prog

end Ciphertext
