import Ciphertext.Prog.Threads

/-!
# Calls that earlier events warrant

`Gated` lets a program make a call once an event of some kind has happened. Here
the call itself says which events it needs: `J es o` is that `o` may be made
after `es`, and `Warranted J es p` that every call of `p` may, when `es` has
happened before it. What a program is put behind only adds to `es`, so a rule for
a part names the events it needs and no others.

In a pool every event is warranted by what its own thread did before it
(`Pool.Reach.warranted`).
-/

namespace Ciphertext

namespace Prog

variable {S : Signature} {ε α β γ : Type}

/-- Every call is one that the events before it warrant. -/
def Warranted (J : List (Event S) → S.Op → Prop) : List (Event S) → Prog S ε α → Prop
  | _, .pure _ => True
  | _, .raise _ => True
  | es, .call o k => J es o ∧ ∀ r, Warranted J (es ++ [⟨o, r⟩]) (k r)

section Warranted

variable {J : List (Event S) → S.Op → Prop} {es es' : List (Event S)}

theorem Warranted.bind {p : Prog S ε α} {f : α → Prog S ε β} (hp : p.Warranted J es)
    (hf : ∀ a es', es ⊆ es' → (f a).Warranted J es') : (p >>= f).Warranted J es := by
  induction p generalizing es with
  | pure a => exact hf a es fun _ h => h
  | raise e => trivial
  | call o k ih =>
    refine ⟨hp.1, fun r => ih r (hp.2 r) fun a es' h => hf a es' ?_⟩
    exact List.Subset.trans (List.subset_append_left _ _) h

/-- One call, then the rest, which knows of it. -/
theorem warranted_call_bind {o : S.Op} {f : S.Ret o → Prog S ε β} (ho : J es o)
    (h : ∀ r, (f r).Warranted J (es ++ [⟨o, r⟩])) :
    ((Prog.call o .pure : Prog S ε (S.Ret o)) >>= f).Warranted J es := ⟨ho, h⟩

/-- Calls that need nothing. -/
theorem Uses.warranted {A : S.Op → Prop} {p : Prog S ε α} (hp : p.Uses A) (h : ∀ es o, A o → J es o) :
    p.Warranted J es := by
  induction p generalizing es with
  | pure a => trivial
  | raise e => trivial
  | call o k ih => exact ⟨h es o hp.1, fun r => ih r (hp.2 r)⟩

theorem warranted_forEach {xs : List γ} {f : γ → Prog S ε Unit}
    (h : ∀ x ∈ xs, ∀ es', es ⊆ es' → (f x).Warranted J es') : (forEach xs f).Warranted J es := by
  induction xs generalizing es with
  | nil => trivial
  | cons x xs ih =>
    refine (h x (List.mem_cons_self ..) es fun _ he => he).bind fun _ es' hes => ?_
    exact ih fun y hy es'' hes' => h y (List.mem_cons_of_mem _ hy) es'' (List.Subset.trans hes hes')

/-- Each event of a path, by those before it. -/
theorem Path.warranted {p q : Prog S ε α} (h : Path p es' q) (hp : p.Warranted J es) {pre post : List (Event S)}
    {e : Event S} (he : es' = pre ++ e :: post) : J (es ++ pre) e.op := by
  induction h generalizing es pre with
  | nil p => cases pre <;> cases he
  | @cons o k r rest q h ih =>
    cases pre with
    | nil =>
      obtain ⟨rfl, -⟩ := List.cons.inj he
      rw [List.append_nil]
      exact hp.1
    | cons e' pre =>
      obtain ⟨rfl, hrest⟩ := List.cons.inj he
      have hnext := ih (hp.2 r) hrest
      rwa [List.append_assoc] at hnext

end Warranted

end Prog

namespace Pool

open Prog

variable {S : Signature} {ε ℓ σ : Type}

/-- The events of one thread in a log. -/
def ownIn (log : List (Nat × Event S)) (t : Nat) : List (Event S) := (log.filter fun e => e.1 = t).map Prod.snd

theorem mem_ownIn {log : List (Nat × Event S)} {t : Nat} {e : Event S} : e ∈ ownIn log t ↔ (t, e) ∈ log := by
  unfold ownIn
  constructor
  · intro h
    obtain ⟨⟨t', e'⟩, hmem, rfl⟩ := List.mem_map.mp h
    obtain ⟨hin, ht⟩ := List.mem_filter.mp hmem
    obtain rfl : t' = t := by simpa using ht
    exact hin
  · intro h
    exact List.mem_map.mpr ⟨(t, e), List.mem_filter.mpr ⟨h, by simp⟩, rfl⟩

variable {exec : (o : S.Op) → σ → Except ε (S.Ret o) × σ} {prog : ℓ → Prog S ε Unit} {s₀ : σ}

/-- **Every event was warranted when it happened**, by what its thread had done. -/
theorem Reach.warranted {J : ℓ → List (Event S) → S.Op → Prop} (hprog : ∀ l, (prog l).Warranted (J l) [])
    {c : Pool S ε ℓ σ} (h : Reach exec prog s₀ c) {pre post : List (Nat × Event S)} {t : Nat} {e : Event S}
    (he : c.log = pre ++ (t, e) :: post) :
    ∃ l p, c.threads[t]? = some (l, p) ∧ J l (ownIn pre t) e.op := by
  have hmem : (t, e) ∈ c.log := by
    rw [he]
    exact List.mem_append_right _ (List.mem_cons_self ..)
  obtain ⟨l, p, ht, -⟩ := h.mem_own hmem
  obtain ⟨q, hpath, -⟩ := h.path ht
  have hown : c.own t = ownIn pre t ++ e :: ownIn post t := by
    unfold own ownIn
    rw [he]
    simp
  have hwarrant := hpath.warranted (hprog l) hown
  exact ⟨l, p, ht, hwarrant⟩

end Pool

end Ciphertext
