import Mathlib.Logic.Function.Basic
import Ciphertext.Prog.Protocol

/-!
# One thread per peer

A service that gives each of its peers one thread: the thread takes the peer's
inputs one at a time, and the program of one has ended before the next is taken.
`Lanes` is the shared state, what is left of each peer's current program, the
inputs each has taken, and the log of the calls. Between two calls of one lane
any other lane may make any number of its own.

`Reach.inv` is the rule for invariants that speak of the phases of a protocol:
one goal for taking an input, one for a call and one for a call that raises.
`play` runs a schedule.
-/

namespace Ciphertext

variable {S : Signature} {ε κ Φ : Type}

open Prog

variable {ι σ : Type}

/-- The shared state, what is left of each peer's program, what each has taken
(the last first) and the calls made so far. -/
structure Lanes (S : Signature) (ε κ ι σ : Type) where
  state : σ
  lane : κ → Prog S ε Unit
  taken : κ → List ι
  log : List (κ × Event S)

namespace Lanes

/-- Nobody is in the middle of anything. -/
def Quiet (c : Lanes S ε κ ι σ) : Prop := ∀ x, (c.lane x).Ended

variable [DecidableEq κ]

/-- The phase a peer's calls have brought it to. -/
def phase (next : Φ → Event S → Φ) (φ₀ : Φ) (c : Lanes S ε κ ι σ) (x : κ) : Φ :=
  ((c.log.filter fun e => e.1 = x).map Prod.snd).foldl next φ₀

theorem phase_snoc (next : Φ → Event S → Φ) (φ₀ : Φ) (c : Lanes S ε κ ι σ) (c' : Lanes S ε κ ι σ) (x : κ)
    (e : Event S) (h : c'.log = c.log ++ [(x, e)]) :
    c'.phase next φ₀ = Function.update (c.phase next φ₀) x (next (c.phase next φ₀ x) e) := by
  funext y
  unfold phase
  rw [h, List.filter_append, List.map_append, List.foldl_append]
  by_cases hy : y = x
  · subst hy
    simp
  · rw [Function.update_of_ne hy]
    simp [Ne.symm hy]

variable (exec : (o : S.Op) → σ → Except ε (S.Ret o) × σ) (prog : ι → Prog S ε Unit) (peer : ι → κ)
  (takes : List ι → ι → Prop) (heeds : Lanes S ε κ ι σ → S.Op → Prop) (s₀ : σ)

/-- What can come about. A peer takes an input when it is done with the last and
`takes` allows it after the earlier ones; a call is made when `heeds` allows it;
a call that fails ends its program. -/
inductive Reach : Lanes S ε κ ι σ → Prop
  | start : Reach ⟨s₀, fun _ => .pure (), fun _ => [], []⟩
  | take {c : Lanes S ε κ ι σ} (h : Reach c) (i : ι) (hidle : (c.lane (peer i)).Ended)
      (htakes : takes (c.taken (peer i)) i) :
      Reach { c with
        lane := Function.update c.lane (peer i) (prog i)
        taken := Function.update c.taken (peer i) (i :: c.taken (peer i)) }
  | call {c : Lanes S ε κ ι σ} (h : Reach c) {x : κ} {o : S.Op} {k : S.Ret o → Prog S ε Unit}
      {r : S.Ret o} {s' : σ} (hx : c.lane x = .call o k) (hheeds : heeds c o)
      (he : exec o c.state = (.ok r, s')) :
      Reach ⟨s', Function.update c.lane x (k r), c.taken, c.log ++ [(x, ⟨o, r⟩)]⟩
  | fail {c : Lanes S ε κ ι σ} (h : Reach c) {x : κ} {o : S.Op} {k : S.Ret o → Prog S ε Unit} {e : ε}
      {s' : σ} (hx : c.lane x = .call o k) (he : exec o c.state = (.error e, s')) :
      Reach ⟨s', Function.update c.lane x (.raise e), c.taken, c.log⟩

variable {exec prog peer takes heeds s₀} (P : Protocol S κ Φ) (φ₀ : Φ) (E : List ι → Φ → Prop)

/-- Every lane keeps to the protocol, and ends as `E` says for what it took. -/
def Keeps (c : Lanes S ε κ ι σ) : Prop :=
  ∀ x, Follows P x (fun _ => E (c.taken x)) (E (c.taken x)) (c.phase P.next φ₀ x) (c.lane x)

variable {P φ₀ E}

/-- **The invariant rule.** `I` ties the state to the phases; every lane then
keeps to the protocol. -/
theorem Reach.inv {I : σ → (κ → Φ) → Prop} (h₀ : I s₀ fun _ => φ₀) (hstart : E [] φ₀)
    (htake : ∀ past i φ, takes past i → E past φ →
      Follows P (peer i) (fun _ => E (i :: past)) (E (i :: past)) φ (prog i))
    (hcall : ∀ (c : Lanes S ε κ ι σ) (x : κ) (o : S.Op) (r : S.Ret o) (s' : σ),
      I c.state (c.phase P.next φ₀) → P.may x (c.phase P.next φ₀ x) o → heeds c o →
      exec o c.state = (.ok r, s') → P.answers x (c.phase P.next φ₀ x) o r ∧
        I s' (Function.update (c.phase P.next φ₀) x (P.next (c.phase P.next φ₀ x) ⟨o, r⟩)))
    (hfail : ∀ (s : σ) (φ : κ → Φ) (x : κ) (o : S.Op) (e : ε) (s' : σ), I s φ → P.may x (φ x) o →
      exec o s = (.error e, s') → s' = s ∧ P.raises o)
    {c : Lanes S ε κ ι σ} (h : Reach exec prog peer takes heeds s₀ c) :
    I c.state (c.phase P.next φ₀) ∧ c.Keeps P φ₀ E := by
  induction h with
  | start => exact ⟨h₀, fun _ => hstart⟩
  | @take c _ i hidle htakes ih =>
    refine ⟨ih.1, fun x => ?_⟩
    by_cases hx : x = peer i
    · subst hx
      simp only [Function.update_self]
      exact htake _ i _ htakes ((ih.2 (peer i)).ended hidle)
    · simp only [Function.update_of_ne hx]
      exact ih.2 x
  | @call c _ x o k r s' hx hheeds he ih =>
    have hfollows := ih.2 x
    rw [hx] at hfollows
    obtain ⟨hmay, -, hrest⟩ := hfollows
    obtain ⟨hanswer, hI⟩ := hcall c x o r s' ih.1 hmay hheeds he
    have hphase := phase_snoc P.next φ₀ c
      ⟨s', Function.update c.lane x (k r), c.taken, c.log ++ [(x, ⟨o, r⟩)]⟩ x ⟨o, r⟩ rfl
    refine ⟨by rw [hphase]; exact hI, fun y => ?_⟩
    rw [hphase]
    by_cases hy : y = x
    · subst hy
      simp only [Function.update_self]
      exact hrest r hanswer
    · simp only [Function.update_of_ne hy]
      exact ih.2 y
  | @fail c _ x o k e s' hx he ih =>
    have hfollows := ih.2 x
    rw [hx] at hfollows
    obtain ⟨rfl, hraises⟩ := hfail c.state _ x o e s' ih.1 hfollows.1 he
    refine ⟨ih.1, fun y => ?_⟩
    by_cases hy : y = x
    · subst hy
      simp only [Function.update_self]
      exact hfollows.2.1 hraises
    · simp only [Function.update_of_ne hy]
      exact ih.2 y

/-! ## Schedules -/

/-- What a schedule asks for next: that an input is taken, or that a peer makes a
call. -/
inductive Act (κ ι : Type) where
  | take (i : ι)
  | call (x : κ)

section Schedule

variable (exec : (o : S.Op) → σ → Except ε (S.Ret o) × σ) (prog : ι → Prog S ε Unit) (peer : ι → κ)
  (T : List ι → ι → Bool) (H : Lanes S ε κ ι σ → S.Op → Bool)

/-- One act of a schedule; what is not possible is passed over. -/
def act (c : Lanes S ε κ ι σ) : Act κ ι → Lanes S ε κ ι σ
  | .take i =>
    match c.lane (peer i) with
    | .call _ _ => c
    | _ =>
      if T (c.taken (peer i)) i then
        { c with
          lane := Function.update c.lane (peer i) (prog i)
          taken := Function.update c.taken (peer i) (i :: c.taken (peer i)) }
      else c
  | .call x =>
    match c.lane x with
    | .call o k =>
      if H c o then
        match exec o c.state with
        | (.ok r, s') => ⟨s', Function.update c.lane x (k r), c.taken, c.log ++ [(x, ⟨o, r⟩)]⟩
        | (.error e, s') => ⟨s', Function.update c.lane x (.raise e), c.taken, c.log⟩
      else c
    | _ => c

/-- A whole schedule. -/
def play (s₀ : σ) (acts : List (Act κ ι)) : Lanes S ε κ ι σ :=
  acts.foldl (act exec prog peer T H) ⟨s₀, fun _ => .pure (), fun _ => [], []⟩

variable {exec prog peer T H}

theorem Reach.act {takes : List ι → ι → Prop} {heeds : Lanes S ε κ ι σ → S.Op → Prop}
    (hT : ∀ past i, T past i = true → takes past i) (hH : ∀ c o, H c o = true → heeds c o)
    {c : Lanes S ε κ ι σ} (h : Reach exec prog peer takes heeds s₀ c) (a : Act κ ι) :
    Reach exec prog peer takes heeds s₀ (c.act exec prog peer T H a) := by
  cases a with
  | take i =>
    unfold Lanes.act
    dsimp only
    split
    · exact h
    next hcall =>
      split
      next ht =>
        refine h.take i ?_ (hT _ _ ht)
        cases hl : c.lane (peer i) with
        | call o k => exact absurd hl (hcall o k)
        | _ => trivial
      · exact h
  | call x =>
    unfold Lanes.act
    dsimp only
    split
    next o k hl =>
      split
      next hh =>
        rcases he : exec o c.state with ⟨e | r, s'⟩
        · exact h.fail hl he
        · exact h.call hl (hH c o hh) he
      · exact h
    · exact h

theorem Reach.play {takes : List ι → ι → Prop} {heeds : Lanes S ε κ ι σ → S.Op → Prop}
    (hT : ∀ past i, T past i = true → takes past i) (hH : ∀ c o, H c o = true → heeds c o)
    (s₀ : σ) (acts : List (Act κ ι)) :
    Reach exec prog peer takes heeds s₀ (Lanes.play exec prog peer T H s₀ acts) := by
  have hall : ∀ c, Reach exec prog peer takes heeds s₀ c →
      Reach exec prog peer takes heeds s₀ (acts.foldl (Lanes.act exec prog peer T H) c) := by
    induction acts with
    | nil => exact fun c h => h
    | cons a acts ih => exact fun c h => ih _ (h.act hT hH a)
  exact hall _ .start

/-- Whose turn it is. -/
def Act.who (peer : ι → κ) : Act κ ι → κ
  | .take i => peer i
  | .call x => x

theorem act_lane (c : Lanes S ε κ ι σ) {a : Act κ ι} {y : κ} (h : a.who peer ≠ y) :
    (c.act exec prog peer T H a).lane y = c.lane y := by
  cases a with
  | take i =>
    unfold Lanes.act
    dsimp only
    split
    · rfl
    · split
      · exact Function.update_of_ne (Ne.symm h) ..
      · rfl
  | call x =>
    unfold Lanes.act
    dsimp only
    split
    · split
      · split
        · exact Function.update_of_ne (Ne.symm h) ..
        · exact Function.update_of_ne (Ne.symm h) ..
      · rfl
    · rfl

/-- A schedule ends quietly if everybody in it has ended. -/
theorem play_quiet (s₀ : σ) (acts : List (Act κ ι))
    (h : ∀ a ∈ acts, ((Lanes.play exec prog peer T H s₀ acts).lane (a.who peer)).Ended) :
    (Lanes.play exec prog peer T H s₀ acts).Quiet := by
  intro y
  by_cases hy : ∃ a ∈ acts, a.who peer = y
  · obtain ⟨a, ha, rfl⟩ := hy
    exact h a ha
  · have hidle : ∀ (acts : List (Act κ ι)) (c : Lanes S ε κ ι σ), (∀ a ∈ acts, a.who peer ≠ y) →
        (acts.foldl (Lanes.act exec prog peer T H) c).lane y = c.lane y := by
      intro acts
      induction acts with
      | nil => exact fun c _ => rfl
      | cons a acts ih =>
        intro c hne
        rw [List.foldl_cons, ih _ fun b hb => hne b (List.mem_cons_of_mem _ hb)]
        exact act_lane c (hne a (List.mem_cons_self ..))
    unfold Lanes.play
    rw [hidle acts _ fun a ha he => hy ⟨a, ha, he⟩]
    trivial

end Schedule

end Lanes

end Ciphertext
