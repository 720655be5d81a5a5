import Mathlib.Logic.Function.Basic
import Mathlib.Data.List.Basic

/-!
# Who has been told who is here

The protocol of coming and going, without its calls. A session claims a name,
reads who is here, is welcomed with that list, looks up the other sessions and
tells them one by one; when it closes it gives the name up, looks the others up
again and tells them. Between any two of these steps other sessions may make
theirs.

`Right` says what one session knows about one user: the last it was told, or else
the list it was welcomed with, is right; or somebody is still on the way to tell
it. The one step that can break this is a late farewell (`Move.tellOff`), so that
step has a condition: the user is not here, or a session of theirs has still to
tell. Everything else keeps `Right` (`Move.inv`), and when nobody is on the way
what each session knows is so (`Inv.agree`).
-/

namespace Ciphertext

/-- How far a session has come. Names are `ν`, sessions `σ`. -/
inductive Phase (ν σ : Type) where
  | out
  | checked (u : ν)
  | claimed (u : ν)
  | named (u : ν)
  | reading (u : ν) (names : List ν)
  | welcomed (u : ν)
  | telling (u : ν) (rest : List σ)
  | gone (u : ν)
  | parted (u : ν)
  | parting (u : ν) (rest : List σ)

namespace Phase

variable {ν σ : Type}

/-- The name the session holds in the registry. -/
def holds : Phase ν σ → Option ν
  | claimed u | named u | reading u _ | welcomed u | telling u _ => some u
  | _ => none

/-- The name the session goes by. -/
def name : Phase ν σ → Option ν
  | named u | reading u _ | welcomed u | telling u _ | gone u => some u
  | _ => none

/-- The sessions it has still to tell. -/
def rest : Phase ν σ → List σ
  | telling _ l | parting _ l => l
  | _ => []

/-- It will tell session `x` that `u` is here. -/
def OwesOn (u : ν) (x : σ) : Phase ν σ → Prop
  | claimed v | named v | reading v _ | welcomed v => v = u
  | telling v l => v = u ∧ x ∈ l
  | _ => False

/-- It will tell session `x` that `u` has left. -/
def OwesOff (u : ν) (x : σ) : Phase ν σ → Prop
  | gone v | parted v => v = u
  | parting v l => v = u ∧ x ∈ l
  | _ => False

/-- Not yet read who is here. -/
def Unread : Phase ν σ → Prop
  | claimed _ | named _ => True
  | _ => False

/-- Not yet welcomed. -/
def Early : Phase ν σ → Prop
  | claimed _ | named _ | reading _ _ => True
  | _ => False

/-- Not yet in the registry. -/
def Before : Phase ν σ → Prop
  | out | checked _ => True
  | _ => False

/-- Nothing left to do. -/
def Rests : Phase ν σ → Prop
  | out | telling _ [] | parting _ [] => True
  | _ => False

end Phase

/-- Where the sessions are, and what each of them was told. -/
structure Roll (ν σ : Type) where
  phase : σ → Phase ν σ
  told : σ → ν → Option Bool
  roster : σ → Option (List ν)

namespace Roll

variable {ν σ : Type}

def Online (r : Roll ν σ) (u : ν) : Prop := ∃ s, (r.phase s).holds = some u

/-- Somebody is on the way to tell `x` that `u` is here. -/
def OwesOn (r : Roll ν σ) (u : ν) (x : σ) : Prop := ∃ s, (r.phase s).OwesOn u x

def OwesOff (r : Roll ν σ) (u : ν) (x : σ) : Prop := ∃ s, (r.phase s).OwesOff u x

/-- What session `s` knows about `u`: what it was told last, else the list. -/
def Sees (r : Roll ν σ) (s : σ) (u : ν) (b : Bool) : Prop :=
  r.told s u = some b ∨ r.told s u = none ∧
    ∃ names, (r.roster s = some names ∨ ∃ o, r.phase s = .reading o names) ∧ (u ∈ names ↔ b = true)

/-- It knows nothing yet, and will read the list. -/
def Blank (r : Roll ν σ) (s : σ) (u : ν) : Prop := r.told s u = none ∧ (r.phase s).Unread

/-- What it knows is so, or will be put right. -/
structure Right (r : Roll ν σ) (s : σ) (u : ν) : Prop where
  on : r.Online u → r.Sees s u true ∨ r.OwesOn u s ∨ r.Blank s u
  off : ¬ r.Online u → r.Sees s u false ∨ r.OwesOff u s ∨ r.Blank s u

structure Inv (r : Roll ν σ) : Prop where
  /-- a name is held by one session -/
  unique : ∀ s s' u, (r.phase s).holds = some u → (r.phase s').holds = some u → s = s'
  /-- nobody tells a session anything before it is in the registry -/
  fresh : ∀ s, (r.phase s).Before →
    (∀ u, r.told s u = none) ∧ r.roster s = none ∧ ∀ s', s ∉ (r.phase s').rest
  /-- it is welcomed once -/
  early : ∀ s, (r.phase s).Early → r.roster s = none
  right : ∀ s o u, (r.phase s).holds = some o → u ≠ o → r.Right s u

variable [DecidableEq σ]

/-- Session `s` goes on to the phase `φ`. -/
def put (r : Roll ν σ) (s : σ) (φ : Phase ν σ) : Roll ν σ :=
  { r with phase := Function.update r.phase s φ }

/-- The sessions that hold another name than `u`. -/
def Others (r : Roll ν σ) (u : ν) (l : List σ) : Prop :=
  ∀ s, s ∈ l ↔ ∃ v, v ≠ u ∧ (r.phase s).holds = some v

/-! ## Steps that only move on -/

@[simp] theorem put_self (r : Roll ν σ) (s : σ) (φ : Phase ν σ) : (r.put s φ).phase s = φ :=
  Function.update_self ..

theorem put_ne (r : Roll ν σ) {s s' : σ} (φ : Phase ν σ) (h : s' ≠ s) :
    (r.put s φ).phase s' = r.phase s' := Function.update_of_ne h ..

omit [DecidableEq σ] in
theorem holds_of_before {φ : Phase ν σ} (h : φ.Before) : φ.holds = none := by
  cases φ with
  | out => rfl
  | checked u => rfl
  | _ => cases h

theorem online_put {r : Roll ν σ} {s : σ} {φ : Phase ν σ} (h : φ.holds = (r.phase s).holds) (u : ν) :
    (r.put s φ).Online u ↔ r.Online u := by
  have hsame : ∀ s', ((r.put s φ).phase s').holds = (r.phase s').holds := by
    intro s'
    by_cases hs : s' = s
    · rw [hs, put_self, h]
    · rw [put_ne r φ hs]
  unfold Online
  simp only [hsame]

/-- Somebody who was on the way still is. -/
theorem exists_put {r : Roll ν σ} {s : σ} {φ : Phase ν σ} {P : Phase ν σ → Prop}
    (h : P (r.phase s) → P φ) (hex : ∃ s', P (r.phase s')) : ∃ s', P ((r.put s φ).phase s') := by
  obtain ⟨s', hs'⟩ := hex
  by_cases hs : s' = s
  · subst hs
    exact ⟨s', by rw [put_self]; exact h hs'⟩
  · exact ⟨s', by rw [put_ne r φ hs]; exact hs'⟩

/-- A session goes on to a phase in the registry where it has nobody to tell: nobody has
told those that are not there yet. -/
theorem Inv.fresh_put {r : Roll ν σ} (h : r.Inv) {s s' : σ} {φ : Phase ν σ} (hφ : ¬ φ.Before)
    (hrest : ∀ {x}, x ∉ φ.rest) (hs' : ((r.put s φ).phase s').Before) :
    (∀ u, r.told s' u = none) ∧ r.roster s' = none ∧ ∀ s'', s' ∉ ((r.put s φ).phase s'').rest := by
  have hne : s' ≠ s := by
    intro he
    rw [he, put_self] at hs'
    exact hφ hs'
  rw [put_ne r φ hne] at hs'
  obtain ⟨htold, hroster, htell⟩ := h.fresh s' hs'
  refine ⟨htold, hroster, ?_⟩
  intro s'' hmem
  by_cases hs'' : s'' = s
  · rw [hs'', put_self] at hmem
    exact hrest hmem
  · rw [put_ne r φ hs''] at hmem
    exact htell s'' hmem

/-- What another session knows. -/
theorem Right.put_other {r : Roll ν σ} {s s' : σ} {φ : Phase ν σ} {v : ν} (h : r.Right s' v) (hne : s' ≠ s)
    (honline : (r.put s φ).Online v ↔ r.Online v) (hon : (r.phase s).OwesOn v s' → φ.OwesOn v s')
    (hoff : (r.phase s).OwesOff v s' → φ.OwesOff v s') : (r.put s φ).Right s' v := by
  have hphase : (r.put s φ).phase s' = r.phase s' := put_ne r φ hne
  have hsees : ∀ b, r.Sees s' v b → (r.put s φ).Sees s' v b := by
    unfold Sees
    rw [hphase]
    exact fun _ hb => hb
  have hblank : r.Blank s' v → (r.put s φ).Blank s' v := by
    unfold Blank
    rw [hphase]
    exact id
  refine ⟨fun h' => ?_, fun h' => ?_⟩
  · exact (h.on (honline.mp h')).imp (hsees true) (.imp (exists_put hon) hblank)
  · exact (h.off fun ho => h' (honline.mpr ho)).imp (hsees false) (.imp (exists_put hoff) hblank)

/-- What the next phase has to keep of the one before, what is known apart. -/
structure Onward (r : Roll ν σ) (φ φ' : Phase ν σ) : Prop where
  holds : φ'.holds = φ.holds
  before : φ'.Before → φ.Before
  early : φ'.Early → φ.Early
  rest : ∀ x ∈ φ'.rest, x ∈ φ.rest ∨ ∃ v, (r.phase x).holds = some v

/-- A session moves on and keeps its name. Nobody is told before its time, and
nobody welcomed twice. -/
theorem Inv.move {r r' : Roll ν σ} (h : r.Inv) {s : σ} {φ : Phase ν σ}
    (hphase : r'.phase = (r.put s φ).phase) (hφ : r.Onward (r.phase s) φ)
    (htold : ∀ s', (r.phase s').Before → ∀ u, r'.told s' u = r.told s' u)
    (hroster : ∀ s', (r'.phase s').Before ∨ (r'.phase s').Early → r'.roster s' = r.roster s')
    (hright : ∀ s' o u, (r.phase s').holds = some o → u ≠ o → r'.Right s' u) : r'.Inv := by
  have hsame : ∀ s', (r'.phase s').holds = (r.phase s').holds := by
    intro s'
    rw [hphase]
    by_cases hs : s' = s
    · rw [hs, put_self, hφ.holds]
    · rw [put_ne r φ hs]
  have hself : r'.phase s = φ := by rw [hphase, put_self]
  have hne : ∀ {s'}, s' ≠ s → r'.phase s' = r.phase s' := fun h => by rw [hphase, put_ne r φ h]
  refine ⟨fun s₁ s₂ u h₁ h₂ => ?_, fun s' hs' => ?_, fun s' hs' => ?_, fun s' o u ho hu => ?_⟩
  · rw [hsame] at h₁ h₂
    exact h.unique s₁ s₂ u h₁ h₂
  · have hb : (r.phase s').Before := by
      by_cases he : s' = s
      · rw [he, hself] at hs'
        rw [he]
        exact hφ.before hs'
      · rwa [hne he] at hs'
    obtain ⟨h₁, h₂, h₃⟩ := h.fresh s' hb
    refine ⟨fun u => (htold s' hb u).trans (h₁ u), (hroster s' (.inl hs')).trans h₂, fun s'' hmem => ?_⟩
    by_cases he : s'' = s
    · rw [he, hself] at hmem
      rcases hφ.rest s' hmem with hold | ⟨v, hv⟩
      · exact h₃ s hold
      · rw [holds_of_before hb] at hv
        cases hv
    · rw [hne he] at hmem
      exact h₃ s'' hmem
  · refine (hroster s' (.inr hs')).trans (h.early s' ?_)
    by_cases he : s' = s
    · rw [he, hself] at hs'
      rw [he]
      exact hφ.early hs'
    · rwa [hne he] at hs'
  · rw [hsame] at ho
    exact hright s' o u ho hu

/-- A step that only moves on, where nothing is known or owed less. -/
theorem Inv.put {r : Roll ν σ} (h : r.Inv) {s : σ} {φ : Phase ν σ} (hφ : r.Onward (r.phase s) φ)
    (hon : ∀ u x o, (r.phase x).holds = some o → u ≠ o → (r.phase s).OwesOn u x → φ.OwesOn u x)
    (hoff : ∀ u x o, (r.phase x).holds = some o → u ≠ o → (r.phase s).OwesOff u x → φ.OwesOff u x)
    (hunread : (r.phase s).Unread → φ.Unread) (hread : ∀ o names, r.phase s ≠ .reading o names) :
    (r.put s φ).Inv := by
  refine h.move rfl hφ (fun _ _ _ => rfl) (fun _ _ => rfl) fun s' o u ho hu => ?_
  have hright := h.right s' o u ho hu
  have honline := online_put hφ.holds u
  by_cases hs : s' = s
  · have hsees : ∀ b, r.Sees s' u b → (r.put s φ).Sees s' u b := by
      rintro b (htold | ⟨hnone, names, hnames, hb⟩)
      · exact .inl htold
      · refine .inr ⟨hnone, names, .inl (hnames.resolve_right ?_), hb⟩
        rintro ⟨o', ho'⟩
        exact hread o' names (hs ▸ ho')
    have hblank : r.Blank s' u → (r.put s φ).Blank s' u := by
      rintro ⟨hnone, hun⟩
      refine ⟨hnone, ?_⟩
      rw [hs, put_self]
      exact hunread (hs ▸ hun)
    refine ⟨fun h' => ?_, fun h' => ?_⟩
    · exact (hright.on (honline.mp h')).imp (hsees true) (.imp (exists_put (hon u s' o ho hu)) hblank)
    · exact (hright.off fun ho' => h' (honline.mpr ho')).imp (hsees false)
        (.imp (exists_put (hoff u s' o ho hu)) hblank)
  · exact hright.put_other hs honline (hon u s' o ho hu) (hoff u s' o ho hu)

/-! ## The steps -/

variable [DecidableEq ν]

/-- Session `x` is told about `u`. -/
def tell (r : Roll ν σ) (x : σ) (u : ν) (b : Bool) : Roll ν σ :=
  { r with told := Function.update r.told x (Function.update (r.told x) u (some b)) }

/-- Session `s` is welcomed. -/
def welcome (r : Roll ν σ) (s : σ) (names : List ν) : Roll ν σ :=
  { r with roster := Function.update r.roster s (some names) }

/-- One step of session `s`. -/
inductive Move (s : σ) (r : Roll ν σ) : Roll ν σ → Prop
  | check (u : ν) (h : r.phase s = .out) : Move s r (r.put s (.checked u))
  | refuse (u : ν) (h : r.phase s = .checked u) : Move s r (r.put s .out)
  | claim (u : ν) (h : r.phase s = .checked u) (hfree : ¬ r.Online u) : Move s r (r.put s (.claimed u))
  | setName (u : ν) (h : r.phase s = .claimed u) : Move s r (r.put s (.named u))
  | read (u : ν) (names : List ν) (h : r.phase s = .named u) (hnames : ∀ v, v ∈ names ↔ r.Online v) :
      Move s r (r.put s (.reading u names))
  | greet (u : ν) (names names' : List ν) (h : r.phase s = .reading u names)
      (hnames : ∀ v, v ≠ u → (v ∈ names' ↔ v ∈ names)) :
      Move s r ((r.put s (.welcomed u)).welcome s names')
  | look (u : ν) (l : List σ) (h : r.phase s = .welcomed u) (hl : r.Others u l) :
      Move s r (r.put s (.telling u l))
  | tellOn (u : ν) (x : σ) (l : List σ) (h : r.phase s = .telling u (x :: l)) :
      Move s r ((r.put s (.telling u l)).tell x u true)
  | giveUp (u : ν) (h : r.phase s = .telling u []) : Move s r (r.put s (.gone u))
  | dropName (u : ν) (h : r.phase s = .gone u) : Move s r (r.put s (.parted u))
  | lookBack (u : ν) (l : List σ) (h : r.phase s = .parted u) (hl : r.Others u l) :
      Move s r (r.put s (.parting u l))
  | tellOff (u : ν) (x : σ) (l : List σ) (h : r.phase s = .parting u (x :: l))
      (hlate : ¬ r.Online u ∨ r.OwesOn u x) : Move s r ((r.put s (.parting u l)).tell x u false)

theorem tell_other {r : Roll ν σ} {x s : σ} {u v : ν} (b : Bool) (h : ¬ (s = x ∧ v = u)) :
    (r.tell x u b).told s v = r.told s v := by
  show Function.update r.told x _ s v = r.told s v
  by_cases hs : s = x
  · subst hs
    rw [Function.update_self]
    exact Function.update_of_ne (fun hv => h ⟨rfl, hv⟩) ..
  · exact congrFun (Function.update_of_ne hs ..) v

theorem tell_self (r : Roll ν σ) (x : σ) (u : ν) (b : Bool) : (r.tell x u b).told x u = some b := by
  show Function.update r.told x _ x u = some b
  rw [Function.update_self, Function.update_self]

/-- A name is claimed: its session has everybody to tell and the list to read. -/
theorem Inv.claim {r : Roll ν σ} (h : r.Inv) {s : σ} {u : ν} (hs : r.phase s = .checked u)
    (hfree : ¬ r.Online u) : (r.put s (.claimed u)).Inv := by
  have hbefore : (r.phase s).Before := by
    rw [hs]
    trivial
  obtain ⟨htold, hroster, -⟩ := h.fresh s hbefore
  have hholds : ∀ s' v, ((r.put s (.claimed u)).phase s').holds = some v ↔
      (s' = s ∧ v = u) ∨ (s' ≠ s ∧ (r.phase s').holds = some v) := by
    intro s' v
    by_cases hs' : s' = s
    · rw [hs', put_self]
      simp [Phase.holds, eq_comm]
    · rw [put_ne r _ hs']
      simp [hs']
  have honline : ∀ v, v ≠ u → ((r.put s (.claimed u)).Online v ↔ r.Online v) := by
    intro v hv
    constructor
    · rintro ⟨s', hs'⟩
      rcases (hholds s' v).mp hs' with ⟨-, rfl⟩ | ⟨-, hold⟩
      · exact absurd rfl hv
      · exact ⟨s', hold⟩
    · rintro ⟨s', hs'⟩
      refine ⟨s', (hholds s' v).mpr (.inr ⟨?_, hs'⟩)⟩
      rintro rfl
      rw [holds_of_before hbefore] at hs'
      cases hs'
  refine ⟨fun s₁ s₂ v h₁ h₂ => ?_, fun s' hs' => ?_, fun s' hs' => ?_, fun s' o v ho hv => ?_⟩
  · rcases (hholds s₁ v).mp h₁ with ⟨hs₁, hv⟩ | ⟨-, hold₁⟩ <;>
      rcases (hholds s₂ v).mp h₂ with ⟨hs₂, hv'⟩ | ⟨-, hold₂⟩
    · rw [hs₁, hs₂]
    · exact absurd ⟨s₂, hv ▸ hold₂⟩ hfree
    · exact absurd ⟨s₁, hv' ▸ hold₁⟩ hfree
    · exact h.unique s₁ s₂ v hold₁ hold₂
  · exact h.fresh_put id List.not_mem_nil hs'
  · by_cases hne : s' = s
    · rw [hne]
      exact hroster
    · rw [put_ne r _ hne] at hs'
      exact h.early s' hs'
  · rcases (hholds s' o).mp ho with ⟨rfl, rfl⟩ | ⟨hne, ho⟩
    · -- its own knowledge is blank
      have hblank : (r.put s' (.claimed o)).Blank s' v := ⟨htold v, by rw [put_self]; trivial⟩
      exact ⟨fun _ => .inr (.inr hblank), fun _ => .inr (.inr hblank)⟩
    · by_cases hvu : v = u
      · subst hvu
        refine ⟨fun _ => .inr (.inl ⟨s, ?_⟩), fun hoff => absurd ⟨s, ?_⟩ hoff⟩
        · rw [put_self]
          rfl
        · rw [put_self]
          rfl
      · refine (h.right s' o v ho hv).put_other hne (honline v hvu) ?_ ?_
        · rw [hs]
          exact False.elim
        · rw [hs]
          exact False.elim

omit [DecidableEq ν] in
/-- The list is read: what was not told is now known, and so. -/
theorem Inv.read {r : Roll ν σ} (h : r.Inv) {s : σ} {u : ν} {names : List ν} (hs : r.phase s = .named u)
    (hnames : ∀ v, v ∈ names ↔ r.Online v) : (r.put s (.reading u names)).Inv := by
  have hφ : r.Onward (r.phase s) (.reading u names) := by
    rw [hs]
    exact ⟨rfl, fun hb => hb, fun _ => trivial, fun x hx => by cases hx⟩
  refine h.move rfl hφ (fun _ _ _ => rfl) (fun _ _ => rfl) fun s' o v ho hv => ?_
  have hright := h.right s' o v ho hv
  have honline := online_put hφ.holds v
  have hon : (r.phase s).OwesOn v s' → Phase.OwesOn v s' (.reading u names) := by
    rw [hs]
    exact id
  have hoff : (r.phase s).OwesOff v s' → Phase.OwesOff v s' (.reading u names) := by
    rw [hs]
    exact id
  by_cases hne : s' = s
  · subst hne
    -- what it was told, or else what it has just read
    have hsees : ∀ b, (r.Online v ↔ b = true) → r.told s' v = none →
        (r.put s' (.reading u names)).Sees s' v b := fun b hb hnone =>
      .inr ⟨hnone, names, .inr ⟨u, put_self ..⟩, (hnames v).trans hb⟩
    refine ⟨fun h' => ?_, fun h' => ?_⟩
    · have ho' := honline.mp h'
      rcases hright.on ho' with (htold | ⟨hnone, -⟩) | howes | ⟨hnone, -⟩
      · exact .inl (.inl htold)
      · exact .inl (hsees true (by simp [ho']) hnone)
      · exact .inr (.inl (exists_put hon howes))
      · exact .inl (hsees true (by simp [ho']) hnone)
    · have ho' : ¬ r.Online v := fun ho' => h' (honline.mpr ho')
      rcases hright.off ho' with (htold | ⟨hnone, -⟩) | howes | ⟨hnone, -⟩
      · exact .inl (.inl htold)
      · exact .inl (hsees false (by simp [ho']) hnone)
      · exact .inr (.inl (exists_put hoff howes))
      · exact .inl (hsees false (by simp [ho']) hnone)
  · exact hright.put_other hne honline hon hoff

omit [DecidableEq ν] in
/-- The list is handed over. -/
theorem Inv.greet {r : Roll ν σ} (h : r.Inv) {s : σ} {u : ν} {names names' : List ν}
    (hs : r.phase s = .reading u names) (hnames : ∀ v, v ≠ u → (v ∈ names' ↔ v ∈ names)) :
    ((r.put s (.welcomed u)).welcome s names').Inv := by
  have hφ : r.Onward (r.phase s) (.welcomed u) := by
    rw [hs]
    exact ⟨rfl, fun hb => hb.elim, fun hb => hb.elim, fun x hx => by cases hx⟩
  have hother : ∀ s', s' ≠ s → ((r.put s (.welcomed u)).welcome s names').roster s' = r.roster s' :=
    fun s' hne => Function.update_of_ne hne ..
  refine h.move rfl hφ (fun _ _ _ => rfl) (fun s' hs' => hother s' ?_) fun s' o v ho hv => ?_
  · rintro rfl
    have hself : ((r.put s' (.welcomed u)).welcome s' names').phase s' = .welcomed u := put_self ..
    rw [hself] at hs'
    exact hs'.elim id id
  · have hright := h.right s' o v ho hv
    have honline : ((r.put s (.welcomed u)).welcome s names').Online v ↔ r.Online v :=
      online_put hφ.holds v
    have hon : (r.phase s).OwesOn v s' → Phase.OwesOn v s' (.welcomed u) := by
      rw [hs]
      exact id
    have hoff : (r.phase s).OwesOff v s' → Phase.OwesOff v s' (.welcomed u) := by
      rw [hs]
      exact id
    -- the greeted session sees by its list from now on; for the others nothing has changed
    by_cases hne : s' = s
    · subst hne
      have hroster : ((r.put s' (.welcomed u)).welcome s' names').roster s' = some names' :=
        Function.update_self ..
      rw [hs] at ho
      cases ho
      have hnone' := h.early s' (by rw [hs]; trivial)
      have hsees : ∀ b, r.Sees s' v b → ((r.put s' (.welcomed u)).welcome s' names').Sees s' v b := by
        rintro b (htold | ⟨hnone, names₁, hnames₁, hb⟩)
        · exact .inl htold
        · refine .inr ⟨hnone, names', .inl hroster, ?_⟩
          rcases hnames₁ with hr | ⟨o, ho⟩
          · rw [hnone'] at hr
            cases hr
          · rw [hs] at ho
            cases ho
            exact (hnames v hv).trans hb
      have hblank : ¬ r.Blank s' v := by
        rintro ⟨-, hun⟩
        rw [hs] at hun
        exact hun
      refine ⟨fun h' => ?_, fun h' => ?_⟩
      · exact (hright.on (honline.mp h')).imp (hsees true)
          (.imp (exists_put hon) fun hb => absurd hb hblank)
      · exact (hright.off fun ho' => h' (honline.mpr ho')).imp (hsees false)
          (.imp (exists_put hoff) fun hb => absurd hb hblank)
    · have hput := hright.put_other hne honline hon hoff
      have hsees : ∀ b, (r.put s (.welcomed u)).Sees s' v b →
          ((r.put s (.welcomed u)).welcome s names').Sees s' v b := by
        intro b hb
        unfold Sees at hb ⊢
        rw [hother s' hne]
        exact hb
      exact ⟨fun h' => (hput.on h').imp_left (hsees true), fun h' => (hput.off h').imp_left (hsees false)⟩

/-- Telling one session of one user changes nothing else. -/
theorem Right.tell {r : Roll ν σ} {x s : σ} {u v : ν} {b : Bool} (h : r.Right s v)
    (hne : ¬ (s = x ∧ v = u)) : (r.tell x u b).Right s v := by
  have htold := tell_other (r := r) b hne
  have hsees : ∀ b', r.Sees s v b' → (r.tell x u b).Sees s v b' := by
    intro b' hb
    unfold Sees at hb ⊢
    rw [htold]
    exact hb
  have hblank : r.Blank s v → (r.tell x u b).Blank s v := by
    intro hb
    unfold Blank at hb ⊢
    rw [htold]
    exact hb
  exact ⟨fun h' => (h.on h').imp (hsees true) (.imp_right hblank),
    fun h' => (h.off h').imp (hsees false) (.imp_right hblank)⟩

/-- The next of the others is told. -/
theorem Inv.tell {r : Roll ν σ} (h : r.Inv) {s x : σ} {φ : Phase ν σ} {u : ν} {b : Bool}
    (hφ : r.Onward (r.phase s) φ) (hx : x ∈ (r.phase s).rest)
    (hon : ∀ v y, ¬ (y = x ∧ v = u) → (r.phase s).OwesOn v y → φ.OwesOn v y)
    (hoff : ∀ v y, ¬ (y = x ∧ v = u) → (r.phase s).OwesOff v y → φ.OwesOff v y)
    (hunread : ¬ (r.phase s).Unread) (hread : ∀ o names, r.phase s ≠ .reading o names)
    (hself : ((r.put s φ).tell x u b).Right x u) : ((r.put s φ).tell x u b).Inv := by
  refine h.move rfl hφ (fun s' hs' v => ?_) (fun _ _ => rfl) fun s' o v ho hv => ?_
  · -- a session that is not in the registry is not on anybody's way
    refine tell_other (r := r.put s φ) b fun he => ?_
    exact (h.fresh s' hs').2.2 s (he.1 ▸ hx)
  · by_cases he : s' = x ∧ v = u
    · obtain ⟨rfl, rfl⟩ := he
      exact hself
    · refine Right.tell ?_ he
      have hright := h.right s' o v ho hv
      have honline := online_put hφ.holds v
      by_cases hne : s' = s
      · subst hne
        have hsees : ∀ b', r.Sees s' v b' → (r.put s' φ).Sees s' v b' := by
          rintro b' (htold | ⟨hnone, names, hnames, hb⟩)
          · exact .inl htold
          · refine .inr ⟨hnone, names, .inl (hnames.resolve_right ?_), hb⟩
            rintro ⟨o', ho'⟩
            exact hread o' names ho'
        refine ⟨fun h' => ?_, fun h' => ?_⟩
        · exact (hright.on (honline.mp h')).imp (hsees true)
            (.imp (exists_put (hon v s' he)) fun hb => absurd hb.2 hunread)
        · exact (hright.off fun ho' => h' (honline.mpr ho')).imp (hsees false)
            (.imp (exists_put (hoff v s' he)) fun hb => absurd hb.2 hunread)
      · exact hright.put_other hne honline (hon v s' he) (hoff v s' he)

theorem Inv.tellOn {r : Roll ν σ} (h : r.Inv) {s x : σ} {u : ν} {l : List σ}
    (hs : r.phase s = .telling u (x :: l)) : ((r.put s (.telling u l)).tell x u true).Inv := by
  have hφ : r.Onward (r.phase s) (.telling u l) := by
    rw [hs]
    exact ⟨rfl, fun hb => hb.elim, fun hb => hb.elim, fun y hy => .inl (List.mem_cons_of_mem _ hy)⟩
  refine h.tell hφ ?_ (fun v y hne howes => ?_) (fun v y _ howes => ?_) ?_ ?_ ?_
  · rw [hs]
    exact List.mem_cons_self ..
  · rw [hs] at howes
    obtain ⟨rfl, hy⟩ := howes
    exact ⟨rfl, (List.mem_cons.mp hy).resolve_left fun he => hne ⟨he, rfl⟩⟩
  · rw [hs] at howes
    exact howes.elim
  · rw [hs]
    exact id
  · rw [hs]
    exact fun _ _ he => by cases he
  · -- the user is here: it is their session that tells
    have honline : ((r.put s (.telling u l)).tell x u true).Online u := ⟨s, by
      show ((r.put s (.telling u l)).phase s).holds = some u
      rw [put_self]
      rfl⟩
    exact ⟨fun _ => .inl (.inl (tell_self ..)), fun hoff => absurd honline hoff⟩

theorem Inv.tellOff {r : Roll ν σ} (h : r.Inv) {s x : σ} {u : ν} {l : List σ}
    (hs : r.phase s = .parting u (x :: l)) (hlate : ¬ r.Online u ∨ r.OwesOn u x) :
    ((r.put s (.parting u l)).tell x u false).Inv := by
  have hφ : r.Onward (r.phase s) (.parting u l) := by
    rw [hs]
    exact ⟨rfl, fun hb => hb.elim, fun hb => hb.elim, fun y hy => .inl (List.mem_cons_of_mem _ hy)⟩
  have hon : ∀ v y, (r.phase s).OwesOn v y → Phase.OwesOn v y (.parting u l) := by
    intro v y howes
    rw [hs] at howes
    exact howes.elim
  refine h.tell hφ ?_ (fun v y _ => hon v y) (fun v y hne howes => ?_) ?_ ?_ ?_
  · rw [hs]
    exact List.mem_cons_self ..
  · rw [hs] at howes
    obtain ⟨rfl, hy⟩ := howes
    exact ⟨rfl, (List.mem_cons.mp hy).resolve_left fun he => hne ⟨he, rfl⟩⟩
  · rw [hs]
    exact id
  · rw [hs]
    exact fun _ _ he => by cases he
  · have honline : ((r.put s (.parting u l)).tell x u false).Online u ↔ r.Online u :=
      online_put hφ.holds u
    refine ⟨fun h' => .inr (.inl ?_), fun _ => .inl (.inl (tell_self ..))⟩
    exact exists_put (hon u x) (hlate.resolve_left fun hn => hn (honline.mp h'))

omit [DecidableEq ν] in
/-- The name is given up, and everybody is to be told. -/
theorem Inv.giveUp {r : Roll ν σ} (h : r.Inv) {s : σ} {u : ν} (hs : r.phase s = .telling u []) :
    (r.put s (.gone u)).Inv := by
  have hholds : ∀ s' v, ((r.put s (.gone u)).phase s').holds = some v ↔
      s' ≠ s ∧ (r.phase s').holds = some v := by
    intro s' v
    by_cases hs' : s' = s
    · rw [hs', put_self]
      simp [Phase.holds]
    · rw [put_ne r _ hs']
      simp [hs']
  have hmine : (r.phase s).holds = some u := by
    rw [hs]
    rfl
  have honline : ∀ v, v ≠ u → ((r.put s (.gone u)).Online v ↔ r.Online v) := by
    intro v hv
    constructor
    · rintro ⟨s', hs'⟩
      exact ⟨s', ((hholds s' v).mp hs').2⟩
    · rintro ⟨s', hs'⟩
      refine ⟨s', (hholds s' v).mpr ⟨?_, hs'⟩⟩
      rintro rfl
      exact hv (Option.some.inj (hs'.symm.trans hmine))
  refine ⟨fun s₁ s₂ v h₁ h₂ => ?_, fun s' hs' => ?_, fun s' hs' => ?_, fun s' o v ho hv => ?_⟩
  · exact h.unique s₁ s₂ v ((hholds s₁ v).mp h₁).2 ((hholds s₂ v).mp h₂).2
  · exact h.fresh_put id List.not_mem_nil hs'
  · have hne : s' ≠ s := by
      rintro rfl
      rw [put_self] at hs'
      exact hs'
    rw [put_ne r _ hne] at hs'
    exact h.early s' hs'
  · obtain ⟨hne, ho⟩ := (hholds s' o).mp ho
    by_cases hvu : v = u
    · subst hvu
      refine ⟨fun ⟨s'', hs''⟩ => ?_, fun _ => .inr (.inl ⟨s, by rw [put_self]; rfl⟩)⟩
      obtain ⟨hne', hold⟩ := (hholds s'' v).mp hs''
      exact absurd (h.unique s'' s v hold hmine) hne'
    · refine (h.right s' o v ho hv).put_other hne (honline v hvu) ?_ ?_
      · rw [hs]
        rintro ⟨-, hmem⟩
        cases hmem
      · rw [hs]
        exact False.elim

/-- **Every step keeps the invariant.** -/
theorem Move.inv {r r' : Roll ν σ} {s : σ} (hm : Move s r r') (h : r.Inv) : r'.Inv := by
  cases hm with
  | claim u hs hfree => exact h.claim hs hfree
  | read u names hs hnames => exact h.read hs hnames
  | greet u names names' hs hnames => exact h.greet hs hnames
  | tellOn u x l hs => exact h.tellOn hs
  | giveUp u hs => exact h.giveUp hs
  | tellOff u x l hs hlate => exact h.tellOff hs hlate
  -- the other moves change the phase only: what it owes, what it holds, what it has seen
  | check u hs =>
    refine h.put ?_ ?_ ?_ ?_ ?_ <;> rw [hs]
    · exact ⟨rfl, fun _ => trivial, fun hb => hb.elim, fun x hx => by cases hx⟩
    · exact fun _ _ _ _ _ ho => ho.elim
    · exact fun _ _ _ _ _ ho => ho.elim
    · exact fun hu => hu.elim
    · exact fun _ _ he => by cases he
  | refuse u hs =>
    refine h.put ?_ ?_ ?_ ?_ ?_ <;> rw [hs]
    · exact ⟨rfl, fun _ => trivial, fun hb => hb.elim, fun x hx => by cases hx⟩
    · exact fun _ _ _ _ _ ho => ho.elim
    · exact fun _ _ _ _ _ ho => ho.elim
    · exact fun hu => hu.elim
    · exact fun _ _ he => by cases he
  | setName u hs =>
    refine h.put ?_ ?_ ?_ ?_ ?_ <;> rw [hs]
    · exact ⟨rfl, fun hb => hb.elim, fun _ => trivial, fun x hx => by cases hx⟩
    · exact fun _ _ _ _ _ ho => ho
    · exact fun _ _ _ _ _ ho => ho.elim
    · exact fun _ => trivial
    · exact fun _ _ he => by cases he
  | look u l hs hl =>
    refine h.put ?_ ?_ ?_ ?_ ?_ <;> rw [hs]
    · refine ⟨rfl, fun hb => hb.elim, fun hb => hb.elim, fun x hx => .inr ?_⟩
      obtain ⟨v, -, hv⟩ := (hl x).mp hx
      exact ⟨v, hv⟩
    · intro v x o ho hv howes
      have he : u = v := howes
      exact ⟨he, (hl x).mpr ⟨o, fun hou => hv (he ▸ hou.symm), ho⟩⟩
    · exact fun _ _ _ _ _ ho => ho.elim
    · exact fun hu => hu.elim
    · exact fun _ _ he => by cases he
  | dropName u hs =>
    refine h.put ?_ ?_ ?_ ?_ ?_ <;> rw [hs]
    · exact ⟨rfl, fun hb => hb.elim, fun hb => hb.elim, fun x hx => by cases hx⟩
    · exact fun _ _ _ _ _ ho => ho.elim
    · exact fun _ _ _ _ _ ho => ho
    · exact fun hu => hu.elim
    · exact fun _ _ he => by cases he
  | lookBack u l hs hl =>
    refine h.put ?_ ?_ ?_ ?_ ?_ <;> rw [hs]
    · refine ⟨rfl, fun hb => hb.elim, fun hb => hb.elim, fun x hx => .inr ?_⟩
      obtain ⟨v, -, hv⟩ := (hl x).mp hx
      exact ⟨v, hv⟩
    · exact fun _ _ _ _ _ ho => ho.elim
    · intro v x o ho hv howes
      have he : u = v := howes
      exact ⟨he, (hl x).mpr ⟨o, fun hou => hv (he ▸ hou.symm), ho⟩⟩
    · exact fun hu => hu.elim
    · exact fun _ _ he => by cases he

omit [DecidableEq σ] [DecidableEq ν] in
/-- **When nobody is on the way, what each session knows is so.** -/
theorem Inv.agree {r : Roll ν σ} (h : r.Inv) (hrest : ∀ s, (r.phase s).Rests) {s : σ} {o u : ν}
    (ho : (r.phase s).holds = some o) (hu : u ≠ o) :
    ∃ b, (r.Online u ↔ b = true) ∧
      (r.told s u = some b ∨ r.told s u = none ∧ ∃ names, r.roster s = some names ∧ (u ∈ names ↔ b = true)) := by
  have hright := h.right s o u ho hu
  have howesOn : ¬ r.OwesOn u s := by
    rintro ⟨s', hs'⟩
    have hr := hrest s'
    cases hp : r.phase s' with
    | telling v l =>
      rw [hp] at hr hs'
      cases l with
      | nil => cases hs'.2
      | cons x l => exact hr
    | _ => rw [hp] at hr hs'; first | exact hs' | exact hr
  have howesOff : ¬ r.OwesOff u s := by
    rintro ⟨s', hs'⟩
    have hr := hrest s'
    cases hp : r.phase s' with
    | parting v l =>
      rw [hp] at hr hs'
      cases l with
      | nil => cases hs'.2
      | cons x l => exact hr
    | _ => rw [hp] at hr hs'; first | exact hs' | exact hr
  have hblank : ¬ r.Blank s u := by
    rintro ⟨-, hs'⟩
    have hr := hrest s
    cases hp : r.phase s <;> rw [hp] at hr hs' <;> first | exact hs' | exact hr
  have hsees : ∀ b, r.Sees s u b →
      r.told s u = some b ∨ r.told s u = none ∧ ∃ names, r.roster s = some names ∧ (u ∈ names ↔ b = true) := by
    rintro b (htold | ⟨hnone, names, hnames | ⟨o', ho'⟩, hb⟩)
    · exact .inl htold
    · exact .inr ⟨hnone, names, hnames, hb⟩
    · have hr := hrest s
      rw [ho'] at hr
      exact hr.elim
  by_cases hon : r.Online u
  · refine ⟨true, by simp [hon], hsees true ?_⟩
    exact (hright.on hon).resolve_right fun h' => h'.elim howesOn hblank
  · refine ⟨false, by simp [hon], hsees false ?_⟩
    exact (hright.off hon).resolve_right fun h' => h'.elim howesOff hblank

end Roll

end Ciphertext
