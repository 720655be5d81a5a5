import Ciphertext.Prog.Latest
import Ciphertext.Server.Registry

/-!
# What a connection has been sent since it logged in

A client learns how things are from the frames on its own connection, from the
LOGIN on. `UpToDate` says that the latest of them of some kind is right, and
`upToDate_step` what each step has to do to keep it so: change nothing and send
none, or send one and none that is wrong, or concern a matter the connection has
not been sent anything about.

`Informed` is the weaker half, that there is such a frame at all. Both are stated for one
name: the connection a name is held on may change between two steps, and what an earlier
connection was sent counts for nothing. `Server/ContactLists.lean` and
`Server/MemberLists.lean` instantiate them, one with contact lists and one with the members
of rooms.
-/

namespace Ciphertext

open Prog

variable [Runtime]

/-- The log of a connection: it starts over when nobody is logged in on it. -/
def heardOn (t : Sid) (tr : List Step) : List Delivery :=
  tr.foldl (fun ds st => if st.after.username t = none then [] else ds ++ st.out.filter fun d => d.session = t) []

variable {cfg : Config} {tr : List Step} {w w₀ : World} {t : Sid} {u : Str} {d : Delivery}

omit [Runtime] in
theorem heard_snoc (t : Sid) (tr : List Step) (st : Step) : heardOn t (tr ++ [st]) =
    if st.after.username t = none then [] else heardOn t tr ++ st.out.filter fun d => d.session = t := by
  rw [heardOn, List.foldl_append]
  rfl

/-- Nothing is in it as long as nobody is logged in. -/
theorem Run.heard_none (h : Run cfg w₀ tr w) (ht : w.username t = none) : heardOn t tr = [] := by
  cases h with
  | nil => rfl
  | snoc h i => rw [heard_snoc, if_pos ht]

/-- What is in it is in the outboxes. -/
theorem Run.heard_sent (h : Run cfg w₀ tr w) (hd : d ∈ heardOn t tr) : d ∈ w.sent ∧ d.session = t := by
  induction h with
  | nil => cases hd
  | @snoc tr w h i ih =>
    rw [heard_snoc] at hd
    rw [Step.sent_of]
    split at hd
    · cases hd
    · rcases List.mem_append.mp hd with hd | hd
      · exact ⟨List.mem_append_left _ (ih hd).1, (ih hd).2⟩
      · obtain ⟨hout, hs⟩ := List.mem_filter.mp hd
        exact ⟨List.mem_append_right _ hout, by simpa using hs⟩

/-- The registry finds the connection somebody is logged in on. -/
theorem Wired.get_of_username (hw : Wired w) (h : w.username t = some (.str u)) :
    SessionRegistry.get w (.str u) = some t := by
  have hmem := hw.claimed t _ h
  obtain ⟨t', ht'⟩ := hw.get_some h
  rw [ht']
  unfold SessionRegistry.get at ht'
  obtain ⟨e, he, rfl⟩ := Option.map_eq_some_iff.mp ht'
  obtain ⟨hpy, pre, post, hsplit, hpre⟩ := List.find?_eq_some_iff_append.mp he
  have hdistinct := hw.distinct
  rw [hsplit] at hmem hdistinct
  -- no other entry has the same name
  rcases List.mem_append.mp hmem with hin | hin
  · have hother := hpre _ hin
    rw [(Json.pyEq_str_left _ _).mpr rfl] at hother
    cases hother
  · rcases List.mem_cons.mp hin with heq | hin
    · rw [← heq]
    · have hne := (List.pairwise_cons.mp (List.pairwise_append.mp hdistinct).2.1).1 _ hin
      rw [Json.pyEq_str_left] at hpy
      rw [hpy, (Json.pyEq_str_left _ _).mpr rfl] at hne
      cases hne

/-- A user's connection was theirs before a step, or nobody was logged in on it. -/
theorem get_before {i : Input} (hw : Wired w)
    (hget : SessionRegistry.get (Step.of cfg w i).after (.str u) = some t) :
    SessionRegistry.get w (.str u) = some t ∨ w.username t = none := by
  have hafter := (step_wired hw cfg i).get_eq hget
  rcases step_username cfg w i hafter with hold | ⟨f, -, -, hin, -⟩
  · exact .inl (hw.get_of_username hold)
  · exact .inr hin.nobody

/-! ## The latest frame of a kind -/

variable {kind : Frame → Bool} {tells : World → Frame → Prop}

/-- The latest frame of the kind on the user's connection, if there is one, tells
how things are. -/
def UpToDate (kind : Frame → Bool) (tells : World → Frame → Prop) (u : Str) (tr : List Step) (w : World) : Prop :=
  ∀ t, SessionRegistry.get w (.str u) = some t →
    ∀ d, latest (fun d : Delivery => kind d.frame) (heardOn t tr) = some d → tells w d.frame

/-- The step sends the connection no frame of the kind. -/
def Silent (kind : Frame → Bool) (st : Step) (t : Sid) : Prop :=
  ∀ d ∈ st.out, d.session = t → kind d.frame = false

/-- The last it sends of the kind tells how things are then. -/
def Informs (kind : Frame → Bool) (tells : World → Frame → Prop) (st : Step) (t : Sid) : Prop :=
  ∃ d, latest (fun d : Delivery => kind d.frame) (st.out.filter fun d => d.session = t) = some d ∧
    tells st.after d.frame

omit [Runtime] in
/-- It sends one, and each of them does. -/
theorem informs_of_all {st : Step} (hsome : ∃ d ∈ st.out, d.session = t ∧ kind d.frame = true)
    (hall : ∀ d ∈ st.out, d.session = t → kind d.frame = true → tells st.after d.frame) :
    Informs kind tells st t := by
  obtain ⟨d₀, hd₀, hs₀, hk₀⟩ := hsome
  have hin : d₀ ∈ st.out.filter fun d => d.session = t := List.mem_filter.mpr ⟨hd₀, by simpa using hs₀⟩
  obtain ⟨d, hd⟩ := latest_isSome (p := fun d : Delivery => kind d.frame) ⟨d₀, hin, hk₀⟩
  obtain ⟨hmem, hkind⟩ := mem_of_latest hd
  obtain ⟨hout, hs⟩ := List.mem_filter.mp hmem
  exact ⟨d, hd, hall d hout (by simpa using hs) hkind⟩

/-- **One step.** -/
theorem upToDate_step {i : Input} (h : Run cfg w₀ tr w) (hw : Wired w) (hup : UpToDate kind tells u tr w)
    (hstep : ∀ t, SessionRegistry.get (Step.of cfg w i).after (.str u) = some t →
      Informs kind tells (Step.of cfg w i) t ∨
        Silent kind (Step.of cfg w i) t ∧
          ((∀ g, tells w g → tells (Step.of cfg w i).after g) ∨ ∀ d ∈ heardOn t tr, kind d.frame = false)) :
    UpToDate kind tells u (tr ++ [Step.of cfg w i]) (Step.of cfg w i).after := by
  intro t hget d hd
  have hin := (step_wired hw cfg i).get_eq hget
  have hsome : ¬ (Step.of cfg w i).after.username t = none := by simp [hin]
  rw [heard_snoc, if_neg hsome] at hd
  rcases hstep t hget with ⟨d₀, hd₀, htells⟩ | ⟨hsilent, hsame⟩
  · rw [latest_append_of_mem ⟨d₀, mem_of_latest hd₀⟩, hd₀] at hd
    exact Option.some.inj hd ▸ htells
  · rw [latest_append_of_none] at hd
    · rcases hsame with hkeep | hnone
      · rcases get_before hw hget with hbefore | hnobody
        · exact hkeep _ (hup t hbefore d hd)
        · rw [h.heard_none hnobody] at hd
          cases hd
      · rw [latest_eq_none hnone] at hd
        cases hd
    · intro x hx
      obtain ⟨hout, hs⟩ := List.mem_filter.mp hx
      exact hsilent x hout (by simpa using hs)

/-- The user's connection has been sent a frame of the kind. -/
def Informed (kind : Frame → Bool) (u : Str) (tr : List Step) (w : World) : Prop :=
  ∀ t, SessionRegistry.get w (.str u) = some t →
    ∃ d, latest (fun d : Delivery => kind d.frame) (heardOn t tr) = some d

/-- Once informed, always informed. -/
theorem informed_step {i : Input} (hw : Wired w) (hup : Informed kind u tr w)
    (hstep : ∀ t, SessionRegistry.get (Step.of cfg w i).after (.str u) = some t →
      Informs kind tells (Step.of cfg w i) t ∨ w.username t ≠ none) :
    Informed kind u (tr ++ [Step.of cfg w i]) (Step.of cfg w i).after := by
  intro t hget
  have hin := (step_wired hw cfg i).get_eq hget
  have hsome : ¬ (Step.of cfg w i).after.username t = none := by simp [hin]
  rw [heard_snoc, if_neg hsome]
  rcases hstep t hget with ⟨d, hd, -⟩ | hbefore
  · obtain ⟨hmem, hkind⟩ := mem_of_latest hd
    exact latest_isSome ⟨d, List.mem_append_right _ hmem, hkind⟩
  · obtain ⟨d, hd⟩ := hup t ((get_before hw hget).resolve_right hbefore)
    obtain ⟨hmem, hkind⟩ := mem_of_latest hd
    exact latest_isSome ⟨d, List.mem_append_left _ hmem, hkind⟩

end Ciphertext
