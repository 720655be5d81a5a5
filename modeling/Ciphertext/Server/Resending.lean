import Ciphertext.Server.Addressee
import Ciphertext.Server.Views

/-!
# Submitting a message again

A client that reconnects may send a MSG again under the id it has. The store
keeps one row for it, but nothing else looks at the id: a copy goes to every
recipient who is connected, and to the queue of everybody else who is not in it.
So a submission issues a copy for a recipient who is online, and for one who is
offline without the message waiting for them. Each copy issued is delivered at
most once, live or at the login that empties the queue, and the potential
argument is that copies delivered and copies waiting never outnumber those issued.

`Tally` is that potential, and `Run.sent_once` the result: in every run in which at most
one submission issues a copy of a message for a recipient, the recipient is sent it at
most once. Both counts are read off the steps. In `repeated_twice` the recipient is
online and the MSG is sent again, so two copies are issued and two arrive, although
`docs/protocol.md` has the id for deduplication.
-/

namespace Ciphertext

open Prog MessageRouter

section Copies

variable [Runtime] {cfg : Config} {tr : List Step} {w : World} {st : Step} {ρ : Row} {r : Str}

/-! ## Copies issued and copies delivered -/

/-- A message is what the store would keep of it. The step submits it. -/
def Submits (st : Step) (ρ : Row) : Prop :=
  ∃ s f me, st.input = .frame s f ∧ f.type = .msg ∧ st.before.username s = some me ∧ Stores me f ρ

/-- The step is an accepted MSG under this id, with this user among those it is for. -/
def Reaches (cfg : Config) (st : Step) (id : Option Str) (r : Str) : Prop :=
  ∃ s f me target g, st.input = .frame s f ∧ f.type = .msg ∧ st.before.username s = some me ∧
    Accepts cfg st.before me f target ∧ Sql.text f.id = .ok id ∧ (r, g) ∈ copies st.before me f target

/-- The message is stored, whatever receipts it has. -/
def Stored (w : World) (ρ : Row) : Prop := ∃ row ∈ w.messages, row.unmarked = ρ

/-- The message is queued for this user. -/
def Waits (w : World) (ρ : Row) (r : Str) : Prop := ∃ row ∈ MessageStore.queued w r, row.unmarked = ρ

/-- The step puts a copy of the message on its way to the user: it submits the
message while they are online; or, while they are offline and the message does not
wait for them, it is a MSG under the id that the message is stored under. -/
def Issues (cfg : Config) (st : Step) (ρ : Row) (r : Str) : Prop :=
  Reaches cfg st ρ.id r ∧
    match SessionRegistry.get st.before (.str r) with
    | some _ => Submits st ρ
    | none => ¬ Waits st.before ρ r ∧ (Stored st.before ρ ∨ (Submits st ρ ∧ st.before.fresh ρ.id))

/-- The step sends the user a copy of the message: live, or from the store. -/
def Carries (st : Step) (ρ : Row) (r : Str) (d : Delivery) : Prop :=
  d.frame.type = .msg ∧ (∃ u, d.holder = some u ∧ isUser r u = true) ∧
    (Submits st ρ ∨ (st.input.type = some .login ∧ Stored st.before ρ ∧ Hands ρ d.frame))

/-- Everything the steps put in outboxes, in order. -/
def outputs (tr : List Step) : List (Step × Delivery) := tr.flatMap fun st => st.out.map fun d => (st, d)

/-- At most one copy of the message is sent to the user. -/
def SentOnce (tr : List Step) (ρ : Row) (r : Str) : Prop :=
  (outputs tr).Pairwise fun a b => ¬ (Carries a.1 ρ r a.2 ∧ Carries b.1 ρ r b.2)

/-- At most one is issued. -/
def IssuedOnce (cfg : Config) (tr : List Step) (ρ : Row) (r : Str) : Prop :=
  tr.Pairwise fun a b => ¬ (Issues cfg a ρ r ∧ Issues cfg b ρ r)

omit [Runtime] in
/-- If all but one element lack a property, no two have it. -/
theorem pairwise_not_both {α : Type} {P : α → Prop} (pre post : List α) {a : α} (hpre : ∀ b ∈ pre, ¬ P b)
    (hpost : ∀ b ∈ post, ¬ P b) : (pre ++ a :: post).Pairwise fun a b => ¬ (P a ∧ P b) := by
  induction pre with
  | nil =>
    refine List.pairwise_cons.mpr ⟨fun b hb hboth => hpost b hb hboth.2, ?_⟩
    exact List.pairwise_of_forall_mem_list fun b hb _ _ hboth => hpost b hb hboth.1
  | cons x pre ih =>
    refine List.pairwise_cons.mpr ⟨fun b _ hboth => hpre x (List.mem_cons_self ..) hboth.1, ?_⟩
    exact ih fun b hb => hpre b (List.mem_cons_of_mem _ hb)

/-! ## What one step does with the copies -/

omit [Runtime] in
theorem name_of_isUser [Runtime] {r name : Str} (h : isUser r (.str name) = true) : name = r := by
  unfold isUser Sql.text Sql.str at h
  by_cases henc : name.encodable = true
  · simpa [henc, Except.map, Except.toOption] using h
  · simp [henc, Except.map, Except.toOption] at h

omit [Runtime] in
/-- A step that is no MSG and no LOGIN sends no copy. -/
theorem not_carries_of_type [Runtime] {d : Delivery} (hm : st.input.type ≠ some .msg)
    (hl : st.input.type ≠ some .login) : ¬ Carries st ρ r d := by
  intro h
  obtain ⟨-, -, hsub | ⟨ht, -⟩⟩ := h
  · obtain ⟨s, f, me, hi, ht, -⟩ := hsub
    refine hm ?_
    rw [hi]
    exact congrArg some ht
  · exact hl ht

/-- A live copy issues one: the message is submitted while its recipient is online. -/
theorem issues_of_live {i : Input} {d : Delivery} (hw : Wired w) (ht : i.type = some .msg)
    (h : d ∈ (Step.of cfg w i).out) (hc : Carries (Step.of cfg w i) ρ r d) :
    Issues cfg (Step.of cfg w i) ρ r ∧ (SessionRegistry.get w (.str r)).isSome = true := by
  obtain ⟨hmsg, ⟨u, hu, huser⟩, hsub | ⟨hlog, -⟩⟩ := hc
  · obtain ⟨s, f, me, hi, hf, hme, hst⟩ := hsub
    rcases step_msgs cfg w i h hmsg with hrel | ⟨name, row, hfl⟩
    · obtain ⟨s', f', me', target, name, hi', hf', hme', hacc, hcopy, hget⟩ := hrel.origin
      obtain ⟨rfl, rfl⟩ := Input.frame.inj (hi.symm.trans hi')
      have hholder : d.holder = some (.str name) := hrel.holder.trans (hw.get_eq hget)
      obtain rfl : u = .str name := Option.some.inj (hu.symm.trans hholder)
      obtain rfl := name_of_isUser huser
      refine ⟨⟨⟨s, f, me', target, d.frame, hi', hf', hme', hacc, hst.id, hcopy⟩, ?_⟩, ?_⟩
      · rw [hget]
        exact ⟨s, f, me, hi, hf, hme, hst⟩
      · exact Option.isSome_iff_exists.mpr ⟨_, hget⟩
    · obtain ⟨s', f', entry, hi', hf', -⟩ := hfl.origin
      rw [show i = _ from hi'] at ht
      exact absurd (Option.some.inj ht) (by rw [hf']; decide)
  · rw [show i.type = _ from hlog] at ht
    cases ht

/-- The frames a step relays: one for each of some people. -/
theorem step_relays (cfg : Config) {i : Input} (hm : w.memberships.Nodup) (ht : i.type = some .msg) :
    ∃ done : List (Str × Frame), (done.map Prod.fst).Nodup ∧
      (Step.of cfg w i).out.filter (fun d => d.frame.type = .msg) = live w done := by
  have hout := Step.msgs_of cfg w i
  cases i with
  | hangup s => cases ht
  | frame s f =>
    have hf : f.type = .msg := Option.some.inj ht
    have hnone : msgs (Step.of cfg w (.frame s f)).after = msgs w → ∃ done : List (Str × Frame),
        (done.map Prod.fst).Nodup ∧
          (Step.of cfg w (.frame s f)).out.filter (fun d => d.frame.type = .msg) = live w done := by
      intro hsame
      refine ⟨[], List.nodup_nil, ?_⟩
      rw [hsame] at hout
      exact List.append_cancel_left ((List.append_nil _).trans hout).symm
    cases hu : w.username s with
    | none => exact hnone (handle_msg_nobody cfg s hf hu).msgs
    | some me =>
      have hrun : (Step.of cfg w (.frame s f)).after = ((message cfg s me f).exec w).2 :=
        congrArg Prod.snd (handle_msg cfg s hf hu)
      rcases message_effect cfg w s me f with ⟨ha, -⟩ | ⟨target, -, done, rest, hc, -, hd⟩
      · exact hnone (hrun ▸ ha.msgs)
      · have hnd := copies_nodup hm me f target
        rw [hc, List.map_append] at hnd
        refine ⟨done, (List.nodup_append.mp hnd).1, ?_⟩
        rw [hrun, hd.msgs] at hout
        exact (List.append_cancel_left hout).symm

/-- The frames a step hands over: what was queued for the name, which then is not. -/
theorem step_hands (cfg : Config) (w : World) {i : Input} (ht : i.type = some .login) :
    (Step.of cfg w i).out.filter (fun d => d.frame.type = .msg) = [] ∨
      ∃ s u name, Sql.text u = .ok (some name) ∧
        (Step.of cfg w i).after.pending = w.pending.filter (fun p => p.2 != name) ∧
        (Step.of cfg w i).out.filter (fun d => d.frame.type = .msg) =
          (handed u (MessageStore.queued w name)).1.map fun g => ⟨s, some u, g⟩ := by
  have hout := Step.msgs_of cfg w i
  have hnone : msgs (Step.of cfg w i).after = msgs w →
      (Step.of cfg w i).out.filter (fun d => d.frame.type = .msg) = [] := by
    intro hsame
    rw [hsame] at hout
    exact List.append_cancel_left ((List.append_nil _).trans hout).symm
  cases i with
  | hangup s => cases ht
  | frame s f =>
    have hf : f.type = .login := Option.some.inj ht
    have hrun : (Step.of cfg w (.frame s f)).after = ((login cfg s f).exec w).2 :=
      congrArg (fun q => (RouterM.exec q w).2) (handle_login cfg s hf)
    rw [hrun] at hnone hout ⊢
    rcases login_effect cfg s f w with ⟨ha, -⟩ | ⟨-, hh, -⟩
    · exact .inl (hnone ha.msgs)
    · generalize (login cfg s f).exec w = res at hh hnone hout
      obtain ⟨e, w'⟩ := res
      cases hh with
      | unreached _ hm => exact .inl (hnone hm)
      | storeless _ _ hm => exact .inl (hnone hm)
      | nameless _ _ _ hm => exact .inl (hnone hm)
      | flushed _ hname hp hm =>
        refine .inr ⟨s, f.get "user", _, hname, hp, ?_⟩
        dsimp only at hm hout
        rw [hm] at hout
        exact (List.append_cancel_left hout).symm

/-- Frames handed over for rows with different ids have different ids. -/
theorem handed_ids {u : Json} {rows : List Row} (h : rows.Pairwise fun a b => a.id ≠ b.id)
    (hsome : ∀ row ∈ rows, row.id.isSome = true) :
    (handed u rows).1.Pairwise fun g g' => g.id ≠ g'.id := by
  induction rows with
  | nil => exact .nil
  | cons row rows ih =>
    obtain ⟨hrow, hrows⟩ := List.pairwise_cons.mp h
    have hrest := ih hrows fun x hx => hsome x (List.mem_cons_of_mem _ hx)
    unfold handed
    split
    · exact .nil
    · exact hrest
    · refine List.pairwise_cons.mpr ⟨fun g hg he => ?_, hrest⟩
      obtain ⟨row', hr', entry', -, rfl⟩ := mem_handed hg
      obtain ⟨id, hid⟩ := Option.isSome_iff_exists.mp (hsome row (List.mem_cons_self ..))
      obtain ⟨id', hid'⟩ := Option.isSome_iff_exists.mp (hsome row' (List.mem_cons_of_mem _ hr'))
      simp only [flushed, hid, hid', Option.map_some, Option.getD_some, Json.str.injEq] at he
      exact hrow row' hr' (by rw [hid, hid', he])

omit [Runtime] in
theorem queued_ids (h : UniqueIds w.messages) (name : Str) :
    ((MessageStore.queued w name).Pairwise fun a b => a.id ≠ b.id) ∧
      ∀ row ∈ MessageStore.queued w name, row.id.isSome = true := by
  have hsome : ∀ row ∈ MessageStore.queued w name, row.id.isSome = true := by
    intro row hrow
    obtain ⟨-, id, hid, -⟩ := mem_queued_iff.mp hrow
    exact Option.isSome_iff_exists.mpr ⟨id, hid⟩
  refine ⟨?_, hsome⟩
  unfold MessageStore.queued at hsome ⊢
  refine (List.perm_insertionSort _ _).symm.pairwise ?_ fun hne => hne.symm
  refine (h.filter _).imp_of_mem fun ha _ hab => ?_
  have ha := hsome _ ((List.mem_insertionSort _).mpr ha)
  exact hab.resolve_left fun hn => by simp [hn] at ha

/-- **Within a step** nobody is sent two copies. -/
theorem step_sentOnce {i : Input} (hw : Wired w) (hm : w.memberships.Nodup) (hu : UniqueIds w.messages) :
    (Step.of cfg w i).out.Pairwise fun a b =>
      ¬ (Carries (Step.of cfg w i) ρ r a ∧ Carries (Step.of cfg w i) ρ r b) := by
  by_cases hmsg : i.type = some .msg
  · obtain ⟨done, hnd, hout⟩ := step_relays cfg hm hmsg
    have hlive : (live w done).Pairwise fun a b =>
        ¬ (Carries (Step.of cfg w i) ρ r a ∧ Carries (Step.of cfg w i) ρ r b) := by
      -- a live copy that is for `r` is under the name `r`, and there is one of those
      have hname : ∀ c : Str × Frame, ∀ d, ((SessionRegistry.get w (.str c.1)).map fun t =>
          (⟨t, w.username t, c.2⟩ : Delivery)) = some d → Carries (Step.of cfg w i) ρ r d → c.1 = r := by
        intro c d hd hc
        obtain ⟨t, hget, rfl⟩ := Option.map_eq_some_iff.mp hd
        obtain ⟨-, ⟨u, hu, huser⟩, -⟩ := hc
        obtain rfl : Json.str c.1 = u := Option.some.inj ((hw.get_eq hget).symm.trans hu)
        exact name_of_isUser huser
      refine List.pairwise_filterMap.mpr ((List.pairwise_map.mp hnd).imp fun {c c'} hne => ?_)
      intro d hd d' hd' hboth
      exact hne ((hname c d hd hboth.1).trans (hname c' d' hd' hboth.2).symm)
    rw [← hout] at hlive
    refine (List.pairwise_filter.mp hlive).imp fun {a b} hab hboth => ?_
    exact hab (by simpa using hboth.1.1) (by simpa using hboth.2.1) hboth
  by_cases hlog : i.type = some .login
  · have hflush : ((Step.of cfg w i).out.filter fun d => d.frame.type = .msg).Pairwise fun a b =>
        a.frame.id ≠ b.frame.id := by
      rcases step_hands cfg w hlog with hnone | ⟨s, u, name, -, -, hout⟩
      · rw [hnone]
        exact .nil
      · rw [hout]
        obtain ⟨hids, hsome⟩ := queued_ids hu name
        exact List.pairwise_map.mpr (handed_ids hids hsome)
    refine (List.pairwise_filter.mp hflush).imp fun {a b} hab hboth => ?_
    have hhands : ∀ d, Carries (Step.of cfg w i) ρ r d → d.frame.id = (ρ.id.map Json.str).getD .null := by
      intro d hd
      obtain ⟨-, -, hsub | ⟨-, -, hh⟩⟩ := hd
      · obtain ⟨s, f, me, hi, hf, -⟩ := hsub
        rw [show i = _ from hi] at hlog
        exact absurd (Option.some.inj hlog) (by rw [hf]; decide)
      · exact hh.id
    exact hab (by simpa using hboth.1.1) (by simpa using hboth.2.1)
      ((hhands a hboth.1).trans (hhands b hboth.2).symm)
  · exact List.pairwise_of_forall fun a b hboth => not_carries_of_type hmsg hlog hboth.1

omit [Runtime] in
/-- Stored rows with the id of a message are that message, once it is stored. -/
theorem Stored.eq [Runtime] (h : Stored w ρ) (hu : UniqueIds w.messages) {row : Row} {id : Str}
    (hrow : row ∈ w.messages) (hid : row.id = some id) (hρ : ρ.id = some id) : row.unmarked = ρ := by
  obtain ⟨row', hrow', rfl⟩ := h
  rw [hu.eq hrow hrow' hid hρ]

/-- A copy from the store is one that waited, and it waits no more. -/
theorem waits_of_flush {i : Input} {d : Delivery} (hu : UniqueIds w.messages) (ht : i.type = some .login)
    (h : d ∈ (Step.of cfg w i).out) (hc : Carries (Step.of cfg w i) ρ r d) :
    Waits w ρ r ∧ ¬ Waits (Step.of cfg w i).after ρ r := by
  obtain ⟨hmsg, ⟨u, hholder, huser⟩, hsub | ⟨-, hstored, hhands⟩⟩ := hc
  · obtain ⟨s, f, me, hi, hf, -⟩ := hsub
    rw [show i = _ from hi] at ht
    exact absurd (Option.some.inj ht) (by rw [hf]; decide)
  have hmem : d ∈ (Step.of cfg w i).out.filter fun d => d.frame.type = .msg :=
    List.mem_filter.mpr ⟨h, by simpa using hmsg⟩
  rcases step_hands cfg w ht with hnone | ⟨s, u', name, hname, hpend, hout⟩
  · rw [hnone] at hmem
    cases hmem
  · rw [hout] at hmem
    obtain ⟨g, hg, rfl⟩ := List.mem_map.mp hmem
    obtain ⟨row, hrow, entry, -, rfl⟩ := mem_handed hg
    obtain rfl := Option.some.inj hholder
    obtain rfl : name = r := by
      simpa [isUser, hname, Except.toOption] using huser
    obtain ⟨hin, id, hid, -⟩ := mem_queued_iff.mp hrow
    have hρ : ρ.id = some id := by
      have heq := hhands.id
      simp only [flushed, hid, Option.map_some, Option.getD_some] at heq
      cases hρ : ρ.id with
      | none => rw [hρ] at heq; cases heq
      | some id' =>
        rw [hρ] at heq
        exact congrArg some (Json.str.inj heq).symm
    refine ⟨⟨row, hrow, hstored.eq hu hin hid hρ⟩, fun hafter => ?_⟩
    obtain ⟨row', hrow', -⟩ := hafter
    obtain ⟨-, id', -, hp⟩ := mem_queued_iff.mp hrow'
    rw [hpend] at hp
    simpa using (List.mem_filter.mp hp).2

/-- A row is stored without receipts. -/
theorem Stores.unmarked_eq {me : Json} {f : Frame} {row : Row} (h : Stores me f row) : row.unmarked = row := by
  obtain ⟨hd, hr⟩ := h.unmarked
  cases row
  obtain rfl : _ = none := hd
  obtain rfl : _ = none := hr
  rfl

/-- A copy that comes to wait is issued, to somebody who is offline. -/
theorem issues_of_wait {i : Input} (hp : PendingStored w) (hbefore : ¬ Waits w ρ r)
    (hafter : Waits (Step.of cfg w i).after ρ r) :
    Issues cfg (Step.of cfg w i) ρ r ∧ SessionRegistry.get w (.str r) = none := by
  obtain ⟨row, hrow, rfl⟩ := hafter
  obtain ⟨hin, id, hid, hpend⟩ := mem_queued_iff.mp hrow
  -- the row is an old one, up to marks, or the one this step stored
  have hrows : (∃ r₀ ∈ w.messages, row.unmarked = r₀.unmarked) ∨ Recording cfg (Step.of cfg w i) row := by
    rcases step_messages cfg w i with hsame | ⟨row', hrec⟩ | ⟨id', state, now, hmark⟩
    · exact .inl ⟨row, hsame ▸ hin, rfl⟩
    · rw [hrec.after] at hin
      rcases List.mem_append.mp hin with hold | hnew
      · exact .inl ⟨row, hold, rfl⟩
      · rw [List.mem_singleton.mp hnew]
        exact .inr hrec
    · rw [hmark] at hin
      exact .inl (mem_markAll hin)
  rcases step_pending cfg w i hpend with hold | hq
  · rcases hrows with ⟨r₀, hr₀, heq⟩ | hrec
    · have hid₀ : r₀.id = some id := (id_of_unmarked heq).symm.trans hid
      exact (hbefore ⟨r₀, mem_queued_iff.mpr ⟨hr₀, id, hid₀, hold⟩, heq.symm⟩).elim
    · obtain ⟨r₀, hr₀, hid₀⟩ := hp (id, r) hold
      rcases hrec.fresh with hn | hne
      · simp [hid] at hn
      · exact (hne r₀ hr₀ (hid₀.trans hid.symm)).elim
  · obtain ⟨s, f, me, target, g, hi, hmsg, hu, hacc, ht, hcopy, -⟩ := hq.origin
    have haway : SessionRegistry.get w (.str r) = none := hq.away
    refine ⟨⟨⟨s, f, me, target, g, hi, hmsg, hu, hacc, ?_, hcopy⟩, ?_⟩, haway⟩
    · rw [ht]
      exact congrArg Except.ok hid.symm
    · rw [show SessionRegistry.get (Step.of cfg w i).before (.str r) = none from haway]
      refine ⟨hbefore, ?_⟩
      rcases hrows with ⟨r₀, hr₀, heq⟩ | hrec
      · exact .inl ⟨r₀, hr₀, heq.symm⟩
      · obtain ⟨s', f', me', hi', hmsg', hu', -, hst⟩ := hrec.origin
        rw [hst.unmarked_eq]
        exact .inr ⟨⟨s', f', me', hi', hmsg', hu', hst⟩, hrec.fresh⟩

/-! ## Runs -/

/-- What a run in which one copy is issued at most keeps up. -/
structure Tally (cfg : Config) (tr : List Step) (w : World) (ρ : Row) (r : Str) : Prop where
  once : SentOnce tr ρ r
  sent : ∀ o ∈ outputs tr, Carries o.1 ρ r o.2 → (∃ st ∈ tr, Issues cfg st ρ r) ∧ ¬ Waits w ρ r
  waiting : Waits w ρ r → ∃ st ∈ tr, Issues cfg st ρ r

omit [Runtime] in
theorem outputs_snoc [Runtime] (tr : List Step) (st : Step) :
    outputs (tr ++ [st]) = outputs tr ++ st.out.map fun d => (st, d) := by
  simp [outputs]

theorem step_tally {i : Input} (h : Tally cfg tr w ρ r) (hw : Wired w) (hm : w.memberships.Nodup)
    (hu : UniqueIds w.messages) (hp : PendingStored w)
    (hone : IssuedOnce cfg (tr ++ [Step.of cfg w i]) ρ r) :
    Tally cfg (tr ++ [Step.of cfg w i]) (Step.of cfg w i).after ρ r := by
  have hfirst : (∃ st ∈ tr, Issues cfg st ρ r) → ¬ Issues cfg (Step.of cfg w i) ρ r := by
    intro hex hiss
    obtain ⟨st, hst, hiss'⟩ := hex
    exact (List.pairwise_append.mp hone).2.2 st hst _ (List.mem_singleton.mpr rfl) ⟨hiss', hiss⟩
  have hmono : (∃ st ∈ tr, Issues cfg st ρ r) → ∃ st ∈ tr ++ [Step.of cfg w i], Issues cfg st ρ r :=
    fun ⟨st, hst, hiss⟩ => ⟨st, List.mem_append_left _ hst, hiss⟩
  have hnow : Issues cfg (Step.of cfg w i) ρ r → ∃ st ∈ tr ++ [Step.of cfg w i], Issues cfg st ρ r :=
    fun hiss => ⟨_, List.mem_append_right _ (List.mem_singleton.mpr rfl), hiss⟩
  -- what the step sends: then nothing was sent before, and nothing waits any more
  have hcarry : ∀ d ∈ (Step.of cfg w i).out, Carries (Step.of cfg w i) ρ r d →
      (∀ o ∈ outputs tr, ¬ Carries o.1 ρ r o.2) ∧ (∃ st ∈ tr ++ [Step.of cfg w i], Issues cfg st ρ r) ∧
        ¬ Waits (Step.of cfg w i).after ρ r := by
    intro d hd hc
    by_cases hmsg : i.type = some .msg
    · obtain ⟨hiss, hon⟩ := issues_of_live hw hmsg hd hc
      have hnone : ¬ ∃ st ∈ tr, Issues cfg st ρ r := fun hex => hfirst hex hiss
      refine ⟨fun o ho hoc => hnone (h.sent o ho hoc).1, hnow hiss, fun hafter => ?_⟩
      obtain ⟨-, haway⟩ := issues_of_wait hp (fun hwait => hnone (h.waiting hwait)) hafter
      rw [haway] at hon
      cases hon
    · by_cases hlog : i.type = some .login
      · obtain ⟨hwait, hafter⟩ := waits_of_flush hu hlog hd hc
        exact ⟨fun o ho hoc => (h.sent o ho hoc).2 hwait, hmono (h.waiting hwait), hafter⟩
      · exact (not_carries_of_type hmsg hlog hc).elim
  refine ⟨?_, fun o ho hoc => ?_, fun hafter => ?_⟩
  · unfold SentOnce
    rw [outputs_snoc]
    refine List.pairwise_append.mpr ⟨h.once, List.pairwise_map.mpr (step_sentOnce hw hm hu), ?_⟩
    intro o ho o' ho' hboth
    obtain ⟨d, hd, rfl⟩ := List.mem_map.mp ho'
    exact (hcarry d hd hboth.2).1 o ho hboth.1
  · rw [outputs_snoc] at ho
    rcases List.mem_append.mp ho with ho | ho
    · obtain ⟨hex, hwait⟩ := h.sent o ho hoc
      refine ⟨hmono hex, fun hafter => ?_⟩
      exact hfirst hex (issues_of_wait hp hwait hafter).1
    · obtain ⟨d, hd, rfl⟩ := List.mem_map.mp ho
      exact (hcarry d hd hoc).2
  · by_cases hwait : Waits w ρ r
    · exact hmono (h.waiting hwait)
    · exact hnow (issues_of_wait hp hwait hafter).1

/-- **Resending**: in every run in which at most one submission issues a copy of a
message for a recipient, the recipient is sent it at most once, live sends and
hand-overs taken together. -/
theorem Run.sent_once {uuid : Nat → Str} {clock : Nat → Int} {salt : Nat → List UInt8}
    (h : Run cfg (World.start uuid clock salt) tr w) (hone : IssuedOnce cfg tr ρ r) : SentOnce tr ρ r := by
  suffices ht : Tally cfg tr w ρ r from ht.once
  induction h with
  | nil =>
    refine ⟨.nil, fun o ho => ?_, fun hwait => ?_⟩
    · cases ho
    · obtain ⟨row, hrow, -⟩ := hwait
      cases (mem_queued_iff.mp hrow).1
  | @snoc tr w h i ih =>
    have hbefore : IssuedOnce cfg tr ρ r := (List.pairwise_append.mp hone).1
    exact step_tally (ih hbefore) (h.wired (wired_start uuid clock salt)) (h.memberships_nodup .nil)
      (h.uniqueIds rfl) (h.pendingStored (wired_start uuid clock salt) rfl) hone

end Copies

namespace Sample

/-- `a` writes to `b`. -/
def openLetter : Frame :=
  { type := .msg, target := .str "b", body := .str "hi", nonce := .str "n", id := .str "i", ts := 5 }

/-- The message, as the store keeps it. -/
def kept : Row :=
  { id := some "i", conversation := "a\x1fb", sender := "a", recipient := "b", body := some "hi", nonce := some "n",
    ts := 5 }

/-- Both are connected. -/
def together : List Input := [register "a", register "b", login 0 "a", login 1 "b"]

/-- `b` is away, is written to twice, and comes back. -/
def leftWord : List Input :=
  [register "a", register "b", login 0 "a", .frame 0 openLetter, .frame 0 openLetter, login 1 "b"]

end Sample

section Concrete

open Sample

attribute [local instance] sampleRuntime

theorem openLetter_stores : Stores (.str "a") openLetter kept :=
  ⟨by decide, by decide, rfl, by decide, rfl, ⟨rfl, rfl⟩, by decide, ⟨by decide, by decide⟩⟩

/-- The step's MSG goes to `b` at once. -/
theorem carries_of_any (st : Step) (hi : st.input = .frame 0 openLetter) (hu : st.before.username 0 = some (.str "a"))
    (hout : st.out.any (fun d => d.frame.type = .msg ∧ d.holder = some (.str "b")) = true) :
    ∃ d ∈ st.out, Carries st kept "b" d := by
  obtain ⟨d, hd, hb⟩ := List.any_eq_true.mp hout
  obtain ⟨hm, hh⟩ := of_decide_eq_true hb
  exact ⟨d, hd, hm, ⟨_, hh, by decide⟩, .inl ⟨0, openLetter, _, hi, rfl, hu, openLetter_stores⟩⟩

/-- Sent again to somebody who is connected, a message is delivered again. -/
theorem repeated_twice :
    Run chatServer fresh (trace chatServer fresh (together ++ [.frame 0 openLetter, .frame 0 openLetter]))
        (fresh.after chatServer (together ++ [.frame 0 openLetter, .frame 0 openLetter])) ∧
      Stores (.str "a") openLetter kept ∧
      ¬ SentOnce (trace chatServer fresh (together ++ [.frame 0 openLetter, .frame 0 openLetter])) kept "b" := by
  refine ⟨Run.of_inputs .., openLetter_stores, fun h => ?_⟩
  have hfirst := carries_of_any (Step.of chatServer (fresh.after chatServer together) (.frame 0 openLetter)) rfl
    (by decide +kernel) (by decide +kernel)
  have hagain := carries_of_any (Step.of chatServer
    (Step.of chatServer (fresh.after chatServer together) (.frame 0 openLetter)).after (.frame 0 openLetter)) rfl
    (by decide +kernel) (by decide +kernel)
  obtain ⟨d, hd, hc⟩ := hfirst
  obtain ⟨d', hd', hc'⟩ := hagain
  rw [trace_append] at h
  unfold SentOnce outputs at h
  rw [List.flatMap_append] at h
  have hlast := (List.pairwise_append.mp h).2.1
  simp only [trace, List.flatMap_cons, List.flatMap_nil, List.append_nil] at hlast
  exact (List.pairwise_append.mp hlast).2.2 _ (List.mem_map.mpr ⟨d, hd, rfl⟩) _ (List.mem_map.mpr ⟨d', hd', rfl⟩)
    ⟨hc, hc'⟩

/-- Sent again to somebody who is away and queued, it is delivered once. -/
theorem leftWord_once :
    IssuedOnce chatServer (trace chatServer fresh leftWord) kept "b" ∧
      SentOnce (trace chatServer fresh leftWord) kept "b" := by
  have hone : IssuedOnce chatServer (trace chatServer fresh leftWord) kept "b" := by
    have hquiet : ∀ st : Step, st.input.type ≠ some .msg → ¬ Issues chatServer st kept "b" := by
      intro st ht hiss
      obtain ⟨⟨s, f, me, target, g, hi, hf, -⟩, -⟩ := hiss
      exact ht (by rw [hi]; exact congrArg some hf)
    -- the second MSG finds the message waiting
    have hwaits : ¬ Issues chatServer (Step.of chatServer (fresh.after chatServer
        [register "a", register "b", login 0 "a", .frame 0 openLetter]) (.frame 0 openLetter)) kept "b" := by
      intro hiss
      have haway : SessionRegistry.get (fresh.after chatServer
          [register "a", register "b", login 0 "a", .frame 0 openLetter]) (.str "b") = none := by decide +kernel
      have hstate := hiss.2
      rw [show SessionRegistry.get (Step.of chatServer (fresh.after chatServer
        [register "a", register "b", login 0 "a", .frame 0 openLetter]) (.frame 0 openLetter)).before (.str "b") = none
        from haway] at hstate
      refine hstate.1 ?_
      have hqueued : (MessageStore.queued (fresh.after chatServer
          [register "a", register "b", login 0 "a", .frame 0 openLetter]) "b").map Row.unmarked = [kept] := by
        decide +kernel
      exact List.mem_map.mp (hqueued ▸ List.mem_singleton.mpr rfl)
    refine pairwise_not_both (trace chatServer fresh [register "a", register "b", login 0 "a"])
      (trace chatServer (fresh.after chatServer [register "a", register "b", login 0 "a", .frame 0 openLetter])
        [.frame 0 openLetter, login 1 "b"]) (fun st hst => hquiet st ?_) fun st hst => ?_
    · have hin := mem_trace hst
      simp only [List.mem_cons, List.not_mem_nil, or_false] at hin
      rcases hin with hin | hin | hin <;> rw [hin] <;> decide
    · rcases List.mem_cons.mp hst with rfl | hst
      · exact hwaits
      · rw [List.mem_singleton.mp hst]
        exact hquiet _ (by decide)
  exact ⟨hone, Run.sent_once (Run.of_inputs chatServer fresh leftWord) hone⟩

end Concrete

end Ciphertext
