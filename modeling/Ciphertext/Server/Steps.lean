import Ciphertext.Server.Receipts
import Ciphertext.Server.Scrollback

/-!
# What one call on the router can do

The effects of the handlers, read as facts about a `Step`: where a new stored
row, a new queued name, a new login and a frame in an outbox can come from.
Every history argument about runs (`Run`) is an induction over these.

`step_messages`, `step_pending`, `step_msgs` and `step_username` are inversions: each takes
one thing that is there after a step and names the two or three ways it can have got there,
with everything the handler had checked by then (`Recording`, `Queueing`, `Relaying`,
`Flushing`, `LetIn`). Nothing in the files that build on this one unfolds a handler again.
-/

namespace Ciphertext

open Prog MessageRouter

variable [Runtime]

/-! ## From `handle` to the handler -/

theorem handle_login (cfg : Config) (s : Sid) {f : Frame} (h : f.type = .login) :
    handle cfg s f = login cfg s f := by
  unfold handle
  rw [h]

/-- A frame that needs a login reaches its handler under the session's name. -/
theorem handle_dispatch (cfg : Config) (s : Sid) {f : Frame} {w : World} {me : Json}
    (hp : f.type ≠ .ping) (hr : f.type ≠ .register) (hl : f.type ≠ .login)
    (hu : w.username s = some me) :
    (handle cfg s f).exec w = (dispatch cfg s me f).exec w := by
  unfold handle
  split
  next h => exact (hp h).elim
  next h => exact (hr h).elim
  next h => exact (hl h).elim
  next =>
    rw [RouterM.exec_bind, RouterM.exec_call]
    simp only [exec, hu]

/-- Without a login it is refused. -/
theorem handle_nobody (cfg : Config) (s : Sid) {f : Frame} {w : World}
    (hp : f.type ≠ .ping) (hr : f.type ≠ .register) (hl : f.type ≠ .login)
    (hu : w.username s = none) :
    (handle cfg s f).exec w =
      (refuse s "NOT_LOGGED_IN" "log in before sending anything else").exec w := by
  unfold handle
  split
  next h => exact (hp h).elim
  next h => exact (hr h).elim
  next h => exact (hl h).elim
  next =>
    rw [RouterM.exec_bind, RouterM.exec_call]
    simp only [exec, hu]

theorem handle_msg (cfg : Config) (s : Sid) {f : Frame} {w : World} {me : Json}
    (h : f.type = .msg) (hu : w.username s = some me) :
    (handle cfg s f).exec w = (message cfg s me f).exec w := by
  rw [handle_dispatch cfg s (by simp [h]) (by simp [h]) (by simp [h]) hu]
  unfold dispatch
  rw [h]

/-- A MSG on a connection nobody is logged in on does nothing. -/
theorem handle_msg_nobody (cfg : Config) (s : Sid) {f : Frame} {w : World}
    (h : f.type = .msg) (hu : w.username s = none) :
    Aside w ((handle cfg s f).exec w).2 := by
  rw [handle_nobody cfg s (by simp [h]) (by simp [h]) (by simp [h]) hu]
  obtain ⟨w', hrun, ha⟩ := refuse_aside w s "NOT_LOGGED_IN" "log in before sending anything else"
  rw [hrun]
  exact ha

/-! ## Outboxes -/

/-- What a program puts in outboxes goes to the end, and its footprint bounds it. -/
theorem exec_sends {α : Type} {p : RouterM α} {F : Footprint} (h : p.Uses F.allows)
    (hw : ∀ o, F.writes o → Field.sent ∉ o.writesTo) (w : World) :
    ∃ ds, (p.exec w).2.sent = w.sent ++ ds ∧ ∀ d ∈ ds, F.sends d.session d.frame := by
  refine (Uses.keeps (I := fun w' => ∃ ds, w'.sent = w.sent ++ ds ∧
    ∀ d ∈ ds, F.sends d.session d.frame) h ?_ w ⟨[], by simp⟩).1
  rintro o ho w' ⟨ds, hds, hall⟩
  have hsame : Field.sent ∉ o.writesTo → ∃ ds, (exec o w').2.sent = w.sent ++ ds ∧
      ∀ d ∈ ds, F.sends d.session d.frame := fun hn =>
    ⟨ds, Eq.trans (exec_same o w' hn) hds, hall⟩
  rcases ho with hq | hwr | ⟨s, g, rfl, hs⟩
  · refine hsame fun hx => ?_
    cases o <;> simp [Op.quiet, Op.writesTo] at hq hx
  · exact hsame (hw o hwr)
  · refine ⟨ds ++ [⟨s, w'.username s, g⟩], ?_, ?_⟩
    · show w'.sent ++ [⟨s, w'.username s, g⟩] = _
      rw [hds, List.append_assoc]
    · intro d hd
      rcases List.mem_append.mp hd with hd | hd
      · exact hall d hd
      · obtain rfl := List.mem_singleton.mp hd
        exact hs

omit [Runtime] in
theorem typePrint_writes_sent {t : MessageType} {o : Op} (h : (typePrint t).writes o) :
    Field.sent ∉ o.writesTo := by
  have h : t.writes o = true := h
  cases o <;> simp [Op.writesTo]
  cases t <;> simp [MessageType.writes] at h

/-- The types of the frames a step puts in outboxes. -/
theorem Step.sent_of (cfg : Config) (w : World) (i : Input) :
    (Step.of cfg w i).after.sent = w.sent ++ (Step.of cfg w i).out := by
  have h : ∃ ds, (Step.of cfg w i).after.sent = w.sent ++ ds := by
    cases i with
    | frame s f =>
      obtain ⟨ds, hds, -⟩ := exec_sends (handle_uses cfg s f) (fun o => typePrint_writes_sent) w
      exact ⟨ds, hds⟩
    | hangup s =>
      obtain ⟨ds, hds, -⟩ := exec_sends (onDisconnect_uses s)
        (by rintro o (⟨u, rfl⟩ | rfl) <;> simp [Op.writesTo]) w
      exact ⟨ds, hds⟩
  obtain ⟨ds, hds⟩ := h
  unfold Step.out
  rw [hds]
  show w.sent ++ ds = w.sent ++ (w.sent ++ ds).drop w.sent.length
  rw [List.drop_left]

/-- The frames of a step, bounded by the footprint of whatever program ran. -/
theorem Step.out_of_uses {cfg : Config} {w : World} {i : Input} {p : RouterM Unit} {F : Footprint}
    (hp : ((i.prog cfg).exec w).2 = (p.exec w).2) (h : p.Uses F.allows)
    (hw : ∀ o, F.writes o → Field.sent ∉ o.writesTo) :
    ∀ d ∈ (Step.of cfg w i).out, F.sends d.session d.frame := by
  obtain ⟨ds, hds, hall⟩ := exec_sends h hw w
  have hout := Step.sent_of cfg w i
  have hafter : (Step.of cfg w i).after = ((i.prog cfg).exec w).2 := rfl
  rw [hafter, hp, hds] at hout
  rw [← List.append_cancel_left hout]
  exact hall

/-- The type of a request bounds the types of the frames it leads to. -/
theorem Step.out_type {cfg : Config} {w : World} {s : Sid} {f : Frame} {d : Delivery}
    (h : d ∈ (Step.of cfg w (.frame s f)).out) : d.frame.type ∈ .error :: f.type.yields :=
  Step.out_of_uses (i := .frame s f) rfl (handle_uses cfg s f) (fun _ => typePrint_writes_sent) d h

theorem Step.msgs_of (cfg : Config) (w : World) (i : Input) :
    msgs (Step.of cfg w i).after =
      msgs w ++ (Step.of cfg w i).out.filter fun d => d.frame.type = .msg := by
  unfold msgs
  rw [Step.sent_of, List.filter_append]

/-- A hangup puts nothing but PRESENCE in outboxes. -/
theorem Step.out_hangup {cfg : Config} {w : World} {s : Sid} {d : Delivery}
    (h : d ∈ (Step.of cfg w (.hangup s)).out) : d.frame.type = .presence :=
  Step.out_of_uses (i := .hangup s) rfl (onDisconnect_uses s)
    (by rintro o (⟨u, rfl⟩ | rfl) <;> simp [Op.writesTo]) d h

/-! ## The stored messages -/

/-- A MSG that a step stored a row for. -/
structure Recording (cfg : Config) (st : Step) (row : Row) : Prop where
  origin : ∃ s f me, st.input = .frame s f ∧ f.type = .msg ∧ st.before.username s = some me ∧
    Accepts cfg st.before me f row.recipient ∧ Stores me f row
  store : cfg.messages = true
  fresh : st.before.fresh row.id
  after : st.after.messages = st.before.messages ++ [row]

theorem handle_receipt (cfg : Config) (s : Sid) {f : Frame} {w : World} {me : Json}
    (h : f.type = .receipt) (hu : w.username s = some me) :
    (handle cfg s f).exec w = (receipt cfg s me f).exec w := by
  rw [handle_dispatch cfg s (by simp [h]) (by simp [h]) (by simp [h]) hu]
  unfold dispatch
  rw [h]

/-- **Where stored messages come from.** A step leaves them alone, stores one
more for a MSG, or marks those a RECEIPT names. -/
theorem step_messages (cfg : Config) (w : World) (i : Input) :
    (Step.of cfg w i).after.messages = w.messages ∨
      (∃ row, Recording cfg (Step.of cfg w i) row) ∨
      ∃ id state now, (Step.of cfg w i).after.messages = markAll w.messages id state now := by
  cases i with
  | hangup s => exact .inl (onDisconnect_effect s w).1
  | frame s f =>
    by_cases hmsg : f.type = .msg
    · cases hu : w.username s with
      | none => exact .inl (handle_msg_nobody cfg s hmsg hu).messages
      | some me =>
        have hrun : (Step.of cfg w (.frame s f)).after = ((message cfg s me f).exec w).2 :=
          congrArg Prod.snd (handle_msg cfg s hmsg hu)
        rcases message_effect cfg w s me f with ⟨ha, -⟩ | ⟨target, hacc, done, rest, -, -, hd⟩
        · exact .inl (hrun ▸ ha.messages)
        · obtain ⟨w₁, hf, hm⟩ := hd.filed
          rcases hf with ⟨-, rfl⟩ | ⟨-, rfl, -⟩ | ⟨hc, row, hst, hfresh, rfl⟩
          · exact .inl (hrun ▸ hm)
          · exact .inl (hrun ▸ hm)
          · obtain rfl : target = row.recipient := Json.str.inj (hacc.1.symm.trans hst.target)
            exact .inr (.inl ⟨row, ⟨s, f, me, rfl, hmsg, hu, hacc, hst⟩, hc, hfresh, hrun ▸ hm⟩)
    · by_cases hrec : f.type = .receipt
      · cases hu : w.username s with
        | none =>
          have hrun := handle_nobody cfg s (f := f) (by simp [hrec]) (by simp [hrec])
            (by simp [hrec]) hu
          obtain ⟨w', hrun', ha⟩ := refuse_aside w s "NOT_LOGGED_IN"
            "log in before sending anything else"
          have hafter : (Step.of cfg w (.frame s f)).after = w' :=
            congrArg Prod.snd (hrun.trans hrun')
          exact .inl (hafter ▸ ha.messages)
        | some me =>
          have hrun : (Step.of cfg w (.frame s f)).after = ((receipt cfg s me f).exec w).2 :=
            congrArg Prod.snd (handle_receipt cfg s hrec hu)
          rw [hrun]
          rcases receipt_effect cfg s me f w with ⟨-, h, -⟩ | ⟨-, -, h, -⟩ | ⟨-, -, row, -, h, -⟩
          · exact .inl h
          · exact .inl h
          · exact .inr (.inr ⟨_, _, _, h⟩)
      · refine .inl (handle_same cfg s f w (x := .messages) (by simp) ?_)
        rw [MessageType.mem_fields]
        simpa [Field.writers] using ⟨hmsg, hrec⟩

/-! ## The queue -/

/-- A MSG that a step queued a name for. -/
structure Queueing (cfg : Config) (st : Step) (id name : Str) : Prop where
  origin : ∃ s f me target g, st.input = .frame s f ∧ f.type = .msg ∧
    st.before.username s = some me ∧ Accepts cfg st.before me f target ∧
    Sql.text f.id = .ok (some id) ∧ (name, g) ∈ copies st.before me f target ∧
    ∃ w₁, Filed cfg me f st.before w₁ ∧ st.after.messages = w₁.messages
  store : cfg.messages = true
  away : SessionRegistry.get st.before (.str name) = none

/-- **Where queued names come from.** -/
theorem step_pending (cfg : Config) (w : World) (i : Input) {p : Str × Str}
    (h : p ∈ (Step.of cfg w i).after.pending) :
    p ∈ w.pending ∨ Queueing cfg (Step.of cfg w i) p.1 p.2 := by
  cases i with
  | hangup s => exact .inl ((onDisconnect_effect s w).2.1 ▸ h)
  | frame s f =>
    -- only MSG adds to the queue and only LOGIN takes from it
    by_cases hmsg : f.type = .msg
    · cases hu : w.username s with
      | none => exact .inl ((handle_msg_nobody cfg s hmsg hu).pending ▸ h)
      | some me =>
        have hrun : (Step.of cfg w (.frame s f)).after = ((message cfg s me f).exec w).2 :=
          congrArg Prod.snd (handle_msg cfg s hmsg hu)
        rw [hrun] at h
        rcases message_effect cfg w s me f with ⟨ha, -⟩ | ⟨target, hacc, done, rest, hc, -, hd⟩
        · exact .inl (ha.pending ▸ h)
        · rw [hd.pending, mem_queueAll] at h
          refine h.imp_right fun ⟨hid, hname⟩ => ?_
          -- the id is one sqlite keeps, or nobody is queued
          unfold queueId at hid
          split at hid
          next hstore =>
            obtain ⟨c, hc', hcn⟩ := List.mem_map.mp hname
            obtain ⟨hmem, hoff⟩ := List.mem_filter.mp hc'
            refine ⟨⟨s, f, me, target, c.2, rfl, hmsg, hu, hacc, ?_, ?_, ?_⟩, hstore, ?_⟩
            · cases ht : Sql.text f.id with
              | error e => simp [ht, Except.toOption] at hid
              | ok t => simpa [ht, Except.toOption] using hid
            · show (p.2, c.2) ∈ copies w me f target
              rw [hc, ← hcn]
              exact List.mem_append_left _ hmem
            · rw [hrun]
              exact hd.filed
            · show SessionRegistry.get w (.str p.2) = none
              rw [← hcn]
              simpa using hoff
          next => cases hid
    · by_cases hlog : f.type = .login
      · have hrun : (Step.of cfg w (.frame s f)).after = ((login cfg s f).exec w).2 :=
          congrArg (fun q => (RouterM.exec q w).2) (handle_login cfg s hlog)
        rw [hrun] at h
        refine .inl ?_
        rcases login_effect cfg s f w with ⟨ha, -⟩ | ⟨-, hh, -⟩
        · exact ha.pending ▸ h
        · generalize (login cfg s f).exec w = r at hh h
          obtain ⟨e, w'⟩ := r
          cases hh with
          | unreached hp _ => exact hp ▸ h
          | storeless _ hp _ => exact hp ▸ h
          | nameless _ _ hp _ => exact hp ▸ h
          | flushed _ _ hp _ =>
            dsimp only at h
            rw [hp] at h
            exact (List.mem_filter.mp h).1
      · have hsame : (Step.of cfg w (.frame s f)).after.pending = w.pending := by
          refine handle_same cfg s f w (x := .pending) (by simp) ?_
          rw [MessageType.mem_fields]
          simpa [Field.writers] using ⟨hlog, hmsg⟩
        exact .inl (hsame ▸ h)

/-! ## MSG frames in outboxes -/

/-- A MSG relayed to a live connection. -/
structure Relaying (cfg : Config) (st : Step) (d : Delivery) : Prop where
  origin : ∃ s f me target name, st.input = .frame s f ∧ f.type = .msg ∧
    st.before.username s = some me ∧ Accepts cfg st.before me f target ∧
    (name, d.frame) ∈ copies st.before me f target ∧
    SessionRegistry.get st.before (.str name) = some d.session
  holder : d.holder = st.before.username d.session

/-- A stored message handed over at a login. -/
structure Flushing (cfg : Config) (st : Step) (d : Delivery) (name : Str) (row : Row) : Prop where
  origin : ∃ s f entry, st.input = .frame s f ∧ f.type = .login ∧ LetIn st.before s f ∧
    Sql.text (f.get "user") = .ok (some name) ∧
    historyEntry row (f.get "user") = .ok (some entry) ∧
    d = ⟨s, some (f.get "user"), flushed row entry⟩
  store : cfg.messages = true
  queued : row ∈ MessageStore.queued st.before name

/-- **Where MSG frames come from.** -/
theorem step_msgs (cfg : Config) (w : World) (i : Input) {d : Delivery}
    (h : d ∈ (Step.of cfg w i).out) (hd : d.frame.type = .msg) :
    Relaying cfg (Step.of cfg w i) d ∨ ∃ name row, Flushing cfg (Step.of cfg w i) d name row := by
  -- it is enough to know the MSG frames that the step adds
  have hnew : ∀ ds, msgs (Step.of cfg w i).after = msgs w ++ ds → d ∈ ds := by
    intro ds hds
    rw [Step.msgs_of] at hds
    rw [← List.append_cancel_left hds]
    exact List.mem_filter.mpr ⟨h, by simpa using hd⟩
  cases i with
  | hangup s => simp [Step.out_hangup h] at hd
  | frame s f =>
    have ht := Step.out_type h
    rw [hd] at ht
    by_cases hmsg : f.type = .msg
    · refine .inl ?_
      cases hu : w.username s with
      | none =>
        have := hnew [] (by rw [List.append_nil]; exact (handle_msg_nobody cfg s hmsg hu).msgs)
        cases this
      | some me =>
        have hrun : (Step.of cfg w (.frame s f)).after = ((message cfg s me f).exec w).2 :=
          congrArg Prod.snd (handle_msg cfg s hmsg hu)
        rw [hrun] at hnew
        rcases message_effect cfg w s me f with ⟨ha, -⟩ | ⟨target, hacc, done, rest, hc, -, hdealt⟩
        · have := hnew [] (by rw [List.append_nil]; exact ha.msgs)
          cases this
        · obtain ⟨c, hcd, hdel⟩ := List.mem_filterMap.mp (hnew _ hdealt.msgs)
          obtain ⟨t, hget, rfl⟩ := Option.map_eq_some_iff.mp hdel
          refine ⟨⟨s, f, me, target, c.1, rfl, hmsg, hu, hacc, ?_, hget⟩, rfl⟩
          show (c.1, c.2) ∈ copies w me f target
          rw [hc]
          exact List.mem_append_left _ hcd
    -- no other frame type has a MSG among what it yields
    · have hlog : f.type = .login := by
        cases hf : f.type <;> simp_all [MessageType.yields]
      refine .inr ?_
      have hrun : (Step.of cfg w (.frame s f)).after = ((login cfg s f).exec w).2 :=
        congrArg (fun q => (RouterM.exec q w).2) (handle_login cfg s hlog)
      rw [hrun] at hnew
      rcases login_effect cfg s f w with ⟨ha, -⟩ | ⟨hin, hh, -⟩
      · have := hnew [] (by rw [List.append_nil]; exact ha.msgs)
        cases this
      · generalize (login cfg s f).exec w = r at hh hnew
        obtain ⟨e, w'⟩ := r
        have hnone : msgs w' = msgs w → False := fun hm => by
          have := hnew [] (by rw [List.append_nil]; exact hm)
          cases this
        cases hh with
        | unreached _ hm => exact (hnone hm).elim
        | storeless _ _ hm => exact (hnone hm).elim
        | nameless _ _ _ hm => exact (hnone hm).elim
        | @flushed _ name hc hname _ hm =>
          obtain ⟨g, hg, rfl⟩ := List.mem_map.mp (hnew _ hm)
          obtain ⟨row, hrow, entry, he, rfl⟩ := mem_handed hg
          exact ⟨name, row, ⟨s, f, entry, rfl, hlog, hin, hname, he, rfl⟩, hc, hrow⟩

/-! ## Logins -/

/-- **Where a connection's name comes from.** -/
theorem step_username (cfg : Config) (w : World) (i : Input) {t : Sid} {u : Json}
    (h : (Step.of cfg w i).after.username t = some u) :
    w.username t = some u ∨
      ∃ f, i = .frame t f ∧ f.type = .login ∧ LetIn w t f ∧ u = f.get "user" := by
  cases i with
  | hangup s =>
    have heff := (onDisconnect_effect s w).2.2.2
    have hafter : (Step.of cfg w (.hangup s)).after = ((onDisconnect s).exec w).2 := rfl
    rw [hafter] at h
    refine .inl ?_
    cases hu : w.username s with
    | none =>
      rw [hu] at heff
      rwa [heff.2] at h
    | some u' =>
      rw [hu] at heff
      rw [heff.2] at h
      by_cases hts : t = s
      · subst hts
        simp at h
      · rwa [Function.update_of_ne hts] at h
  | frame s f =>
    by_cases hlog : f.type = .login
    · have hrun : (Step.of cfg w (.frame s f)).after = ((login cfg s f).exec w).2 :=
        congrArg (fun q => (RouterM.exec q w).2) (handle_login cfg s hlog)
      rw [hrun] at h
      rcases login_effect cfg s f w with ⟨ha, -⟩ | ⟨hin, -, -, hun, -⟩
      · rw [ha.username] at h
        exact .inl h
      · rw [hun] at h
        by_cases hts : t = s
        · subst hts
          rw [Function.update_self] at h
          exact .inr ⟨f, rfl, hlog, hin, (Option.some.inj h).symm⟩
        · rw [Function.update_of_ne hts] at h
          exact .inl h
    · have hsame : (Step.of cfg w (.frame s f)).after.username = w.username := by
        refine handle_same cfg s f w (x := .username) (by simp) ?_
        rw [MessageType.mem_fields]
        simpa [Field.writers] using hlog
      rw [hsame] at h
      exact .inl h

end Ciphertext
