import Ciphertext.Prog.Threads
import Ciphertext.Server.Origin

/-!
# Handlers side by side

Every connection has its own reader thread, and the handlers of different
connections run between each other's calls. An `Interleaving` is any such
execution: any number of handlers, started at any moment, each making its calls
one at a time, in any order between them. It allows more than the server does,
where one connection's handlers follow one another; so what holds here holds
there.

The queue of absent recipients is kept by two calls, `queue_for` and `flush`.
`Ledger` says what the log of calls tells about one entry of it, for a recipient
that was queued under an id at most once.
-/

namespace Ciphertext

open Prog MessageRouter

/-- The handlers in progress, the world they share, and the calls made so far. -/
abbrev ServerPool := Pool routerSig PyErr Input World

variable [Runtime]

/-- The executions of the server's threads from a given world. -/
abbrev Interleaving (cfg : Config) (w₀ : World) (c : ServerPool) : Prop :=
  Pool.Reach Ciphertext.exec (Input.prog cfg) w₀ c

omit [Runtime] in
theorem commit_error {α : Type} {w w' : World} {x : Except PyErr (α × World)} {e : PyErr}
    (h : commit w x = (.error e, w')) : w' = w := by
  cases x with
  | error _ => exact (Prod.mk.inj h).2.symm
  | ok _ => cases (Prod.mk.inj h).1

omit [Runtime] in
theorem commit'_error {w w' : World} {x : Except PyErr World} {e : PyErr}
    (h : commit' w x = (.error e, w')) : w' = w := by
  cases x with
  | error _ => exact (Prod.mk.inj h).2.symm
  | ok _ => cases (Prod.mk.inj h).1

/-- A call that raises changes nothing. -/
theorem exec_error {o : Op} {w w' : World} {e : PyErr} (h : exec o w = (.error e, w')) :
    w' = w := by
  cases o with
  | newId => cases (Prod.mk.inj h).1
  | nowMs => cases (Prod.mk.inj h).1
  | send s f => cases (Prod.mk.inj h).1
  | setUsername s u => cases (Prod.mk.inj h).1
  | sessionsLogin u s => cases (Prod.mk.inj h).1
  | sessionsLogout u => cases (Prod.mk.inj h).1
  | usersRegister u p k => exact commit_error h
  | roomsCreate room => exact commit_error h
  | roomsJoin room u => exact commit'_error h
  | roomsLeave room u => exact commit'_error h
  | messagesRecord id conversation sender recipient body nonce ts => exact commit'_error h
  | messagesQueueFor u id => exact commit'_error h
  | messagesMark id state now => exact commit_error h
  | messagesFlush u => exact commit_error h
  | contactsAdd owner contact => exact commit_error h
  | contactsRemove owner contact => exact commit'_error h
  | _ => exact (Prod.mk.inj h).2.symm

/-- An invariant of every call is one of every interleaving. -/
theorem Interleaving.call_inv {cfg : Config} {w₀ : World} {c : ServerPool}
    (h : Interleaving cfg w₀ c) (I : World → Prop) (h₀ : I w₀)
    (hcall : ∀ o w, I w → I (exec o w).2) : I c.state := by
  refine Pool.Reach.inv (I := fun w _ => I w) h₀ ?_ ?_ h
  · intro c t l o k r w' _ _ he hI
    have := hcall o c.state hI
    rwa [he] at this
  · intro o e w w' _ he hI
    rwa [exec_error he]

/-! ## What is queued is stored -/

/-- Calls other than `queue_for`. -/
def noQueue (o : Op) : Prop := ∀ u id, o ≠ .messagesQueueFor u id

omit [Runtime] in
theorem noQueue_of_quiet {o : Op} (h : o.quiet = true) : noQueue o := by
  intro u id he
  rw [he] at h
  cases h

omit [Runtime] in
theorem noQueue_of_allows {F : Footprint} (h : ∀ u id, ¬ F.writes (.messagesQueueFor u id)) {o : Op}
    (ho : F.allows o) : noQueue o := by
  intro u id he
  subst he
  rcases ho with hq | hw | ⟨s, f, hs, -⟩
  · cases hq
  · exact h u id hw
  · cases hs

/-- The message was stored under this id, for a sender with a name. -/
def Saved (id : Json) (e : Event routerSig) : Prop :=
  ∃ conversation name recipient body nonce ts,
    e.op = .messagesRecord id conversation (.str name) recipient body nonce ts

omit [Runtime] in
theorem refuse_noQueue (s : Sid) (code message : Str) : (refuse s code message).Uses noQueue := by
  have h : (refuse s code message).Uses (Footprint.allows ⟨fun _ _ => True, fun _ => False⟩) :=
    Footprint.refuse fun _ _ => trivial
  exact h.mono fun o ho => noQueue_of_allows (fun _ _ hw => hw) ho

omit [Runtime] in
theorem record_gated (cfg : Config) (hm : cfg.messages = true) (g : Frame)
    {conversation recipient name : Str} (hs : orEmpty g.sender = .str name) {α : Type}
    (k : Unit → RouterM α) :
    (record cfg g conversation recipient >>= k).Gated (Saved g.id) noQueue := by
  have hrec : record cfg g conversation recipient =
      messagesRecord g.id conversation (.str name) recipient g.body g.nonce g.ts := by
    simp [record, hm, hs]
  rw [hrec]
  refine gated_call_bind (S := routerSig) (fun u id he => by cases he) fun r hr => ?_
  exact (hr ⟨_, _, _, _, _, _, rfl⟩).elim

theorem recordRoom_gated (cfg : Config) (hm : cfg.messages = true) (g : Frame) {room name : Str}
    (env : Option Dict) (hs : orEmpty g.sender = .str name) {α : Type} (k : Unit → RouterM α) :
    (recordRoom cfg g room env >>= k).Gated (Saved g.id) noQueue := by
  cases env with
  | none => exact record_gated cfg hm g hs k
  | some env =>
    have hrec : recordRoom cfg g room (some env) =
        messagesRecord g.id room (.str name) room (.str (Runtime.dumps (.dict env)))
          (.str envelopes) g.ts := by
      simp [recordRoom, recordEnvelopes, hm, hs]
    rw [hrec]
    refine gated_call_bind (S := routerSig) (fun u id he => by cases he) fun r hr => ?_
    exact (hr ⟨_, _, _, _, _, _, rfl⟩).elim

omit [Runtime] in
theorem directConversation_str {a : Json} {b c : Str}
    (h : directConversation a (.str b) = .ok c) : ∃ name, a = .str name := by
  cases a with
  | str name => exact ⟨name, rfl⟩
  | _ => cases h

omit [Runtime] in
theorem toUser_gated (cfg : Config) (hm : cfg.messages = true) (s : Sid) (me : Json) (target : Str)
    (f : Frame) :
    (toUser cfg s me target (outgoing me f)).Gated (Saved f.id) noQueue := by
  unfold toUser
  refine gated_call_bind (S := routerSig) (noQueue_of_quiet rfl) fun recipient _ => ?_
  refine Gated.bind (Uses.gated ?_) fun ok => ?_
  · unfold reachable
    split
    · trivial
    · split
      · trivial
      · exact ⟨noQueue_of_quiet rfl, fun _ => trivial⟩
  · split
    · exact Gated.bind (refuse_noQueue ..).gated fun _ => trivial
    · -- Past `direct_conversation` the sender is known to be a string.
      dsimp only
      cases hd : directConversation (orEmpty me) (.str target) with
      | error e => trivial
      | ok conversation =>
        obtain ⟨name, hname⟩ := directConversation_str hd
        exact record_gated cfg hm (outgoing me f) hname _

omit [Runtime] in
/-- A session whose name is among the members is logged in under a string. -/
theorem member_str {members : List Str} {me : Json} (h : (members.map Json.str).contains me = true) :
    ∃ name ∈ members, me = .str name := by
  rw [List.contains_iff_mem] at h
  obtain ⟨name, hname, rfl⟩ := List.mem_map.mp h
  exact ⟨name, hname, rfl⟩

theorem toRoom_gated (cfg : Config) (hm : cfg.messages = true) (s : Sid) (me : Json) (room : Str)
    (f : Frame) (env : Option Dict) :
    (toRoom cfg s me room (outgoing me f) env).Gated (Saved f.id) noQueue := by
  unfold toRoom
  refine gated_call_bind (S := routerSig) (noQueue_of_quiet rfl) fun known _ => ?_
  split
  · exact Gated.bind (refuse_noQueue ..).gated fun _ => trivial
  · refine gated_call_bind (S := routerSig) (noQueue_of_quiet rfl) fun members _ => ?_
    split
    · exact Gated.bind (refuse_noQueue ..).gated fun _ => trivial
    next hmem =>
      obtain ⟨name, -, rfl⟩ := member_str (by simpa using hmem)
      have hs : ∃ n, orEmpty (.str name) = .str n := by
        unfold orEmpty Json.orElse
        split <;> exact ⟨_, rfl⟩
      obtain ⟨n, hn⟩ := hs
      exact recordRoom_gated cfg hm (outgoing (.str name) f) env hn _

theorem message_gated (cfg : Config) (hm : cfg.messages = true) (s : Sid) (me : Json) (f : Frame) :
    (message cfg s me f).Gated (Saved f.id) noQueue := by
  unfold message
  split
  · exact (refuse_noQueue ..).gated
  · split
    next target ht =>
      refine Gated.bind ?_ fun ok => ?_
      · unfold deliver
        split
        · exact toRoom_gated cfg hm s me target f _
        · exact toUser_gated cfg hm s me target f
      · split
        · have h : (frame .ack .null .null [("ref", f.id)] >>= fun g => MessageRouter.send s g).Uses
              (Footprint.allows ⟨fun _ _ => True, fun _ => False⟩) :=
            Footprint.send_frame fun _ _ => trivial
          exact (h.mono fun o ho => noQueue_of_allows (fun _ _ hw => hw) ho).gated
        · trivial
    next => trivial

/-- **Nobody is queued before the message is stored**, whatever the input. -/
theorem Input.gated (cfg : Config) (hm : cfg.messages = true) (s : Sid) (f : Frame) :
    (handle cfg s f).Gated (Saved f.id) noQueue := by
  by_cases hf : f.type = .msg
  · simp only [handle, hf]
    refine gated_call_bind (S := routerSig) (noQueue_of_quiet rfl) fun me _ => ?_
    cases me with
    | none => exact (refuse_noQueue ..).gated
    | some me =>
      simp only [dispatch, hf]
      exact message_gated cfg hm s me f
  · refine ((handle_uses cfg s f).mono fun o ho => noQueue_of_allows (fun u id hw => ?_) ho).gated
    have hw : f.type.writes (.messagesQueueFor u id) = true := hw
    cases ht : f.type <;> rw [ht] at hw hf <;> first | exact hf rfl | cases hw

omit [Runtime] in
theorem onDisconnect_noQueue (s : Sid) : (onDisconnect s).Uses noQueue := by
  refine (onDisconnect_uses s).mono fun o ho => noQueue_of_allows (fun u id hw => ?_) ho
  rcases hw with ⟨v, hw⟩ | hw <;> cases hw

/-- The handler that queues somebody is a MSG's, and it queues under the
frame's own id. -/
theorem queue_msg {cfg : Config} {i : Input} {es : List (Event routerSig)} {q : RouterM Unit}
    (h : Path (i.prog cfg) es q) {e : Event routerSig} (he : e ∈ es) {u : Str} {id : Json}
    (hq : e.op = .messagesQueueFor u id) : ∃ s f, i = .frame s f ∧ f.type = .msg ∧ id = f.id := by
  cases i with
  | hangup s =>
    exact (h.uses (onDisconnect_noQueue s) e he u id hq).elim
  | frame s f =>
    have hallow := h.uses (handle_uses cfg s f) e he
    rw [hq] at hallow
    have hf : f.type = .msg := by
      rcases hallow with hallow | hallow | ⟨_, _, hallow, -⟩
      · cases hallow
      · have hallow : f.type.writes (.messagesQueueFor u id) = true := hallow
        cases ht : f.type <;> rw [ht] at hallow <;> cases hallow
      · cases hallow
    refine ⟨s, f, rfl, hf, ?_⟩
    -- The print by type does not name the id; the MSG handler's own one does.
    have huses : (handle cfg s f).Uses fun o => ∀ u id, o = Op.messagesQueueFor u id → id = f.id := by
      simp only [handle, hf]
      refine Uses.bind ⟨fun u id h => (Op.noConfusion h : _), fun _ => trivial⟩ fun me => ?_
      cases me with
      | none => exact (refuse_noQueue ..).mono fun o ho u id h => (ho u id h).elim
      | some me =>
        simp only [dispatch, hf]
        refine (message_uses cfg s me f).mono fun o ho u id h => ?_
        subst h
        rcases ho with ho | (ho | ⟨name, ho⟩ | ⟨a, b, ho⟩) | ⟨_, _, ho, -⟩
        · cases ho
        · cases ho
        · exact (Op.messagesQueueFor.inj ho).2
        · cases ho
        · cases ho
    exact h.uses huses e he u id hq

/-- No call takes a stored message away. -/
theorem exec_keeps_id (o : Op) (w : World) {id : Str} (h : ∃ r ∈ w.messages, r.id = some id) :
    ∃ r ∈ (exec o w).2.messages, r.id = some id := by
  by_cases hx : Field.messages ∈ o.writesTo
  · obtain ⟨r, hr, hid⟩ := h
    cases o with
    | messagesRecord i conversation sender recipient body nonce ts =>
      show ∃ r ∈ (commit' w _).2.messages, _
      cases hrec : MessageStore.record w i conversation sender recipient body nonce ts with
      | error e => exact ⟨r, hr, hid⟩
      | ok w' =>
        obtain ⟨rfl, -⟩ | ⟨row, -, -, -, rfl⟩ := MessageStore.record_cases hrec
        · exact ⟨r, hr, hid⟩
        · exact ⟨r, List.mem_append_left _ hr, hid⟩
    | messagesMark i state now =>
      show ∃ r ∈ (commit w _).2.messages, _
      cases hmark : MessageStore.mark w i state now with
      | error e => exact ⟨r, hr, hid⟩
      | ok res =>
        obtain ⟨-, ⟨-, hw, -⟩ | ⟨row, -, -, hw⟩⟩ := MessageStore.mark_cases (hmark.trans rfl)
        · show ∃ r ∈ res.2.messages, _
          rw [hw]
          exact ⟨r, hr, hid⟩
        · show ∃ r ∈ res.2.messages, _
          rw [hw]
          refine ⟨_, List.mem_map_of_mem hr, ?_⟩
          split
          · exact (id_of_unmarked (unmarked_markRow r state now)).trans hid
          · exact hid
    | _ => simp [Op.writesTo] at hx
  · have hsame : (exec o w).2.messages = w.messages := exec_same o w hx
    rw [hsame]
    exact h

/-- A record call that went through leaves a message under that id. -/
theorem record_stores {w w' : World} {id body nonce : Json} {conversation name recipient : Str}
    {ts : Int} {key : Str}
    (h : exec (.messagesRecord id conversation (.str name) recipient body nonce ts) w = (.ok (), w'))
    (hk : Sql.text id = .ok (some key)) : ∃ r ∈ w'.messages, r.id = some key := by
  have h : commit' w (MessageStore.record w id conversation (.str name) recipient body nonce ts) =
      (.ok (), w') := h
  cases hrec : MessageStore.record w id conversation (.str name) recipient body nonce ts with
  | error e =>
    rw [hrec] at h
    cases (Prod.mk.inj h).1
  | ok w₁ =>
    rw [hrec] at h
    obtain rfl : w₁ = w' := (Prod.mk.inj h).2
    rcases MessageStore.record_cases hrec with ⟨rfl, hnull | ⟨t, ht, hnf⟩⟩ | ⟨row, hrow, -, -, rfl⟩
    · obtain ⟨-, hnull⟩ := Sql.text_str_ok.mp hnull
      cases hnull
    · -- The id is taken: the message that has it is the one we are after.
      obtain rfl : t = some key := Except.ok.inj (ht.symm.trans hk)
      simp only [World.fresh, reduceCtorEq, false_or, not_forall, not_not] at hnf
      obtain ⟨r, hr, hid⟩ := hnf
      exact ⟨r, hr, hid⟩
    · exact ⟨row, List.mem_append_right _ (List.mem_singleton.mpr rfl),
        Except.ok.inj (hrow.id.symm.trans hk)⟩

theorem exec_queueFor {w w' : World} {u : Str} {id : Json}
    (h : exec (.messagesQueueFor u id) w = (.ok (), w')) :
    (Sql.text id = .ok none ∧ w' = w) ∨
      ∃ key, Sql.text id = .ok (some key) ∧ w' = { w with pending := addOnce w.pending (key, u) } := by
  have h : commit' w (MessageStore.queueFor w u id) = (.ok (), w') := h
  cases hq : MessageStore.queueFor w u id with
  | error e =>
    rw [hq] at h
    cases (Prod.mk.inj h).1
  | ok w₁ =>
    rw [hq] at h
    obtain rfl : w₁ = w' := (Prod.mk.inj h).2
    exact (MessageStore.queueFor_cases hq).2

theorem exec_flush {w w' : World} {u : Json} {rows : List Row}
    (h : exec (.messagesFlush u) w = (.ok rows, w')) :
    (Sql.text u = .ok none ∧ rows = [] ∧ w' = w) ∨
      ∃ name, Sql.text u = .ok (some name) ∧ rows = MessageStore.queued w name ∧
        w' = { w with pending := w.pending.filter fun p => p.2 != name } := by
  have h : commit w (MessageStore.flush w u) = (.ok rows, w') := h
  cases hf : MessageStore.flush w u with
  | error e =>
    rw [hf] at h
    cases (Prod.mk.inj h).1
  | ok res =>
    rw [hf] at h
    obtain ⟨hrows, hw⟩ := Prod.mk.inj h
    obtain rfl : res.1 = rows := Except.ok.inj hrows
    obtain rfl : res.2 = w' := hw
    exact MessageStore.flush_cases (hf.trans rfl)

/-- Only `queue_for` puts anybody in the queue. -/
theorem exec_pending_new {o : Op} {w w' : World} {r : Op.Ret o} (h : exec o w = (.ok r, w'))
    {p : Str × Str} (hp : p ∈ w'.pending) (hnew : p ∉ w.pending) :
    ∃ id, o = .messagesQueueFor p.2 id ∧ Sql.text id = .ok (some p.1) := by
  by_cases hx : Field.pending ∈ o.writesTo
  · cases o with
    | messagesQueueFor u id =>
      rcases exec_queueFor h with ⟨-, rfl⟩ | ⟨key, hk, rfl⟩
      · exact (hnew hp).elim
      · rcases mem_addOnce.mp hp with hold | rfl
        · exact (hnew hold).elim
        · exact ⟨id, rfl, hk⟩
    | messagesFlush u =>
      rcases exec_flush h with ⟨-, -, rfl⟩ | ⟨name, -, -, rfl⟩
      · exact (hnew hp).elim
      · exact (hnew (List.mem_filter.mp hp).1).elim
    | _ => simp [Op.writesTo] at hx
  · have hsame : (exec o w).2.pending = w.pending := exec_same o w hx
    rw [h] at hsame
    exact (hnew (hsame ▸ hp)).elim

section Runs

variable {cfg : Config} {w₀ : World} {c : ServerPool}

/-- What was recorded stays recorded. -/
theorem Interleaving.saved (h : Interleaving cfg w₀ c) {t : Nat} {e : Event routerSig}
    (he : (t, e) ∈ c.log) {id : Json} (hs : Saved id e) {key : Str}
    (hk : Sql.text id = .ok (some key)) : ∃ r ∈ c.state.messages, r.id = some key := by
  have hinv : ∀ t e, (t, e) ∈ c.log → Saved id e → ∃ r ∈ c.state.messages, r.id = some key := by
    refine Pool.Reach.inv
      (I := fun w log => ∀ t e, (t, e) ∈ log → Saved id e → ∃ r ∈ w.messages, r.id = some key)
      (by simp) ?_ ?_ h
    · intro c t l o k r w' _ _ hex hI t' e' hmem hsaved
      rcases List.mem_append.mp hmem with hmem | hmem
      · have hkeep := exec_keeps_id o c.state (hI t' e' hmem hsaved)
        rwa [hex] at hkeep
      · obtain ⟨-, rfl⟩ := Prod.mk.inj (List.mem_singleton.mp hmem)
        obtain ⟨conversation, name, recipient, body, nonce, ts, rfl⟩ := hsaved
        exact record_stores hex hk
    · intro o er w w' log hex hI
      rwa [exec_error hex]
  exact hinv t e he hs

/-- **Everybody queued is queued for a message that is stored**, between any two
calls of any handlers. -/
theorem Interleaving.pendingStored (h : Interleaving cfg w₀ c) (hm : cfg.messages = true)
    (h₀ : w₀.pending = []) : PendingStored c.state := by
  refine Pool.Reach.inv (I := fun w _ => PendingStored w) ?_ ?_ ?_ h
  · intro p hp
    rw [h₀] at hp
    cases hp
  · intro c t l o k r w' hc ht hex hI p hp
    have hkeep : p ∈ c.state.pending → ∃ r ∈ w'.messages, r.id = some p.1 := by
      intro hold
      have := exec_keeps_id o c.state (hI p hold)
      rwa [hex] at this
    by_cases hold : p ∈ c.state.pending
    · exact hkeep hold
    · -- A new entry: the call was `queue_for`, and its handler recorded before it.
      obtain ⟨id, rfl, hk⟩ := exec_pending_new hex hp hold
      have hpath := (hc.path_call ht).snoc r
      have hlast : (⟨_, r⟩ : Event routerSig) ∈ c.own t ++ [⟨.messagesQueueFor p.2 id, r⟩] :=
        List.mem_append_right _ (List.mem_singleton.mpr rfl)
      obtain ⟨s, f, rfl, -, rfl⟩ := queue_msg hpath hlast rfl
      obtain ⟨e, he, hsaved⟩ := hpath.gated (Input.gated cfg hm s f) hlast
        fun hno => hno _ _ rfl
      rcases List.mem_append.mp he with he | he
      · obtain ⟨⟨t', e'⟩, hmem, rfl⟩ := List.mem_map.mp he
        have := exec_keeps_id (.messagesQueueFor p.2 f.id) c.state
          (Interleaving.saved hc (List.mem_filter.mp hmem).1 hsaved hk)
        rwa [hex] at this
      · obtain ⟨_, _, _, _, _, _, hop⟩ := hsaved
        rw [List.mem_singleton.mp he] at hop
        cases hop
  · intro o e w w' _ hex hI
    rwa [exec_error hex]

end Runs

/-! ## One entry of the queue -/

/-- The text a value is stored as; none for `NULL` and for what sqlite refuses. -/
def Sql.key (v : Json) : Option Str := (Sql.text v).toOption.join

theorem Sql.key_of_text {v : Json} {t : Option Str} (h : Sql.text v = .ok t) : Sql.key v = t := by
  rw [Sql.key, h]
  rfl

/-- The call queues the recipient under the id. -/
def queues (key name : Str) (e : Event routerSig) : Bool :=
  match e.op with
  | .messagesQueueFor u id => u == name && Sql.key id == some key
  | _ => false

/-- The call is a `flush` for the recipient, and the message with this id is
among what it took. -/
def takes (key name : Str) : Event routerSig → Bool
  | ⟨.messagesFlush u, rows⟩ => Sql.key u == some name && rows.any fun r => r.id == some key
  | _ => false

/-- How often the recipient was queued under the id. -/
def timesQueued (log : List (Nat × Event routerSig)) (key name : Str) : Nat :=
  log.countP fun e => queues key name e.2

/-- How often a `flush` took the message for the recipient. -/
def timesTaken (log : List (Nat × Event routerSig)) (key name : Str) : Nat :=
  log.countP fun e => takes key name e.2

/-- What the log says about one entry: never queued is never taken, and queued
once is either still there or taken once. -/
structure Ledger (w : World) (log : List (Nat × Event routerSig)) (key name : Str) : Prop where
  never : timesQueued log key name = 0 → (key, name) ∉ w.pending ∧ timesTaken log key name = 0
  once : timesQueued log key name = 1 →
    ((key, name) ∈ w.pending ∧ timesTaken log key name = 0) ∨
      ((key, name) ∉ w.pending ∧ timesTaken log key name = 1)

section Ledger

variable {w w' : World} {log : List (Nat × Event routerSig)} {key name : Str} {t : Nat}

theorem timesQueued_snoc (e : Event routerSig) : timesQueued (log ++ [(t, e)]) key name =
    timesQueued log key name + if queues key name e then 1 else 0 := by
  simp [timesQueued, List.countP_append, List.countP_cons]

theorem timesTaken_snoc (e : Event routerSig) : timesTaken (log ++ [(t, e)]) key name =
    timesTaken log key name + if takes key name e then 1 else 0 := by
  simp [timesTaken, List.countP_append, List.countP_cons]

/-- A call that neither queues nor takes the entry, and leaves it as it is. -/
theorem Ledger.idle (h : Ledger w log key name) {e : Event routerSig}
    (hq : queues key name e = false) (ht : takes key name e = false)
    (hp : (key, name) ∈ w'.pending ↔ (key, name) ∈ w.pending) :
    Ledger w' (log ++ [(t, e)]) key name := by
  constructor
  · rw [timesQueued_snoc, timesTaken_snoc, hq, ht, hp]
    exact h.never
  · rw [timesQueued_snoc, timesTaken_snoc, hq, ht, hp]
    exact h.once

/-- Queueing the entry: what was never queued is now there. -/
theorem Ledger.queue (h : Ledger w log key name) {e : Event routerSig}
    (hq : queues key name e = true) (ht : takes key name e = false)
    (hp : (key, name) ∈ w'.pending) : Ledger w' (log ++ [(t, e)]) key name := by
  have hcount : timesQueued (log ++ [(t, e)]) key name = timesQueued log key name + 1 := by
    rw [timesQueued_snoc, hq]
    rfl
  constructor
  · intro hnone
    omega
  · intro hone
    have hnever := h.never (by omega)
    rw [timesTaken_snoc, ht]
    exact .inl ⟨hp, hnever.2⟩

/-- A `flush` of this recipient takes the entry if it is there. -/
theorem Ledger.flush (h : Ledger w log key name) {e : Event routerSig}
    (hq : queues key name e = false)
    (ht : takes key name e = true ↔ (key, name) ∈ w.pending)
    (hp : (key, name) ∉ w'.pending) : Ledger w' (log ++ [(t, e)]) key name := by
  have hcount : timesQueued (log ++ [(t, e)]) key name = timesQueued log key name := by
    rw [timesQueued_snoc, hq]
    rfl
  constructor
  · intro hnone
    obtain ⟨hout, hzero⟩ := h.never (hcount ▸ hnone)
    have htake : takes key name e = false := by
      simpa using mt ht.mp hout
    rw [timesTaken_snoc, htake, hzero]
    exact ⟨hp, rfl⟩
  · intro hone
    refine .inr ⟨hp, ?_⟩
    rw [timesTaken_snoc]
    rcases h.once (hcount ▸ hone) with ⟨hin, hzero⟩ | ⟨hout, hone⟩
    · rw [ht.mpr hin, hzero]
      rfl
    · have htake : takes key name e = false := by
        simpa using mt ht.mp hout
      rw [htake, hone]
      rfl

/-- The rows a `flush` answers hold the message exactly if its recipient is
queued for it. -/
theorem takes_flush (hs : PendingStored w) {u : Json} (hu : Sql.text u = .ok (some name)) :
    takes key name ⟨.messagesFlush u, MessageStore.queued w name⟩ = true ↔
      (key, name) ∈ w.pending := by
  simp only [takes, Sql.key_of_text hu, BEq.rfl, Bool.true_and, List.any_eq_true, beq_iff_eq]
  constructor
  · intro h
    obtain ⟨row, hrow, hid⟩ := h
    obtain ⟨-, id', hid', hp⟩ := mem_queued_iff.mp hrow
    obtain rfl : id' = key := Option.some.inj (hid'.symm.trans hid)
    exact hp
  · intro hp
    obtain ⟨row, hrow, hid⟩ := hs _ hp
    exact ⟨row, mem_queued_iff.mpr ⟨hrow, _, hid, hp⟩, hid⟩

/-- One call of any handler. -/
theorem Ledger.call (h : Ledger w log key name) (hs : PendingStored w) {o : Op} {r : Op.Ret o}
    (he : exec o w = (.ok r, w')) : Ledger w' (log ++ [(t, ⟨o, r⟩)]) key name := by
  by_cases hx : Field.pending ∈ o.writesTo
  · cases o with
    | messagesQueueFor u id =>
      by_cases hq : queues key name ⟨.messagesQueueFor u id, r⟩ = true
      · refine h.queue hq rfl ?_
        simp only [queues, Bool.and_eq_true, beq_iff_eq] at hq
        obtain ⟨rfl, hkey⟩ := hq
        rcases exec_queueFor he with ⟨hnull, -⟩ | ⟨k, hk, rfl⟩
        · rw [Sql.key_of_text hnull] at hkey
          cases hkey
        · obtain rfl : k = key := Option.some.inj ((Sql.key_of_text hk).symm.trans hkey)
          exact mem_addOnce.mpr (.inr rfl)
      · refine h.idle (by simpa using hq) rfl ?_
        rcases exec_queueFor he with ⟨-, rfl⟩ | ⟨k, hk, rfl⟩
        · rfl
        · -- Another entry went in.
          rw [mem_addOnce]
          refine or_iff_left fun heq => hq ?_
          obtain ⟨rfl, rfl⟩ := Prod.mk.inj heq
          simp [queues, Sql.key_of_text hk]
    | messagesFlush u =>
      rcases exec_flush he with ⟨hnull, rfl, rfl⟩ | ⟨n, hn, rfl, rfl⟩
      · exact h.idle rfl (by simp [takes]) Iff.rfl
      · by_cases hnn : n = name
        · subst hnn
          exact h.flush rfl (takes_flush hs hn) (by simp)
        · refine h.idle rfl ?_ ?_
          · simp [takes, Sql.key_of_text hn, hnn]
          · simp [Ne.symm hnn]
    | _ => simp [Op.writesTo] at hx
  · have hsame : (exec o w).2.pending = w.pending := exec_same o w hx
    rw [he] at hsame
    have hsame : w'.pending = w.pending := hsame
    refine h.idle ?_ ?_ (by rw [hsame])
    · cases o <;> first | rfl | simp [Op.writesTo] at hx
    · cases o <;> first | rfl | simp [Op.writesTo] at hx

end Ledger

/-- **The ledger of every entry is right**, between any two calls. -/
theorem Interleaving.ledger {cfg : Config} {w₀ : World} {c : ServerPool} (h : Interleaving cfg w₀ c)
    (hm : cfg.messages = true) (h₀ : w₀.pending = []) (key name : Str) :
    Ledger c.state c.log key name := by
  refine Pool.Reach.inv (I := fun w log => Ledger w log key name) ?_ ?_ ?_ h
  · constructor
    · intro _
      simp [h₀, timesTaken]
    · intro hone
      cases hone
  · intro c t l o k r w' hc _ hex hI
    exact hI.call (Interleaving.pendingStored hc hm h₀) hex
  · intro o e w w' _ hex hI
    rwa [exec_error hex]

end Ciphertext
