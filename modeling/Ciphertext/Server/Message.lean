import Ciphertext.Server.CallSpecs

/-!
# What handling a MSG does

The fan-out of a message, in closed form. `copies` lists who an accepted MSG is
for and the frame each of them is to get. Handling the MSG stores at most one
row, and then settles the copies one by one: a copy goes to the connection its
addressee is logged in on, or the addressee is queued under the message's id.
A handler that raises has settled a first part of the list and nothing else.

`message_effect` is the main result; `toUser_ended` and `toRoom_ended` are its two halves,
and `Dealt` is what is known of the world after some of the copies have been settled. In a
direct message one copy exists, and the two contacts are noted between the record and its
delivery; an exception there leaves a stored message that nobody was sent or queued for.
-/

namespace Ciphertext

open Prog MessageRouter

variable [Runtime]

/-! ## The closed form -/

/-- The id a message is queued under; without a store nobody is queued. -/
def queueId (cfg : Config) (id : Json) : Option Str :=
  if cfg.messages then (Sql.text id).toOption.join else none

/-- Queue each of the names under one id. The `NULL` id queues nobody. -/
def queueAll (id : Option Str) (names : List Str) (pending : List (Str × Str)) :
    List (Str × Str) :=
  match id with
  | none => pending
  | some t => names.foldl (fun p name => addOnce p (t, name)) pending

/-- The copies that go to live connections, in order. -/
def live (w : World) (done : List (Str × Frame)) : List Delivery :=
  done.filterMap fun c => (SessionRegistry.get w (.str c.1)).map fun t => ⟨t, w.username t, c.2⟩

/-- The addressees who are not connected. -/
def away (w : World) (done : List (Str × Frame)) : List Str :=
  (done.filter fun c => (SessionRegistry.get w (.str c.1)).isNone).map Prod.fst

/-- The world once the copies in `done` have been settled. -/
def settled (w : World) (id : Option Str) (done : List (Str × Frame)) : World :=
  { w with sent := w.sent ++ live w done, pending := queueAll id (away w done) w.pending }

/-- One room member's copy; the sender has none. -/
def copyFor (me : Json) (g : Frame) (env : Option Dict) (name : Str) : Option (Str × Frame) :=
  if me = .str name then none else (addressedTo g env name).map fun h => (name, h)

omit [Runtime] in
/-- Queued is what was queued, and the id for these names. -/
theorem mem_queueAll {id : Option Str} {names : List Str} {pending : List (Str × Str)}
    {p : Str × Str} :
    p ∈ queueAll id names pending ↔ p ∈ pending ∨ (id = some p.1 ∧ p.2 ∈ names) := by
  unfold queueAll
  cases id with
  | none => simp
  | some t =>
    dsimp only
    induction names generalizing pending with
    | nil => simp
    | cons n ns ih =>
      rw [List.foldl_cons, ih, mem_addOnce]
      constructor
      · rintro ((h | rfl) | ⟨h, hn⟩)
        · exact .inl h
        · exact .inr ⟨rfl, List.mem_cons_self ..⟩
        · exact .inr ⟨h, List.mem_cons_of_mem _ hn⟩
      · rintro (h | ⟨h, hn⟩)
        · exact .inl (.inl h)
        · rcases List.mem_cons.mp hn with hn | hn
          · exact .inl (.inr (Prod.ext (Option.some.inj h).symm hn))
          · exact .inr ⟨h, hn⟩

omit [Runtime] in
/-- Settling no copies does nothing. -/
theorem settled_nil (w : World) (id : Option Str) : settled w id [] = w := by
  cases id <;> simp [settled, live, away, queueAll]

omit [Runtime] in
/-- Settling in two goes, the connections being the same throughout. -/
theorem settled_cons (w : World) (id : Option Str) (c : Str × Frame) (done : List (Str × Frame)) :
    settled (settled w id [c]) id done = settled w id (c :: done) := by
  have hl : live (settled w id [c]) done = live w done := rfl
  have ha : away (settled w id [c]) done = away w done := rfl
  have hlive : live w (c :: done) = live w [c] ++ live w done := by
    unfold live
    rw [← List.filterMap_append, List.singleton_append]
  have haway : away w (c :: done) = away w [c] ++ away w done := by
    unfold away
    rw [← List.map_append, ← List.filter_append, List.singleton_append]
  unfold settled
  simp only [World.mk.injEq, true_and, and_true]
  refine ⟨?_, ?_⟩
  · show queueAll id (away w done) (queueAll id (away w [c]) w.pending) = _
    rw [haway]
    cases id with
    | none => rfl
    | some t => exact (List.foldl_append ..).symm
  · show (w.sent ++ live w [c]) ++ live w done = _
    rw [hlive, List.append_assoc]

/-! ## One copy -/

/-- Handing one copy over settles it, or raises and changes nothing. -/
theorem handOver_exec (cfg : Config) (w : World) (name : Str) (g : Frame)
    (hm : cfg.messages = true ∨ (SessionRegistry.get w (.str name)).isSome = true) :
    (handOver (SessionRegistry.get w (.str name)) name g).exec w =
        (.ok (), settled w (queueId cfg g.id) [(name, g)]) ∨
      ∃ e, (handOver (SessionRegistry.get w (.str name)) name g).exec w = (.error e, w) := by
  cases hget : SessionRegistry.get w (.str name) with
  | some t =>
    refine .inl ?_
    show ((.ok (), w.push t g) : Except PyErr Unit × World) = _
    cases hq : queueId cfg g.id <;> simp [settled, live, away, hget, World.push, queueAll]
  | none =>
    have hm : cfg.messages = true := by simpa [hget] using hm
    have hrun : (handOver none name g).exec w = commit' w (MessageStore.queueFor w name g.id) :=
      RouterM.exec_call _ w
    rw [hrun]
    cases hr : MessageStore.queueFor w name g.id with
    | error e => exact .inr ⟨e, rfl⟩
    | ok w' =>
      refine .inl ?_
      obtain ⟨-, ⟨ht, rfl⟩ | ⟨t, ht, rfl⟩⟩ := MessageStore.queueFor_cases hr <;>
        simp [commit', settled, live, away, hget, queueAll, queueId, hm, ht, Except.toOption]

/-- The copy for a member keeps the id. -/
theorem addressedTo_id {g h : Frame} {env : Option Dict} {name : Str}
    (ha : addressedTo g env name = some h) : h.id = g.id := by
  unfold addressedTo at ha
  split at ha
  · rw [← Option.some.inj ha]
  · split at ha
    · rw [← Option.some.inj ha]
    · cases ha

/-- One member's turn settles that member's copy, if there is one. -/
theorem deliverTo_exec (cfg : Config) (w : World) (me : Json) (g : Frame) (env : Option Dict)
    (name : Str) :
    (deliverTo cfg me g env name).exec w =
        (.ok (), settled w (queueId cfg g.id) (copyFor me g env name).toList) ∨
      ∃ e, (deliverTo cfg me g env name).exec w = (.error e, w) := by
  unfold copyFor
  by_cases hme : me = .str name
  · refine .inl ?_
    rw [if_pos hme, Option.toList_none, settled_nil, deliverTo, if_pos hme]
    rfl
  · rw [deliverTo, if_neg hme, if_neg hme, RouterM.exec_bind, RouterM.exec_call]
    simp only [exec]
    cases ha : addressedTo g env name with
    | none =>
      refine .inl ?_
      rw [Option.map_none, Option.toList_none, settled_nil]
      rfl
    | some h =>
      have hid : h.id = g.id := addressedTo_id ha
      simp only [Option.map_some, Option.toList_some]
      by_cases hoff : ((SessionRegistry.get w (.str name)).isNone && !cfg.messages) = true
      · refine .inl ?_
        rw [if_pos hoff]
        simp only [Bool.and_eq_true, Option.isNone_iff_eq_none, Bool.not_eq_true'] at hoff
        simp [settled, live, hoff.1, queueId, hoff.2, queueAll]
      · rw [if_neg hoff, ← hid]
        refine handOver_exec cfg w name h ?_
        cases hget : SessionRegistry.get w (.str name) <;> simp_all

/-- The fan-out settles a first part of the members' copies, and all of them
unless it raises. -/
theorem forEach_deliverTo_exec (cfg : Config) (me : Json) (g : Frame) (env : Option Dict)
    (names : List Str) (w : World) :
    ∃ done rest, names = done ++ rest ∧
      ((RouterM.exec (forEach names (deliverTo cfg me g env)) w).1 = .ok () → rest = []) ∧
      (RouterM.exec (forEach names (deliverTo cfg me g env)) w).2 =
        settled w (queueId cfg g.id) (done.filterMap (copyFor me g env)) := by
  induction names generalizing w with
  | nil => exact ⟨[], [], rfl, fun _ => rfl, (settled_nil w _).symm⟩
  | cons name names ih =>
    rw [forEach_cons, RouterM.exec_bind]
    rcases deliverTo_exec cfg w me g env name with hrun | ⟨e, hrun⟩
    · rw [hrun]
      obtain ⟨done, rest, hnames, hok, hw⟩ :=
        ih (settled w (queueId cfg g.id) (copyFor me g env name).toList)
      refine ⟨name :: done, rest, by rw [hnames, List.cons_append], hok, hw.trans ?_⟩
      rw [List.filterMap_cons]
      cases hc : copyFor me g env name with
      | none => rw [Option.toList_none, settled_nil]
      | some c => rw [Option.toList_some, settled_cons]
    · rw [hrun]
      exact ⟨[], name :: names, rfl, fun h => by simp at h, (settled_nil w _).symm⟩

/-! ## Storing the message -/

/-- The members of a room, as the table lists them. -/
def memberNames (w : World) (room : Str) : List Str :=
  (w.memberships.filter fun m => m.1 == room).map Prod.snd

/-- The envelopes of a room message; a direct message has none. -/
def envOf (f : Frame) (target : Str) : Option Dict :=
  if target.startsWith roomPrefix then (f.get "env").asDict else none

/-- The row that a MSG of a session logged in as `me` is stored as. -/
structure Stores (me : Json) (f : Frame) (row : Row) : Prop where
  id : Sql.text f.id = .ok row.id
  sender : Sql.text (orEmpty me) = .ok (some row.sender)
  target : f.target = .str row.recipient
  encodable : row.recipient.encodable = true
  ts : row.ts = f.ts
  unmarked : row.deliveredAt = none ∧ row.readAt = none
  conversation :
    if row.recipient.startsWith roomPrefix then row.conversation = row.recipient
    else directConversation (orEmpty me) (.str row.recipient) = .ok row.conversation
  content :
    match envOf f row.recipient with
    | some env => Sql.text (.str (Runtime.dumps (.dict env))) = .ok row.body ∧
        row.nonce = some envelopes
    | none => Sql.text f.body = .ok row.body ∧ Sql.text f.nonce = .ok row.nonce

/-- What storing a message can do: nothing without a store, nothing for an id
that is taken, or one new row. -/
def Filed (cfg : Config) (me : Json) (f : Frame) (w w' : World) : Prop :=
  (cfg.messages = false ∧ w' = w) ∨
    (cfg.messages = true ∧ w' = w ∧
      (Sql.text (orEmpty me) = .ok none ∨ ∃ t, Sql.text f.id = .ok t ∧ ¬ w.fresh t)) ∨
    (cfg.messages = true ∧ ∃ row, Stores me f row ∧ w.fresh row.id ∧
      w' = { w with messages := w.messages ++ [row] })

/-- A guarded call of `record`, when the row it would add is the message's. -/
theorem record_exec (cfg : Config) (w : World) (me : Json) (f : Frame)
    (conversation recipient : Str) (body nonce : Json)
    (hrow : ∀ row : Row, row.Holds f.id conversation (orEmpty me) recipient body nonce f.ts →
      recipient.encodable = true → Stores me f row) :
    (∃ e, RouterM.exec (if (!cfg.messages) = true then .pure () else
        messagesRecord f.id conversation (orEmpty me) recipient body nonce f.ts) w =
          (.error e, w)) ∨
      ∃ w', RouterM.exec (if (!cfg.messages) = true then .pure () else
          messagesRecord f.id conversation (orEmpty me) recipient body nonce f.ts) w =
            (.ok (), w') ∧ Filed cfg me f w w' := by
  cases hm : cfg.messages with
  | false => exact .inr ⟨w, rfl, .inl ⟨hm, rfl⟩⟩
  | true =>
    have hrun := RouterM.exec_call
      (.messagesRecord f.id conversation (orEmpty me) recipient body nonce f.ts) w
    simp only [Bool.not_true, Bool.false_eq_true, if_false]
    rw [hrun]
    simp only [exec]
    cases hr : MessageStore.record w f.id conversation (orEmpty me) recipient body nonce f.ts with
    | error e => exact .inl ⟨e, rfl⟩
    | ok w' =>
      refine .inr ⟨w', rfl, .inr ?_⟩
      rcases MessageStore.record_cases hr with ⟨hw, hwhy⟩ | ⟨row, hholds, hfresh, he, hw⟩
      · exact .inl ⟨hm, hw, hwhy⟩
      · exact .inr ⟨hm, row, hrow row hholds he, hfresh, hw⟩

/-- A direct message is stored under the pair's conversation. -/
theorem record_filed (cfg : Config) (w : World) (me : Json) (f : Frame) {target conversation : Str}
    (ht : f.target = .str target) (hd : target.startsWith roomPrefix = false)
    (hc : directConversation (orEmpty me) (.str target) = .ok conversation) :
    (∃ e, (record cfg (outgoing me f) conversation target).exec w = (.error e, w)) ∨
      ∃ w', (record cfg (outgoing me f) conversation target).exec w = (.ok (), w') ∧
        Filed cfg me f w w' := by
  refine record_exec cfg w me f conversation target f.body f.nonce fun row hrow he => ?_
  obtain ⟨hid, hconv, hsender, hrec, hbody, hnonce, hts, hdel, hread⟩ := hrow
  subst hrec hconv
  refine ⟨hid, hsender, ht, he, hts, ⟨hdel, hread⟩, ?_, ?_⟩
  · rw [hd]
    exact hc
  · simp only [envOf, hd]
    exact ⟨hbody, hnonce⟩

/-- A room message is stored under the room, whole map or plain. -/
theorem recordRoom_filed (cfg : Config) (w : World) (me : Json) (f : Frame) {room : Str}
    (ht : f.target = .str room) (hd : room.startsWith roomPrefix = true) :
    (∃ e, (recordRoom cfg (outgoing me f) room (f.get "env").asDict).exec w = (.error e, w)) ∨
      ∃ w', (recordRoom cfg (outgoing me f) room (f.get "env").asDict).exec w = (.ok (), w') ∧
        Filed cfg me f w w' := by
  have henv : envOf f room = (f.get "env").asDict := if_pos hd
  cases he : (f.get "env").asDict with
  | some env =>
    refine record_exec cfg w me f room room (.str (Runtime.dumps (.dict env))) (.str envelopes)
      fun row hrow hre => ?_
    obtain ⟨hid, hconv, hsender, hrec, hbody, hnonce, hts, hdel, hread⟩ := hrow
    subst hrec
    refine ⟨hid, hsender, ht, hre, hts, ⟨hdel, hread⟩, by rw [hd, if_pos rfl, hconv], ?_⟩
    rw [henv, he]
    exact ⟨hbody, (Sql.text_str_ok.mp hnonce).2⟩
  | none =>
    refine record_exec cfg w me f room room f.body f.nonce fun row hrow hre => ?_
    obtain ⟨hid, hconv, hsender, hrec, hbody, hnonce, hts, hdel, hread⟩ := hrow
    subst hrec
    refine ⟨hid, hsender, ht, hre, hts, ⟨hdel, hread⟩, by rw [hd, if_pos rfl, hconv], ?_⟩
    rw [henv, he]
    exact ⟨hbody, hnonce⟩

/-! ## The whole delivery -/

/-- The MSG frames in outboxes, in order. -/
def msgs (w : World) : List Delivery := w.sent.filter fun d => d.frame.type = .msg

/-- Who a MSG to `target` is for, each with the frame they are to get. -/
def copies (w : World) (me : Json) (f : Frame) (target : Str) : List (Str × Frame) :=
  if target.startsWith roomPrefix then
    (Str.sorted (memberNames w target)).filterMap (copyFor me (outgoing me f) (f.get "env").asDict)
  else [(target, outgoing me f)]

/-- The rule of admission: a room one is in, or a person who is connected or
can be queued for. -/
def Admitted (cfg : Config) (w : World) (me : Json) (target : Str) : Prop :=
  if target.startsWith roomPrefix then
    target ∈ w.rooms ∧ me ∈ (memberNames w target).map Json.str
  else (SessionRegistry.get w (.str target)).isSome = true ∨
    (cfg.messages = true ∧ ∃ a ∈ w.accounts, a.username = target)

/-- Changes that leave the message tables, the connections and the MSG frames in
outboxes as they are. -/
structure Aside (w w' : World) : Prop where
  messages : w'.messages = w.messages
  pending : w'.pending = w.pending
  online : w'.online = w.online
  username : w'.username = w.username
  msgs : msgs w' = msgs w

omit [Runtime] in
theorem Aside.refl (w : World) : Aside w w := ⟨rfl, rfl, rfl, rfl, rfl⟩

omit [Runtime] in
theorem Aside.trans {w w' w'' : World} (h : Aside w w') (h' : Aside w' w'') : Aside w w'' :=
  ⟨h'.messages.trans h.messages, h'.pending.trans h.pending, h'.online.trans h.online,
    h'.username.trans h.username, h'.msgs.trans h.msgs⟩

omit [Runtime] in
/-- Another frame is no MSG. -/
theorem msgs_push {w : World} {s : Sid} {g : Frame} (h : g.type ≠ .msg) :
    msgs (w.push s g) = msgs w := by
  simp [msgs, World.push, List.filter_append, h]

omit [Runtime] in
theorem msgs_congr {w w' : World} (h : w'.sent = w.sent) : msgs w' = msgs w := by
  unfold msgs
  rw [h]

/-- A program that writes only contacts and sends no MSG. -/
theorem aside_of_uses {α : Type} {p : RouterM α} (w : World)
    (h : p.Uses (Footprint.allows
      { sends := fun _ g => g.type ≠ .msg
        writes := fun o => o.writesTo = [.contacts] })) : Aside w (p.exec w).2 := by
  refine (Uses.keeps (I := Aside w) h ?_ w (.refl w)).1
  intro o ho w' hw'
  refine hw'.trans ?_
  have hfields : ∀ x : Field, x ∈ o.writesTo → x = .contacts ∨ x = .sent := by
    rcases ho with hq | hw | ⟨s, g, rfl, -⟩
    · intro x hx
      cases o <;> simp [Op.quiet, Op.writesTo] at hq hx
    · have hw : o.writesTo = [.contacts] := hw
      intro x hx
      rw [hw] at hx
      exact .inl (List.mem_singleton.mp hx)
    · intro x hx
      exact .inr (List.mem_singleton.mp hx)
  have hsame : ∀ x : Field, x ≠ .contacts → x ≠ .sent → x.Same w' (exec o w').2 := fun x hc hs =>
    exec_same o w' fun hx => (hfields x hx).elim hc hs
  refine ⟨hsame .messages (by simp) (by simp), hsame .pending (by simp) (by simp),
    hsame .online (by simp) (by simp), hsame .username (by simp) (by simp), ?_⟩
  rcases ho with hq | hw | ⟨s, g, rfl, hg⟩
  · refine msgs_congr (exec_same o w' (x := .sent) fun hx => ?_)
    cases o <;> simp [Op.quiet, Op.writesTo] at hq hx
  · have hw : o.writesTo = [.contacts] := hw
    refine msgs_congr (exec_same o w' (x := .sent) fun hx => ?_)
    rw [hw] at hx
    simp at hx
  · exact msgs_push hg

/-- A refusal delivers nothing. -/
theorem refuse_aside (w : World) (s : Sid) (code message : Str) :
    ∃ w', (refuse s code message).exec w = (.ok (), w') ∧ Aside w w' :=
  ⟨_, rfl, rfl, rfl, rfl, rfl, msgs_push (by simp)⟩

/-- Nor does becoming contacts. -/
theorem noteContact_aside (cfg : Config) (w : World) (owner other : Json) :
    Aside w ((noteContact cfg owner other).exec w).2 :=
  aside_of_uses w (noteContact_uses cfg (fun _ g hg => by simp [hg]) rfl)

/-- What an admitted MSG leaves once the copies in `done` are settled. -/
structure Dealt (cfg : Config) (w : World) (me : Json) (f : Frame) (done : List (Str × Frame))
    (w' : World) : Prop where
  filed : ∃ w₁, Filed cfg me f w w₁ ∧ w'.messages = w₁.messages
  pending : w'.pending = queueAll (queueId cfg f.id) (away w done) w.pending
  msgs : msgs w' = msgs w ++ live w done

/-- How a delivery can end: turned away with nothing done, or admitted and
dealt with up to some copy. -/
def Ended (cfg : Config) (w : World) (me : Json) (f : Frame) (target : Str)
    (r : Except PyErr Bool × World) : Prop :=
  (Aside w r.2 ∧ r.1 ≠ .ok true ∧ (r.1 = .ok false → ¬ Admitted cfg w me target)) ∨
    (Admitted cfg w me target ∧ r.1 ≠ .ok false ∧ ∃ done rest,
      copies w me f target = done ++ rest ∧ (r.1 = .ok true → rest = []) ∧
        Dealt cfg w me f done r.2)

theorem Ended.raised {cfg : Config} {w w' : World} {me : Json} {f : Frame} {target : Str}
    {e : PyErr} (h : Aside w w') : Ended cfg w me f target (.error e, w') :=
  .inl ⟨h, by simp, by simp⟩

/-- Filing a message leaves what is pending, online and sent alone. -/
theorem Filed.aside {cfg : Config} {me : Json} {f : Frame} {w w₁ : World}
    (h : Filed cfg me f w w₁) : w₁.pending = w.pending ∧ w₁.online = w.online ∧
      w₁.username = w.username ∧ w₁.sent = w.sent := by
  rcases h with ⟨-, rfl⟩ | ⟨-, rfl, -⟩ | ⟨-, row, -, -, rfl⟩ <;> exact ⟨rfl, rfl, rfl, rfl⟩

omit [Runtime] in
/-- Who gets a copy live depends on who is online, -/
theorem live_congr {w w' : World} (ho : w'.online = w.online) (hu : w'.username = w.username)
    (done : List (Str × Frame)) : live w' done = live w done := by
  unfold live SessionRegistry.get
  rw [ho, hu]

omit [Runtime] in
/-- and so does who is queued one. -/
theorem away_congr {w w' : World} (ho : w'.online = w.online) (done : List (Str × Frame)) :
    away w' done = away w done := by
  unfold away SessionRegistry.get
  rw [ho]

omit [Runtime] in
theorem msgs_live (w : World) {done : List (Str × Frame)} (h : ∀ c ∈ done, c.2.type = .msg) :
    (live w done).filter (fun d => d.frame.type = .msg) = live w done := by
  refine List.filter_eq_self.mpr fun d hd => ?_
  obtain ⟨c, hc, hd⟩ := List.mem_filterMap.mp hd
  obtain ⟨t, -, rfl⟩ := Option.map_eq_some_iff.mp hd
  simpa using h c hc

/-- Settling copies after the message has been filed and contacts noted. -/
theorem Dealt.of_settled {cfg : Config} {w w₁ w₂ : World} {me : Json} {f : Frame}
    {done : List (Str × Frame)} (hf : Filed cfg me f w w₁) (ha : Aside w₁ w₂)
    (hm : ∀ c ∈ done, c.2.type = .msg) :
    Dealt cfg w me f done (settled w₂ (queueId cfg f.id) done) := by
  obtain ⟨hp, ho, hu, hs⟩ := hf.aside
  have hlive : live w₂ done = live w done :=
    live_congr (ha.online.trans ho) (ha.username.trans hu) done
  refine ⟨⟨w₁, hf, ha.messages⟩, ?_, ?_⟩
  · show queueAll _ (away w₂ done) w₂.pending = _
    rw [away_congr (ha.online.trans ho), ha.pending, hp]
  · show (w₂.sent ++ live w₂ done).filter _ = _
    rw [List.filter_append, msgs_live w₂ hm, hlive]
    exact congrArg (· ++ live w done) (ha.msgs.trans (msgs_congr hs))

theorem copyFor_msg {me : Json} {f : Frame} {env : Option Dict} {name : Str} {c : Str × Frame}
    (h : copyFor me (outgoing me f) env name = some c) : c.1 = name ∧ Relayed me f c.2 := by
  unfold copyFor at h
  split at h
  · cases h
  · obtain ⟨g, hg, rfl⟩ := Option.map_eq_some_iff.mp h
    exact ⟨rfl, addressedTo_relayed hg⟩

/-- Every copy is the message, relayed. -/
theorem copies_relayed {w : World} {me : Json} {f : Frame} {target : Str} {c : Str × Frame}
    (h : c ∈ copies w me f target) : Relayed me f c.2 := by
  unfold copies at h
  split at h
  · obtain ⟨name, -, hc⟩ := List.mem_filterMap.mp h
    exact (copyFor_msg hc).2
  · obtain rfl := List.mem_singleton.mp h
    exact ⟨rfl, rfl, rfl, rfl, rfl⟩

/-- **A message to a room** ends in one of these ways, -/
theorem toRoom_ended (cfg : Config) (w : World) (s : Sid) (me : Json) (f : Frame) {room : Str}
    (ht : f.target = .str room) (hd : room.startsWith roomPrefix = true) :
    Ended cfg w me f room ((toRoom cfg s me room (outgoing me f) (f.get "env").asDict).exec w) := by
  -- The handler's gates in their order: the room's name, the room, the membership, the row.
  by_cases henc : room.encodable = true
  case neg =>
    have : (toRoom cfg s me room (outgoing me f) (f.get "env").asDict).exec w =
        (.error .unicodeEncodeError, w) := by
      unfold toRoom
      rw [RouterM.exec_bind, RouterM.exec_call]
      simp [exec, SqliteRooms.exists', Sql.str, henc, Bind.bind, Except.bind]
    rw [this]
    exact .raised (.refl w)
  have hex : SqliteRooms.exists' w room = .ok (w.rooms.contains room) := by
    simp [SqliteRooms.exists', Sql.str, henc, Bind.bind, Except.bind, Pure.pure, Except.pure]
  have hmem : SqliteRooms.members w room = .ok (memberNames w room) := by
    simp [SqliteRooms.members, memberNames, Sql.str, henc, Bind.bind, Except.bind, Pure.pure,
      Except.pure]
  unfold toRoom
  rw [RouterM.exec_bind, RouterM.exec_call]
  simp only [exec, hex]
  by_cases hroom : room ∈ w.rooms
  case neg =>
    obtain ⟨w', hrun, ha⟩ := refuse_aside w s "NO_SUCH_ROOM" (fstr [room, " does not exist"])
    have hc : w.rooms.contains room = false := by simpa using hroom
    simp only [hc, Bool.not_false, if_true]
    rw [RouterM.exec_bind, hrun]
    exact .inl ⟨ha, by simp, fun _ hadm => by simp [Admitted, hd, hroom] at hadm⟩
  have hc : w.rooms.contains room = true := by simpa using hroom
  simp only [hc, Bool.not_true, Bool.false_eq_true, if_false]
  rw [RouterM.exec_bind, RouterM.exec_call]
  simp only [exec, hmem]
  by_cases hin : me ∈ (memberNames w room).map Json.str
  case neg =>
    obtain ⟨w', hrun, ha⟩ := refuse_aside w s "NOT_A_MEMBER"
      (fstr ["join ", room, " before sending to it"])
    have hc : ((memberNames w room).map Json.str).contains me = false := by simpa using hin
    simp only [hc, Bool.not_false, if_true]
    rw [RouterM.exec_bind, hrun]
    refine .inl ⟨ha, by simp, fun _ hadm => ?_⟩
    simp only [Admitted, hd, if_true] at hadm
    exact hin hadm.2
  have hc : ((memberNames w room).map Json.str).contains me = true := by simpa using hin
  simp only [hc, Bool.not_true, Bool.false_eq_true, if_false]
  rw [RouterM.exec_bind]
  rcases recordRoom_filed cfg w me f ht hd with ⟨e, hrun⟩ | ⟨w₁, hrun, hf⟩
  · rw [hrun]
    exact .raised (.refl w)
  rw [hrun]
  dsimp only
  rw [RouterM.exec_bind]
  -- the loop may raise half-way; the copies before that point are settled
  obtain ⟨done, rest, hnames, hok, hw⟩ := forEach_deliverTo_exec cfg me (outgoing me f)
    (f.get "env").asDict (Str.sorted (memberNames w room)) w₁
  have hcopies : copies w me f room =
      done.filterMap (copyFor me (outgoing me f) (f.get "env").asDict) ++
        rest.filterMap (copyFor me (outgoing me f) (f.get "env").asDict) := by
    rw [← List.filterMap_append, ← hnames, copies, if_pos hd]
  have hdealt := Dealt.of_settled hf (.refl w₁) fun c hc =>
    (copies_relayed (hcopies ▸ List.mem_append_left _ hc)).type
  have hadm : Admitted cfg w me room := by simp only [Admitted, hd, if_true]; exact ⟨hroom, hin⟩
  generalize hloop : RouterM.exec (forEach (Str.sorted (memberNames w room))
    (deliverTo cfg me (outgoing me f) (f.get "env").asDict)) w₁ = r at hok hw
  obtain ⟨e | u, w₂⟩ := r <;> dsimp only at hw ⊢ <;> subst hw
  · exact .inr ⟨hadm, by simp, _, _, hcopies, by simp, hdealt⟩
  · refine .inr ⟨hadm, by simp, _, _, hcopies, fun _ => ?_, hdealt⟩
    rw [hok rfl, List.filterMap_nil]

/-- Whether a direct message can go anywhere, as far as the call answers. -/
theorem reachable_exec (cfg : Config) (w : World) {target : Str}
    (hd : target.startsWith roomPrefix = false) (me : Json) :
    (∃ e, (reachable cfg (SessionRegistry.get w (.str target)) target).exec w = (.error e, w)) ∨
      ∃ b, (reachable cfg (SessionRegistry.get w (.str target)) target).exec w = (.ok b, w) ∧
        (b = true ↔ Admitted cfg w me target) := by
  unfold reachable Admitted
  simp only [hd, Bool.false_eq_true, if_false]
  cases hget : SessionRegistry.get w (.str target) with
  | some t => exact .inr ⟨true, rfl, by simp⟩
  | none =>
    cases hm : cfg.messages with
    | false => exact .inr ⟨false, rfl, by simp⟩
    | true =>
      simp only [Option.isSome_none, Bool.false_eq_true, if_false, Bool.not_true, false_or, true_and]
      rw [RouterM.exec_call]
      by_cases henc : target.encodable = true
      · refine .inr ⟨w.accounts.any fun a => a.username == target, ?_, by simp⟩
        simp [exec, SqliteUsers.exists', Sql.str, henc, Bind.bind, Except.bind, Pure.pure, Except.pure]
      · refine .inl ⟨.unicodeEncodeError, ?_⟩
        simp [exec, SqliteUsers.exists', Sql.str, henc, Bind.bind, Except.bind]

/-- **a message to a user** too, -/
theorem toUser_ended (cfg : Config) (w : World) (s : Sid) (me : Json) (f : Frame) {target : Str}
    (ht : f.target = .str target) (hd : target.startsWith roomPrefix = false) :
    Ended cfg w me f target ((toUser cfg s me target (outgoing me f)).exec w) := by
  unfold toUser
  rw [RouterM.exec_bind, RouterM.exec_call]
  simp only [exec]
  rw [RouterM.exec_bind]
  -- nothing has been written up to the record; a refusal or an exception leaves the world alone
  rcases reachable_exec cfg w hd me with ⟨e, hrun⟩ | ⟨b, hrun, hadm⟩
  · rw [hrun]
    exact .raised (.refl w)
  rw [hrun]
  cases b with
  | false =>
    obtain ⟨w', hrun', ha⟩ := refuse_aside w s "USER_OFFLINE" (fstr [target, " is not online"])
    simp only [Bool.not_false, if_true]
    rw [RouterM.exec_bind, hrun']
    exact .inl ⟨ha, by simp, fun _ h => by simp [h] at hadm⟩
  | true =>
    have hadm := hadm.mp rfl
    simp only [Bool.not_true, Bool.false_eq_true, if_false]
    cases hc : directConversation (orEmpty me) (.str target) with
    | error e => exact .raised (.refl w)
    | ok conversation =>
      simp only [lift, pure_bind']
      rw [RouterM.exec_bind]
      rcases record_filed cfg w me f ht hd hc with ⟨e, hrun⟩ | ⟨w₁, hrun, hf⟩
      · rw [hrun]
        exact .raised (.refl w)
      rw [hrun]
      have hcopies : copies w me f target = [] ++ [(target, outgoing me f)] := by
        simp [copies, hd]
      -- A contact that raises leaves a filed message and no copy settled.
      have hnone : ∀ {w₂ : World} {e : PyErr}, Aside w₁ w₂ →
          Ended cfg w me f target (.error e, w₂) := fun {w₂ e} ha =>
        .inr ⟨hadm, by simp, [], _, hcopies, by simp, settled_nil w₂ (queueId cfg f.id) ▸
          Dealt.of_settled hf ha (by simp)⟩
      dsimp only
      rw [RouterM.exec_bind]
      have hn₁ := noteContact_aside cfg w₁ (orEmpty me) (.str target)
      generalize (noteContact cfg (orEmpty me) (.str target)).exec w₁ = r₁ at hn₁
      obtain ⟨e | u, w₂⟩ := r₁
      · exact hnone hn₁
      dsimp only at hn₁ ⊢
      rw [RouterM.exec_bind]
      have hn₂ := noteContact_aside cfg w₂ (.str target) (orEmpty me)
      generalize (noteContact cfg (.str target) (orEmpty me)).exec w₂ = r₂ at hn₂
      obtain ⟨e | u, w₃⟩ := r₂
      · exact hnone (hn₁.trans hn₂)
      dsimp only at hn₂ ⊢
      have ha := hn₁.trans hn₂
      -- noting the contacts does not move the registry, so the recipient is who was found
      have hget : SessionRegistry.get w (.str target) = SessionRegistry.get w₃ (.str target) := by
        unfold SessionRegistry.get
        rw [ha.online, hf.aside.2.1]
      have hm : cfg.messages = true ∨ (SessionRegistry.get w₃ (.str target)).isSome = true := by
        rw [← hget]
        simp only [Admitted, hd, Bool.false_eq_true, if_false] at hadm
        exact hadm.elim .inr fun h => .inl h.1
      rw [RouterM.exec_bind, hget]
      rcases handOver_exec cfg w₃ target (outgoing me f) hm with hrun | ⟨e, hrun⟩
      · rw [hrun]
        refine .inr ⟨hadm, by simp, [(target, outgoing me f)], [], hcopies, fun _ => rfl, ?_⟩
        exact Dealt.of_settled hf ha (by simp [outgoing])
      · rw [hrun]
        exact hnone ha

/-- and so whatever it is sent to. -/
theorem deliver_ended (cfg : Config) (w : World) (s : Sid) (me : Json) (f : Frame) {target : Str}
    (ht : f.target = .str target) :
    Ended cfg w me f target ((deliver cfg s me target f).exec w) := by
  unfold deliver
  cases hd : target.startsWith roomPrefix with
  | true => exact toRoom_ended cfg w s me f ht hd
  | false => exact toUser_ended cfg w s me f ht hd

/-- A MSG that goes somewhere: its target is a name, and one that admits it. -/
def Accepts (cfg : Config) (w : World) (me : Json) (f : Frame) (target : Str) : Prop :=
  f.target = .str target ∧ target ≠ [] ∧ Admitted cfg w me target

/-- **What handling a MSG does.** Either nothing, and then it was not
acceptable or the handler raised; or it is filed and a first part of its copies
settled, all of them if the handler returns. -/
theorem message_effect (cfg : Config) (w : World) (s : Sid) (me : Json) (f : Frame) :
    (Aside w ((message cfg s me f).exec w).2 ∧
        (((message cfg s me f).exec w).1 = .ok () → ∀ target, ¬ Accepts cfg w me f target)) ∨
      ∃ target, Accepts cfg w me f target ∧ ∃ done rest,
        copies w me f target = done ++ rest ∧
          (((message cfg s me f).exec w).1 = .ok () → rest = []) ∧
          Dealt cfg w me f done ((message cfg s me f).exec w).2 := by
  unfold message
  by_cases htr : f.target.truthy = true
  case neg =>
    obtain ⟨w', hrun, ha⟩ := refuse_aside w s "NO_RECIPIENT" "MSG needs a 'to'"
    have htr : f.target.truthy = false := by simpa using htr
    simp only [htr, Bool.not_false, if_true]
    rw [hrun]
    refine .inl ⟨ha, fun _ target h => ?_⟩
    rw [h.1] at htr
    exact h.2.1 (by simpa [Json.truthy] using htr)
  simp only [htr, Bool.not_true, Bool.false_eq_true, if_false]
  split
  next target ht =>
    have hne : target ≠ [] := by
      rintro rfl
      simp [ht, Json.truthy] at htr
    rw [RouterM.exec_bind]
    have hend := deliver_ended cfg w s me f ht
    generalize (deliver cfg s me target f).exec w = r at hend
    rcases hend with ⟨ha, hnot, hadm⟩ | ⟨hadm, hnot, done, rest, hcopies, hrest, hdealt⟩
    · obtain ⟨e | b, w'⟩ := r
      · exact .inl ⟨ha, by simp⟩
      · cases b with
        | true => exact (hnot rfl).elim
        | false =>
          refine .inl ⟨ha, fun _ target' h => ?_⟩
          obtain rfl : target = target' := Json.str.inj (ht.symm.trans h.1)
          exact hadm rfl h.2.2
    · refine .inr ⟨target, ⟨ht, hne, hadm⟩, done, rest, hcopies, ?_⟩
      obtain ⟨e | b, w'⟩ := r
      · exact ⟨by simp, hdealt⟩
      · cases b with
        | false => exact (hnot rfl).elim
        | true =>
          refine ⟨fun _ => hrest rfl, hdealt.filed, hdealt.pending, ?_⟩
          exact (msgs_push (by simp)).trans hdealt.msgs
  next hns =>
    exact .inl ⟨.refl w, fun h => by simp at h⟩

end Ciphertext
