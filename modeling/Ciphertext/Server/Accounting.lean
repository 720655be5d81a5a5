import Ciphertext.Server.Interleaving

/-!
# Every accepted message is accounted for

A MSG is accepted when its handler returns after sending the ACK. The handler
looks each recipient up once, and then either sends the copy to the connection
it found or queues the recipient. Other handlers run between the lookup and
that, so a recipient may come or go meanwhile; the message is still in exactly
one place: handed to the connection, in the queue, or taken out of the queue by
one `flush`.

`deals` reads the sends of copies and the queueings off a handler's own calls.
There is one for each recipient, in order. The ledger of the queue entry says
the rest, because with distinct ids nobody else queues under this one.
-/

namespace Ciphertext

open Prog MessageRouter

/-! ## What a handler did about its recipients -/

/-- What became of one copy in the handler: sent to a connection, or its
addressee queued under the id. -/
inductive Deal where
  | live (s : Sid) (g : Frame)
  | queue (name : Str) (id : Json)
deriving DecidableEq

def Op.deal : Op → Option Deal
  | .send s g => if g.type = .msg then some (.live s g) else none
  | .messagesQueueFor name id => some (.queue name id)
  | _ => none

/-- The copies sent and the recipients queued, in order. -/
def deals (es : List (Event routerSig)) : List Deal := es.filterMap fun e => e.op.deal

@[simp] theorem deals_nil : deals [] = [] := rfl

theorem deals_append (es es' : List (Event routerSig)) : deals (es ++ es') = deals es ++ deals es' :=
  List.filterMap_append

/-- What a handler does besides dealing with the recipients. -/
def asidePrint : Footprint where
  sends _ g := g.type ≠ .msg
  writes o := o.deal = none

theorem deal_of_allows {o : Op} (ho : asidePrint.allows o) : o.deal = none := by
  rcases ho with hq | hw | ⟨s, g, rfl, hg⟩
  · cases o <;> first | rfl | cases hq
  · exact hw
  · exact if_neg hg

theorem deals_of_uses {α : Type} {p : RouterM α} (hp : p.Uses asidePrint.allows)
    {es : List (Event routerSig)} {q : RouterM α} (h : Path p es q) : deals es = [] :=
  List.filterMap_eq_nil_iff.mpr fun e he => deal_of_allows (h.uses hp e he)

/-- The call sends an ACK. -/
def Op.acks : Op → Bool
  | .send _ g => g.type = .ack
  | _ => false

/-- The handler acknowledged the message. -/
def acked (es : List (Event routerSig)) : Bool := es.any fun e => e.op.acks

theorem acked_cons (e : Event routerSig) (es : List (Event routerSig)) :
    acked (e :: es) = (e.op.acks || acked es) := rfl

/-- Who the handler was working for. -/
def asker (es : List (Event routerSig)) : Json :=
  (es.findSome? fun
    | ⟨.getUsername _, r⟩ => r
    | _ => none).getD .null

/-- The members of the room as the handler read them. -/
def snapshot (es : List (Event routerSig)) : List Str :=
  (es.findSome? fun
    | ⟨.roomsMembers _, names⟩ => some names
    | _ => none).getD []

section Server

variable [Runtime]

/-- Who an accepted MSG is for, each with the frame meant for them: the direct
target; or the other members the handler read, those with an envelope if the
message has a map of them. -/
def recipients (f : Frame) (es : List (Event routerSig)) : List (Str × Frame) :=
  match f.target with
  | .str target =>
    if target.startsWith roomPrefix then
      (Str.sorted (snapshot es)).filterMap
        (copyFor (asker es) (outgoing (asker es) f) (f.get "env").asDict)
    else [(target, outgoing (asker es) f)]
  | _ => []

/-- The deal follows the lookup of the recipient. -/
def settle (found : Option Sid) (name : Str) (g : Frame) : Deal :=
  match found with
  | some s => .live s g
  | none => .queue name g.id

/-- The handler looked the recipient up and settled the copy by what it found. -/
def Settles (es : List (Event routerSig)) (r : Str × Frame) (d : Deal) : Prop :=
  ∃ found, (⟨.sessionsGet (.str r.1), found⟩ : Event routerSig) ∈ es ∧ d = settle found r.1 r.2

omit [Runtime] in
theorem Settles.mono {es es' : List (Event routerSig)} (h : ∀ e ∈ es, e ∈ es') {r : Str × Frame}
    {d : Deal} (hs : Settles es r d) : Settles es' r d := by
  obtain ⟨found, hmem, hd⟩ := hs
  exact ⟨found, h _ hmem, hd⟩

/-- The call stores a message under this id. -/
def Files (id : Json) (e : Event routerSig) : Prop :=
  ∃ conversation sender recipient body nonce ts,
    e.op = .messagesRecord id conversation sender recipient body nonce ts

/-! ## The calls of one handler -/

section Handler

variable {es : List (Event routerSig)} {cfg : Config} {s : Sid} {me : Json} {f g : Frame}

omit [Runtime] in
theorem handOver_deals {found : Option Sid} {name : Str} (hg : g.type = .msg)
    (h : Yields (handOver found name g) es ()) : deals es = [settle found name g] := by
  cases found with
  | none =>
    rw [(yields_call_pure (S := routerSig)).mp h]
    rfl
  | some t =>
    rw [(yields_call_pure (S := routerSig)).mp h]
    simp [deals, Op.deal, hg, settle]

theorem deliverTo_deals (hm : cfg.messages = true) {env : Option Dict} {name : Str}
    (h : Yields (deliverTo cfg me (outgoing me f) env name) es ()) :
    List.Forall₂ (Settles es) (copyFor me (outgoing me f) env name).toList (deals es) := by
  unfold deliverTo at h
  unfold copyFor
  by_cases hself : me = .str name
  · rw [if_pos hself] at h ⊢
    obtain ⟨rfl, -⟩ := yields_pure.mp h
    exact .nil
  rw [if_neg hself] at h ⊢
  obtain ⟨found, es₁, es₂, rfl, hget, hrest⟩ := yields_bind.mp h
  obtain rfl := (yields_call_pure (S := routerSig)).mp hget
  cases ha : addressedTo (outgoing me f) env name with
  | none =>
    rw [ha] at hrest
    obtain ⟨rfl, -⟩ := yields_pure.mp hrest
    exact .nil
  | some addressed =>
    rw [ha] at hrest
    simp only [hm, Bool.not_true, Bool.and_false, Bool.false_eq_true, if_false] at hrest
    rw [deals_append, handOver_deals (addressedTo_relayed ha).type hrest]
    exact .cons ⟨found, by simp, rfl⟩ .nil

/-- One deal for each member with a copy, in order. -/
theorem forEach_deliverTo_deals (hm : cfg.messages = true) {env : Option Dict} {names : List Str}
    (h : Yields (forEach names (deliverTo cfg me (outgoing me f) env)) es ()) :
    List.Forall₂ (Settles es) (names.filterMap (copyFor me (outgoing me f) env)) (deals es) := by
  induction names generalizing es with
  | nil =>
    obtain ⟨rfl, -⟩ := yields_pure.mp h
    exact .nil
  | cons name names ih =>
    obtain ⟨_, es₁, es₂, rfl, hhead, htail⟩ := yields_bind.mp h
    have hhead : List.Forall₂ (Settles (es₁ ++ es₂))
        (copyFor me (outgoing me f) env name).toList (deals es₁) :=
      (deliverTo_deals hm hhead).imp fun r d hs => hs.mono fun e he => List.mem_append_left _ he
    have htail : List.Forall₂ (Settles (es₁ ++ es₂))
        (names.filterMap (copyFor me (outgoing me f) env)) (deals es₂) :=
      (ih htail).imp fun r d hs => hs.mono fun e he => List.mem_append_right _ he
    rw [deals_append, ← List.singleton_append, List.filterMap_append]
    refine List.rel_append ?_ htail
    cases hc : copyFor me (outgoing me f) env name <;> simpa [List.filterMap, hc] using hhead

omit [Runtime] in
theorem noteContact_deals {owner other : Json} (h : Yields (noteContact cfg owner other) es ()) :
    deals es = [] :=
  deals_of_uses (noteContact_uses cfg (fun _ g hg => by simp [asidePrint, hg]) rfl) h

omit [Runtime] in
theorem record_deals {conversation recipient : Str}
    (h : Yields (record cfg g conversation recipient) es ()) : deals es = [] := by
  refine deals_of_uses ?_ h
  unfold record
  split
  · trivial
  · exact ⟨Footprint.write rfl, fun _ => trivial⟩

theorem recordRoom_deals {room : Str} {env : Option Dict}
    (h : Yields (recordRoom cfg g room env) es ()) : deals es = [] := by
  cases env with
  | none => exact record_deals h
  | some env =>
    refine deals_of_uses ?_ h
    show (recordEnvelopes cfg g room env).Uses _
    unfold recordEnvelopes
    split
    · trivial
    · exact ⟨Footprint.write rfl, fun _ => trivial⟩

omit [Runtime] in
theorem record_files (hm : cfg.messages = true) {conversation recipient : Str}
    (h : Yields (record cfg g conversation recipient) es ()) : ∃ e ∈ es, Files g.id e := by
  simp only [record, hm, Bool.not_true, Bool.false_eq_true, if_false] at h
  rw [(yields_call_pure (S := routerSig)).mp h]
  exact ⟨_, List.mem_singleton.mpr rfl, _, _, _, _, _, _, rfl⟩

theorem recordRoom_files (hm : cfg.messages = true) {room : Str} {env : Option Dict}
    (h : Yields (recordRoom cfg g room env) es ()) : ∃ e ∈ es, Files g.id e := by
  cases env with
  | none => exact record_files hm h
  | some env =>
    simp only [recordRoom, recordEnvelopes, hm, Bool.not_true, Bool.false_eq_true, if_false] at h
    rw [(yields_call_pure (S := routerSig)).mp h]
    exact ⟨_, List.mem_singleton.mpr rfl, _, _, _, _, _, _, rfl⟩

omit [Runtime] in
/-- A refusal answers `false`. -/
theorem refuse_not_true {code message : Str} :
    ¬ Yields (refuse s code message >>= fun _ => (.pure false : RouterM Bool)) es true := by
  intro h
  obtain ⟨_, es₁, es₂, rfl, -, hfalse⟩ := yields_bind.mp h
  obtain ⟨-, hfalse⟩ := yields_pure.mp hfalse
  cases hfalse

omit [Runtime] in
/-- A direct message that was not refused. -/
theorem toUser_deals (hm : cfg.messages = true) {target : Str}
    (h : Yields (toUser cfg s me target (outgoing me f)) es true) :
    (∃ e ∈ es, Files f.id e) ∧
      List.Forall₂ (Settles es) [(target, outgoing me f)] (deals es) := by
  unfold toUser at h
  obtain ⟨found, rest, rfl, hrest⟩ := (yields_call_bind (S := routerSig)).mp h
  obtain ⟨ok, es₁, es₂, rfl, hreach, hok⟩ := yields_bind.mp hrest
  have hasks : deals es₁ = [] := by
    refine deals_of_uses ?_ hreach
    unfold reachable
    split
    · trivial
    · split
      · trivial
      · exact ⟨.inl rfl, fun _ => trivial⟩
  cases ok with
  | false => exact (refuse_not_true hok).elim
  | true =>
    obtain ⟨conversation, es₃, es₄, rfl, hconv, h₄⟩ := yields_bind.mp hok
    have hlift : deals es₃ = [] := deals_of_uses Footprint.lift hconv
    obtain ⟨_, es₅, es₆, rfl, hrec, h₆⟩ := yields_bind.mp h₄
    obtain ⟨_, es₇, es₈, rfl, hnote, h₈⟩ := yields_bind.mp h₆
    obtain ⟨_, es₉, es₁₀, rfl, hnote', h₁₀⟩ := yields_bind.mp h₈
    obtain ⟨_, es₁₁, es₁₂, rfl, hhand, hend⟩ := yields_bind.mp h₁₀
    obtain ⟨rfl, -⟩ := yields_pure.mp hend
    have hdeals : deals (⟨.sessionsGet (.str target), found⟩ ::
        (es₁ ++ (es₃ ++ (es₅ ++ (es₇ ++ (es₉ ++ (es₁₁ ++ []))))))) =
        [settle found target (outgoing me f)] := by
      rw [← List.singleton_append]
      simp only [deals_append, hasks, hlift, record_deals hrec, noteContact_deals hnote,
        noteContact_deals hnote', handOver_deals rfl hhand, List.append_nil, List.nil_append]
      rfl
    rw [hdeals]
    obtain ⟨e, he, hfiles⟩ := record_files hm hrec
    exact ⟨⟨e, by simp [he], hfiles⟩, .cons ⟨found, List.mem_cons_self .., rfl⟩ .nil⟩

/-- A room message that was not refused: the membership is read once. -/
theorem toRoom_deals (hm : cfg.messages = true) {room : Str} {env : Option Dict}
    (h : Yields (toRoom cfg s me room (outgoing me f) env) es true) :
    ∃ known members rest, es = ⟨.roomsExists room, known⟩ :: ⟨.roomsMembers room, members⟩ :: rest ∧
      (∃ e ∈ es, Files f.id e) ∧ List.Forall₂ (Settles es)
        ((Str.sorted members).filterMap (copyFor me (outgoing me f) env)) (deals es) := by
  unfold toRoom at h
  obtain ⟨known, rest, rfl, hknown⟩ := (yields_call_bind (S := routerSig)).mp h
  cases known with
  | false => exact (refuse_not_true hknown).elim
  | true =>
    obtain ⟨members, rest, rfl, hmem⟩ := (yields_call_bind (S := routerSig)).mp hknown
    refine ⟨true, members, rest, rfl, ?_⟩
    split at hmem
    · exact (refuse_not_true hmem).elim
    · obtain ⟨_, es₁, es₂, rfl, hrec, h₂⟩ := yields_bind.mp hmem
      obtain ⟨_, es₃, es₄, rfl, hfan, hend⟩ := yields_bind.mp h₂
      obtain ⟨rfl, -⟩ := yields_pure.mp hend
      have hdeals : deals (⟨.roomsExists room, true⟩ :: ⟨.roomsMembers room, members⟩ ::
          (es₁ ++ (es₃ ++ []))) = deals es₃ := by
        show deals (es₁ ++ (es₃ ++ [])) = deals es₃
        rw [deals_append, recordRoom_deals hrec, List.nil_append, List.append_nil]
      rw [hdeals]
      obtain ⟨e, he, hfiles⟩ := recordRoom_files hm hrec
      refine ⟨⟨e, by simp [he], hfiles⟩, ?_⟩
      refine (forEach_deliverTo_deals hm hfan).imp fun r d hs => hs.mono fun e he => ?_
      simp [he]

omit [Runtime] in
theorem not_acked_of_uses {α : Type} {p q : RouterM α} {F : Footprint} (hp : p.Uses F.allows)
    (hs : ∀ t g, F.sends t g → g.type ≠ .ack) (hw : ∀ t g, ¬ F.writes (.send t g))
    (h : Path p es q) : acked es = false := by
  refine List.any_eq_false.mpr fun e he => ?_
  have hallow := h.uses hp e he
  cases ho : e.op with
  | send t g =>
    rw [ho] at hallow
    rcases hallow with hq | hq | ⟨t', g', hop, hg⟩
    · cases hq
    · exact (hw t g hq).elim
    · obtain ⟨rfl, rfl⟩ := Op.send.inj hop
      simpa [Op.acks] using hs t g hg
  | _ => simp [Op.acks]

omit [Runtime] in
theorem refuse_not_acked {code message : Str} (h : Yields (refuse s code message) es ()) :
    acked es = false := by
  have huses : (refuse s code message).Uses
      (Footprint.allows ⟨fun _ g => g.type = .error, fun _ => False⟩) :=
    Footprint.refuse fun _ hg => hg
  refine not_acked_of_uses huses (fun t g hg => ?_) (fun _ _ hw => hw) h
  rw [show g.type = .error from hg]
  simp

/-- Delivering never acknowledges. -/
theorem deliver_not_acked {target : Str} {ok : Bool} (ht : f.target = .str target)
    (h : Yields (deliver cfg s me target f) es ok) : acked es = false := by
  refine not_acked_of_uses (deliver_uses cfg s me f ht) ?_ ?_ h
  · intro t g hg
    rcases hg with ⟨-, hg⟩ | hg | hg
    · simp [List.mem_singleton.mp hg]
    · simp [hg]
    · simp [hg.type]
  · intro t g hw
    rcases hw with hw | ⟨name, hw⟩ | ⟨a, b, hw⟩ <;> cases hw

/-- The deals of a delivery that was not refused, in a handler that knows its
asker as `me`. -/
theorem deliver_deals (hm : cfg.messages = true) {target : Str} (ht : f.target = .str target)
    (h : Yields (deliver cfg s me target f) es true) (rest : List (Event routerSig)) :
    (∃ e ∈ es, Files f.id e) ∧ List.Forall₂ (Settles es)
      (recipients f (⟨.getUsername s, some me⟩ :: (es ++ rest))) (deals es) := by
  unfold deliver at h
  simp only [recipients, ht]
  split at h
  next hroom =>
    obtain ⟨known, members, tail, rfl, hdeals⟩ := toRoom_deals hm h
    rw [if_pos hroom]
    exact hdeals
  next hroom =>
    rw [if_neg hroom]
    exact toUser_deals hm h

/-- **One deal for each recipient of an accepted MSG**, in order, from the
handler's own calls. -/
theorem handle_deals (hm : cfg.messages = true) (hf : f.type = .msg)
    (h : Yields (handle cfg s f) es ()) (ha : acked es = true) :
    (∃ e ∈ es, Files f.id e) ∧ List.Forall₂ (Settles es) (recipients f es) (deals es) := by
  simp only [handle, hf] at h
  obtain ⟨me, rest, rfl, hme⟩ := (yields_call_bind (S := routerSig)).mp h
  cases me with
  | none =>
    rw [acked_cons, refuse_not_acked hme] at ha
    cases ha
  | some me =>
    simp only [dispatch, hf] at hme
    unfold message at hme
    split at hme
    · rw [acked_cons, refuse_not_acked hme] at ha
      cases ha
    · split at hme
      next target ht =>
        obtain ⟨ok, es₁, es₂, rfl, hdel, hack⟩ := yields_bind.mp hme
        cases ok with
        | false =>
          -- Refused: the calls of `deliver` are all there is.
          obtain ⟨rfl, -⟩ := yields_pure.mp hack
          rw [acked_cons, List.append_nil, deliver_not_acked ht hdel] at ha
          cases ha
        | true =>
          have hrest : deals es₂ = [] :=
            deals_of_uses (Footprint.send_frame fun _ _ => by simp [asidePrint]) hack
          have hdeals : deals (⟨.getUsername s, some me⟩ :: (es₁ ++ es₂)) = deals es₁ := by
            show deals (es₁ ++ es₂) = deals es₁
            rw [deals_append, hrest, List.append_nil]
          rw [hdeals]
          obtain ⟨⟨e, he, hfiles⟩, hsettles⟩ := deliver_deals hm ht hdel es₂
          refine ⟨⟨e, by simp [he], hfiles⟩, hsettles.imp fun r d hs => hs.mono fun e he => ?_⟩
          simp [he]
      next => exact (not_yields_raise hme).elim

end Handler

/-! ## The recipients are different people -/

theorem recipients_nodup {f : Frame} {es : List (Event routerSig)} (h : (snapshot es).Nodup) :
    ((recipients f es).map Prod.fst).Nodup := by
  unfold recipients
  split
  · split
    · exact filterMap_copyFor_nodup (Str.sorted_nodup h)
    · exact List.nodup_singleton _
  · exact List.nodup_nil

theorem recipients_id {f : Frame} {es : List (Event routerSig)} {r : Str × Frame}
    (h : r ∈ recipients f es) : r.2.id = f.id := by
  unfold recipients at h
  split at h
  · split at h
    · obtain ⟨name, -, hc⟩ := List.mem_filterMap.mp h
      exact (copyFor_msg hc).2.id
    · rw [List.mem_singleton.mp h]
      rfl
  · cases h

theorem exec_roomsMembers {w w' : World} {room : Str} {names : List Str}
    (h : exec (.roomsMembers room) w = (.ok names, w')) :
    room.encodable = true ∧ names = memberNames w room := by
  have hread : SqliteRooms.members w room = .ok names := (Prod.mk.inj h).1
  unfold SqliteRooms.members at hread
  cases hs : Sql.str room with
  | error e =>
    rw [hs] at hread
    cases hread
  | ok room' =>
    rw [hs] at hread
    obtain ⟨he, rfl⟩ := Sql.str_ok.mp hs
    exact ⟨he, (Except.ok.inj hread).symm⟩

/-- The members a handler reads are different from one another. -/
theorem Interleaving.snapshot_nodup {cfg : Config} {w₀ : World} {c : ServerPool}
    (h : Interleaving cfg w₀ c) (h₀ : w₀.memberships.Nodup) (t : Nat) :
    (snapshot (c.own t)).Nodup := by
  have hlog : ∀ t room names, (t, ⟨.roomsMembers room, names⟩) ∈ c.log → names.Nodup := by
    refine Pool.Reach.inv
      (I := fun _ log => ∀ t room names, (t, ⟨.roomsMembers room, names⟩) ∈ log → names.Nodup)
      (by simp) ?_ ?_ h
    · intro c t l o k r w' hc _ hex hI t' room names hmem
      rcases List.mem_append.mp hmem with hmem | hmem
      · exact hI t' room names hmem
      · obtain ⟨-, heq⟩ := Prod.mk.inj (List.mem_singleton.mp hmem)
        cases heq
        have hnd := Interleaving.call_inv hc (fun w => w.memberships.Nodup) h₀
          exec_memberships_nodup
        rw [(exec_roomsMembers hex).2]
        exact memberNames_nodup hnd room
    · intro o e w w' log _ hI
      exact hI
  unfold snapshot
  cases hfind : (c.own t).findSome? _ with
  | none => exact List.nodup_nil
  | some names =>
    obtain ⟨e, he, hsome⟩ := List.exists_of_findSome?_eq_some hfind
    obtain ⟨⟨t', e'⟩, hmem, rfl⟩ := List.mem_map.mp he
    obtain ⟨o, r⟩ := e'
    cases o with
    | roomsMembers room =>
      obtain rfl := Option.some.inj hsome
      exact hlog t' room r (List.mem_filter.mp hmem).1
    | _ => cases hsome

/-! ## Counting -/

section Counting

variable {q : Str → Deal → Bool} {P : Str × Frame → Deal → Prop} {rs : List (Str × Frame)}
  {ds : List Deal}

omit [Runtime] in
theorem countP_deals_zero (h : List.Forall₂ P rs ds)
    (hq : ∀ r d, P r d → ∀ n, q n d = true → n = r.1) {n : Str} (hn : n ∉ rs.map Prod.fst) :
    ds.countP (q n) = 0 := by
  induction h with
  | nil => rfl
  | @cons r d rs ds hhead htail ih =>
    rw [List.map_cons, List.mem_cons, not_or] at hn
    have hd : ¬ q n d = true := fun hqd => hn.1 (hq r d hhead n hqd)
    rw [List.countP_cons_of_neg hd]
    exact ih hn.2

omit [Runtime] in
/-- Among the deals for different people, those that queue one of them are that
person's own deal, if it queues. -/
theorem countP_deals (h : List.Forall₂ P rs ds) (hnd : (rs.map Prod.fst).Nodup)
    (hq : ∀ r d, P r d → ∀ n, q n d = true → n = r.1) :
    List.Forall₂ (fun r d => P r d ∧ ds.countP (q r.1) = if q r.1 d then 1 else 0) rs ds := by
  induction h with
  | nil => exact .nil
  | @cons r d rs ds hhead htail ih =>
    obtain ⟨hnot, hnd⟩ := List.nodup_cons.mp hnd
    refine .cons ⟨hhead, ?_⟩ ?_
    · rw [List.countP_cons, countP_deals_zero htail hq hnot, Nat.zero_add]
    · have hother : ∀ r' ∈ rs, r'.1 ≠ r.1 := by
        intro r' hr' heq
        exact hnot (heq ▸ List.mem_map_of_mem hr')
      have hboth := (List.forall₂_and_left rs ds).mpr ⟨hother, ih hnd⟩
      refine hboth.imp fun r' d' hr' => ?_
      have hd : ¬ q r'.1 d = true := fun hqd => hr'.1 (hq r d hhead r'.1 hqd)
      rw [List.countP_cons_of_neg hd]
      exact hr'.2

end Counting

/-- The deal queues the recipient under the id. -/
def Deal.queues (key name : Str) : Deal → Bool
  | .live _ _ => false
  | .queue u id => u == name && Sql.key id == some key

/-- The queueings of one handler are among its deals. -/
theorem countP_own (es : List (Event routerSig)) (key name : Str) :
    es.countP (queues key name) = (deals es).countP (Deal.queues key name) := by
  unfold deals
  rw [List.countP_filterMap]
  refine List.countP_congr fun e _ => ?_
  cases ho : e.op with
  | send s g =>
    by_cases hg : g.type = .msg <;> simp [queues, ho, Op.deal, hg, Deal.queues]
  | _ => simp [queues, ho, Op.deal, Deal.queues]

/-! ## The whole server -/

/-- The id a MSG carries. -/
def Input.msgId : Input → Option Json
  | .frame _ f => if f.type = .msg then some f.id else none
  | .hangup _ => none

/-- No two MSGs have ids that are stored as the same text, and none is stored
as `NULL`. -/
structure DistinctIds (is : List Input) : Prop where
  apart : is.Pairwise fun i j =>
    ∀ a ∈ i.msgId, ∀ b ∈ j.msgId, ∀ key, Sql.key a = some key → Sql.key b ≠ some key
  kept : ∀ i ∈ is, ∀ a ∈ i.msgId, Sql.text a ≠ .ok none

theorem DistinctIds.eq {is : List Input} (h : DistinctIds is) {i j : Nat} {s s' : Sid} {f f' : Frame}
    (hi : is[i]? = some (.frame s f)) (hj : is[j]? = some (.frame s' f')) (hf : f.type = .msg)
    (hf' : f'.type = .msg) {key : Str} (hk : Sql.key f.id = some key)
    (hk' : Sql.key f'.id = some key) : i = j := by
  obtain ⟨hil, hi⟩ := List.getElem?_eq_some_iff.mp hi
  obtain ⟨hjl, hj⟩ := List.getElem?_eq_some_iff.mp hj
  have hpair := List.pairwise_iff_getElem.mp h.apart
  rcases Nat.lt_trichotomy i j with hlt | heq | hgt
  · have hne := hpair i j hil hjl hlt f.id (by simp [hi, Input.msgId, hf]) f'.id
      (by simp [hj, Input.msgId, hf']) key hk
    exact (hne hk').elim
  · exact heq
  · have hne := hpair j i hjl hil hgt f'.id (by simp [hj, Input.msgId, hf']) f.id
      (by simp [hi, Input.msgId, hf]) key hk'
    exact (hne hk).elim

/-- Where one recipient's copy is: sent to the connection the handler found, and
to nobody else; in the queue; or taken out of it by one `flush`. -/
def AccountedFor (c : ServerPool) (es : List (Event routerSig)) (id : Json) (r : Str × Frame)
    (d : Deal) : Prop :=
  ∃ key, Sql.key id = some key ∧
    ((∃ s, (⟨.sessionsGet (.str r.1), some s⟩ : Event routerSig) ∈ es ∧ d = .live s r.2 ∧
        (key, r.1) ∉ c.state.pending ∧ timesTaken c.log key r.1 = 0) ∨
      (d = .queue r.1 id ∧ (key, r.1) ∈ c.state.pending ∧ timesTaken c.log key r.1 = 0) ∨
      (d = .queue r.1 id ∧ (key, r.1) ∉ c.state.pending ∧ timesTaken c.log key r.1 = 1))

section Runs

variable {cfg : Config} {w₀ : World} {c : ServerPool} {t : Nat} {s : Sid} {f : Frame}

/-- With distinct ids, everybody queued under a message's id was queued by its
own handler. -/
theorem Interleaving.timesQueued_own (h : Interleaving cfg w₀ c)
    (hids : DistinctIds (c.threads.map Prod.fst)) {p : RouterM Unit}
    (ht : c.threads[t]? = some (.frame s f, p)) (hf : f.type = .msg) {key : Str}
    (hkey : Sql.key f.id = some key) (name : Str) :
    timesQueued c.log key name = (c.own t).countP (queues key name) := by
  have howner : ∀ e ∈ c.log, queues key name e.2 = true → e.1 = t := by
    intro e he hq
    obtain ⟨l, p', hl, hown⟩ := h.mem_own (t := e.1) (e := e.2) he
    obtain ⟨q', hpath, -⟩ := h.path hl
    -- Whoever queued handles a MSG whose id is stored as the same text.
    cases ho : e.2.op with
    | messagesQueueFor u id =>
      simp only [queues, ho, Bool.and_eq_true, beq_iff_eq] at hq
      obtain ⟨s', f', rfl, hf', rfl⟩ := queue_msg hpath hown ho
      have hi : (c.threads.map Prod.fst)[e.1]? = some (.frame s' f') := by
        rw [List.getElem?_map, hl]
        rfl
      have hj : (c.threads.map Prod.fst)[t]? = some (.frame s f) := by
        rw [List.getElem?_map, ht]
        rfl
      exact hids.eq hi hj hf' hf hq.2 hkey
    | _ => simp [queues, ho] at hq
  unfold timesQueued Pool.own
  rw [List.countP_map, List.countP_filter]
  refine List.countP_congr fun e he => ?_
  simp only [Function.comp, Bool.and_eq_true, decide_eq_true_eq]
  exact ⟨fun hq => ⟨hq, howner e he hq⟩, fun hq => hq.1⟩

/-- A message that was stored has an id that can be stored. -/
theorem Interleaving.files_binds (h : Interleaving cfg w₀ c) {id : Json} {e : Event routerSig}
    (he : e ∈ c.own t) (hfiles : Files id e) : Sql.Binds id := by
  have hlog : ∀ x ∈ c.log, Files id x.2 → Sql.Binds id := by
    refine Pool.Reach.inv (I := fun _ log => ∀ x ∈ log, Files id x.2 → Sql.Binds id) (by simp) ?_ ?_ h
    · intro c t l o k r w' _ _ hex hI x hmem hx
      rcases List.mem_append.mp hmem with hmem | hmem
      · exact hI x hmem hx
      · rw [List.mem_singleton.mp hmem] at hx
        obtain ⟨conversation, sender, recipient, body, nonce, ts, rfl⟩ := hx
        cases htext : Sql.text id with
        | ok text => exact ⟨text, htext⟩
        | error e => simp [exec, MessageStore.record, htext, commit', Bind.bind, Except.bind] at hex
    · intro o e w w' log _ hI
      exact hI
  obtain ⟨x, hx, rfl⟩ := List.mem_map.mp he
  exact hlog x (List.mem_filter.mp hx).1 hfiles

/-- **Every accepted MSG is accounted for, exactly once for each recipient.** In
every interleaving of the handlers of any number of sessions, once the handler
of an acknowledged MSG has returned, each recipient's copy was sent live to one
connection, or is in the queue, or was taken by exactly one `flush`, and only one
of these. -/
theorem Interleaving.accounted {uuid : Nat → Str} {clock : Nat → Int} {salt : Nat → List UInt8}
    (h : Interleaving cfg (World.start uuid clock salt) c) (hm : cfg.messages = true)
    (hids : DistinctIds (c.threads.map Prod.fst)) (ht : c.threads[t]? = some (.frame s f, .pure ()))
    (hf : f.type = .msg) (hack : acked (c.own t) = true) :
    ((recipients f (c.own t)).map Prod.fst).Nodup ∧
      List.Forall₂ (AccountedFor c (c.own t) f.id) (recipients f (c.own t)) (deals (c.own t)) := by
  have hnd := recipients_nodup (f := f) (h.snapshot_nodup List.nodup_nil t)
  obtain ⟨⟨e, he, hfiles⟩, hsettles⟩ := handle_deals hm hf (h.yields ht) hack
  -- The id is stored as some text.
  obtain ⟨text, htext⟩ := h.files_binds he hfiles
  obtain ⟨key, rfl⟩ : ∃ key, text = some key := by
    cases text with
    | some key => exact ⟨key, rfl⟩
    | none =>
      have hmem : (.frame s f) ∈ c.threads.map Prod.fst :=
        List.mem_map.mpr ⟨_, List.mem_of_getElem? ht, rfl⟩
      exact (hids.kept _ hmem f.id (by simp [Input.msgId, hf]) htext).elim
  have hkey := Sql.key_of_text htext
  refine ⟨hnd, ?_⟩
  have hcount := countP_deals (q := Deal.queues key) hsettles hnd fun r d hs n hq => by
    obtain ⟨found, -, rfl⟩ := hs
    cases found with
    | some s => cases hq
    | none => exact (by simpa [settle, Deal.queues] using hq : r.1 = n ∧ _).1.symm
  have hall := (List.forall₂_and_left _ _).mpr ⟨fun r hr => recipients_id hr, hcount⟩
  refine hall.imp fun r d hrd => ⟨key, hkey, ?_⟩
  obtain ⟨hid, ⟨found, hfound, rfl⟩, hc⟩ := hrd
  have hledger := h.ledger hm rfl key r.1
  have hqueued : timesQueued c.log key r.1 =
      if Deal.queues key r.1 (settle found r.1 r.2) then 1 else 0 := by
    rw [h.timesQueued_own hids ht hf hkey, countP_own, hc]
  cases found with
  | some s =>
    obtain ⟨hout, hzero⟩ := hledger.never hqueued
    exact .inl ⟨s, hfound, rfl, hout, hzero⟩
  | none =>
    have hdeal : settle none r.1 r.2 = .queue r.1 f.id := by
      rw [settle, hid]
    rw [hdeal] at hqueued ⊢
    have hone : timesQueued c.log key r.1 = 1 := by
      simpa [Deal.queues, hkey] using hqueued
    rcases hledger.once hone with ⟨hin, hzero⟩ | ⟨hout, hone⟩
    · exact .inr (.inl ⟨rfl, hin, hzero⟩)
    · exact .inr (.inr ⟨rfl, hout, hone⟩)

end Runs

end Server

namespace Sample

/-- `a` writes to `b` under an id of its choice. -/
def missive (id : Json) : Frame :=
  { type := .msg, target := .str "b", body := .str "hi", nonce := .str "n", id, ts := 5 }

/-- `a` writes to the absent `b`. -/
def writing (id : Json) : List Input :=
  [register "a", register "b", login 0 "a", .frame 0 (missive id)]

end Sample

section Concrete

open Sample

attribute [local instance] sampleRuntime

/-- The handlers of some inputs, each served before the next begins. -/
def served (is : List Input) : ServerPool :=
  is.foldl (Pool.serve Ciphertext.exec (Input.prog chatServer)) ⟨fresh, [], []⟩

theorem served_interleaving (is : List Input) : Interleaving chatServer fresh (served is) :=
  Pool.Reach.serveAll is

/-- The rows a call took out of the queue. -/
def flushedRows : Event routerSig → List Row
  | ⟨.messagesFlush _, rows⟩ => rows
  | _ => []

/-- **A message whose id is NaN is acknowledged and lost.** `from_dict` lets the
id through, and sqlite binds a NaN as `NULL`, which `queue_for` ignores. It is
the only MSG of the run, its recipient is `b`, and it was sent to nobody, is not
in the queue and was not taken out of it. -/
theorem nanId_lost :
    Frame.fromDict "q" 1 (.dict [("type", .str "MSG"), ("to", .str "b"), ("body", .str "hi"),
        ("n", .str "n"), ("id", .float .nan), ("ts", .int 5)]) = .ok (missive (.float .nan)) ∧
      ∃ c : ServerPool, Interleaving chatServer fresh c ∧
        (c.threads.map Prod.fst).filterMap Input.msgId = [.float .nan] ∧
        c.threads[3]? = some (.frame 0 (missive (.float .nan)), .pure ()) ∧
        acked (c.own 3) = true ∧
        (recipients (missive (.float .nan)) (c.own 3)).map Prod.fst = [Str.ofString "b"] ∧
        (∀ d ∈ deals (c.own 3), ∀ s g, d ≠ .live s g) ∧ c.state.pending = [] ∧
        c.log.flatMap (fun x => flushedRows x.2) = [] := by
  refine ⟨by decide +kernel, _, served_interleaving (writing (.float .nan)), ?_⟩
  have hdeals : deals ((served (writing (.float .nan))).own 3) =
      [.queue (Str.ofString "b") (.float .nan)] := by decide +kernel
  have hended : ((handle chatServer 0 (missive (.float .nan))).exec
      (served [register "a", register "b", login 0 "a"]).state).1 = .ok () := by decide +kernel
  have hthread : (served (writing (.float .nan))).threads[3]? =
      some (.frame 0 (missive (.float .nan)), .pure ()) :=
    congrArg (fun r => some (Input.frame 0 (missive (.float .nan)), Pool.ended r)) hended
  rw [hdeals]
  exact ⟨by rfl, hthread, by decide +kernel, by decide +kernel, by simp, by decide +kernel,
    by decide +kernel⟩

/-- The message is acknowledged while `b` is away, and the `flush` of `b`'s login
takes it. -/
theorem missive_accounted :
    let c := served (writing (.str "i") ++ [login 2 "b"])
    (recipients (missive (.str "i")) (c.own 3)).map Prod.fst = [Str.ofString "b"] ∧
      timesTaken c.log (Str.ofString "i") (Str.ofString "b") = 1 ∧
      List.Forall₂ (AccountedFor c (c.own 3) (.str "i")) (recipients (missive (.str "i")) (c.own 3))
        (deals (c.own 3)) := by
  intro c
  have hids : DistinctIds (c.threads.map Prod.fst) := by
    have hinputs : c.threads.map Prod.fst = writing (.str "i") ++ [login 2 "b"] := by rfl
    rw [hinputs]
    constructor
    · simp [writing, Sample.register, Sample.login, ask, Input.msgId]
    · have hi : Sql.text (.str "i") ≠ .ok none := by decide +kernel
      simpa [writing, Sample.register, Sample.login, ask, Input.msgId, missive] using hi
  have hended : ((handle chatServer 0 (missive (.str "i"))).exec
      (served [register "a", register "b", login 0 "a"]).state).1 = .ok () := by decide +kernel
  have hthread : c.threads[3]? = some (.frame 0 (missive (.str "i")), .pure ()) :=
    congrArg (fun r => some (Input.frame 0 (missive (.str "i")), Pool.ended r)) hended
  have hack : acked (c.own 3) = true := by decide +kernel
  refine ⟨by decide +kernel, by decide +kernel, ?_⟩
  exact (Interleaving.accounted (served_interleaving _) rfl hids hthread rfl hack).2

end Concrete

end Ciphertext
