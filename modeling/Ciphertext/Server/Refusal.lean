import Ciphertext.Prog.Protocol
import Ciphertext.Server.Interleaving

/-!
# A refused request changes nothing

A handler refuses by sending the asker an ERROR. Every refusal but those of INVITE
comes before the handler's first write and before its first other frame: from
`clean` a handler either refuses, after which it only reads and answers the asker,
or goes to work, after which it sends the asker no ERROR any more. `prudent` is
that order of calls, and `handle_prudent` walks the handlers.

`Step.refused` is the result, for every world and every frame but INVITE: where the
answer is an ERROR, the tables, the registry and the names are as they were and nobody
else has been sent anything. INVITE is left out because its report of missing names is
an ERROR that comes after the work.
-/

namespace Ciphertext

open Prog MessageRouter

/-- How far a request has come. -/
inductive Stage where
  | clean
  | refused
  | working
deriving DecidableEq

theorem Stage.clean_ne : clean ≠ .refused := by
  intro h
  cases h

theorem Stage.working_ne : working ≠ .refused := by
  intro h
  cases h

/-- An ERROR to the asker. -/
def refusal (s : Sid) (t : Sid) (g : Frame) : Prop := t = s ∧ g.type = .error

instance (s t : Sid) (g : Frame) : Decidable (refusal s t g) := inferInstanceAs (Decidable (_ ∧ _))

/-- What a call makes of a clean request. A claim of a name that is taken writes
nothing. -/
def Stage.after (s : Sid) : Event routerSig → Stage
  | ⟨.send t g, _⟩ => if refusal s t g then .refused else .working
  | ⟨.usersRegister _ _ _, false⟩ => .clean
  | ⟨.roomsCreate _, false⟩ => .clean
  | ⟨.sessionsLogin _ _, false⟩ => .clean
  | ⟨o, _⟩ => if o.quiet then .clean else .working

/-- Refuse first or not at all. -/
def prudent (s : Sid) : Protocol routerSig Unit Stage where
  may _
    | .clean, _ => True
    | .refused, .send t _ => t = s
    | .refused, o => o.quiet = true
    | .working, .send t g => ¬ refusal s t g
    | .working, _ => True
  answers _ _ _ _ := True
  raises _ := True
  next
    | .clean, e => Stage.after s e
    | φ, _ => φ

/-- A handler that keeps to this order, whatever it returns or raises. -/
abbrev Prudent {α : Type} (s : Sid) (φ : Stage) (p : RouterM α) (Q : α → Stage → Prop) : Prop :=
  Follows (prudent s) () Q (fun _ => True) φ p

section Walk

variable {s : Sid} {φ : Stage} {α β : Type} {R : β → Stage → Prop}

/-- A call that only reads, made before anything else, and the rest. -/
theorem prudent_read {o : Op} {f : Op.Ret o → RouterM β} (ho : o.quiet = true)
    (hf : ∀ r, Prudent s .clean (f r) R) :
    Prudent s .clean ((Prog.call (S := routerSig) o .pure : RouterM (Op.Ret o)) >>= f) R := by
  refine follows_call (P := prudent s) (S := routerSig) trivial (fun _ => trivial) fun r _ => ?_
  have hclean : (prudent s).next .clean ⟨o, r⟩ = .clean := by
    show Stage.after s ⟨o, r⟩ = .clean
    cases o <;> simp [Op.quiet] at ho <;> rfl
  rw [hclean]
  exact hf r

/-- A handler that will not refuse any more. -/
theorem prudent_of_uses {F : Footprint} {p : RouterM α} (hp : p.Uses F.allows)
    (hF : ∀ t g, F.sends t g → ¬ refusal s t g) (hw : ∀ o, F.writes o → Field.sent ∉ o.writesTo)
    (hφ : φ ≠ .refused) : Prudent s φ p fun _ φ' => φ' ≠ .refused := by
  have hsend : ∀ o, F.allows o → ∀ t g, o = .send t g → ¬ refusal s t g := by
    intro o ho t g he
    rcases ho with hq | hwr | ⟨t', g', rfl, hg⟩
    · rw [he] at hq
      cases hq
    · exact absurd (by rw [he]; exact List.mem_singleton.mpr rfl) (hw o hwr)
    · cases he
      exact hF t g hg
  induction p generalizing φ with
  | pure a => exact hφ
  | raise e => trivial
  | call o k ih =>
    have ho := hsend o hp.1
    refine ⟨?_, fun _ => trivial, fun r _ => ih r (hp.2 r) ?_⟩
    · cases φ with
      | clean => trivial
      | refused => exact absurd rfl hφ
      | working =>
        cases o with
        | send t g => exact ho t g rfl
        | _ => trivial
    · cases φ with
      | clean =>
        show Stage.after s ⟨o, r⟩ ≠ .refused
        unfold Stage.after
        split
        next t g _ he =>
          cases he
          rw [if_neg (ho t g rfl)]
          exact Stage.working_ne
        · exact Stage.clean_ne
        · exact Stage.clean_ne
        · exact Stage.clean_ne
        · split
          · exact Stage.clean_ne
          · exact Stage.working_ne
      | refused => exact absurd rfl hφ
      | working => exact hφ

/-- A refusal comes first, and last. -/
theorem refuse_prudent (code message : Str) :
    Prudent s .clean (refuse s code message) fun _ φ' => φ' = .refused := by
  refine prudent_read rfl fun id => prudent_read rfl fun ts => ?_
  refine follows_call (P := prudent s) (S := routerSig) (φ := .clean) (X := fun _ => True) (f := .pure)
    trivial (fun _ => trivial) fun _ _ => ?_
  exact if_pos ⟨rfl, rfl⟩

/-- The handler ends with the refusal. -/
theorem refuse_ends (code message : Str) :
    Prudent s .clean (refuse s code message) fun _ _ => True :=
  (refuse_prudent code message).mono fun _ _ _ => trivial

/-- What a handler may do once it will not refuse any more. -/
def workPrint (s : Sid) : Footprint where
  sends t g := ¬ refusal s t g
  writes o := Field.sent ∉ o.writesTo

/-- A frame of another type is no ERROR. -/
theorem not_refusal {t : Sid} {g : Frame} {k : MessageType} (hg : g.type = k)
    (hk : (k == .error) = false) : ¬ refusal s t g := by
  intro hr
  rw [← hg, hr.2] at hk
  cases hk

theorem work_ends {p : RouterM α} (hp : p.Uses (workPrint s).allows) (hφ : φ ≠ .refused) :
    Prudent s φ p fun _ _ => True :=
  (prudent_of_uses hp (fun _ _ h => h) (fun _ h => h) hφ).mono fun _ _ _ => trivial

/-- One write, and then work. -/
theorem work_write {o : Op} {f : Op.Ret o → RouterM β} (ho : Field.sent ∉ o.writesTo)
    (hf : ∀ r, (f r).Uses (workPrint s).allows) (hφ : φ ≠ .refused) :
    Prudent s φ ((Prog.call (S := routerSig) o .pure : RouterM (Op.Ret o)) >>= f) fun _ _ => True :=
  work_ends (Footprint.write_bind ho hf) hφ

theorem sendContacts_work (cfg : Config) (t : Sid) : (sendContacts cfg t).Uses (workPrint s).allows :=
  sendContacts_uses cfg fun _ hg => not_refusal hg rfl

theorem broadcastRoomState_work (room : Str) : (broadcastRoomState room).Uses (workPrint s).allows :=
  broadcastRoomState_uses room fun _ _ hg => not_refusal hg rfl

/-- A request is refused over its room before anything else is done. -/
theorem roomName_prudent {f : Frame} {k : Option Str → RouterM Unit} (hn : k none = .pure ())
    (hk : ∀ room, Prudent s .clean (k (some room)) fun _ _ => True) :
    Prudent s .clean (roomName s f >>= k) fun _ _ => True := by
  unfold roomName
  split
  · rw [bind_assoc']
    refine (refuse_prudent ..).bind fun _ φ' _ => ?_
    show Prudent s φ' (k none) _
    rw [hn]
    trivial
  next room _ => exact hk room

/-! ## The handlers -/

theorem register_prudent (f : Frame) : Prudent s .clean (register s f) fun _ _ => True := by
  unfold register
  dsimp only
  split
  · exact refuse_ends ..
  · split
    · split
      · exact refuse_ends ..
      · refine follows_call (P := prudent s) (S := routerSig) (φ := .clean) (X := fun _ => True)
          trivial (fun _ => trivial) fun created _ => ?_
        cases created with
        | false => exact refuse_ends ..
        | true =>
          exact work_ends (Footprint.send_frame fun _ _ => not_refusal rfl rfl) Stage.working_ne
    · trivial

theorem addContact_prudent (cfg : Config) (me : Json) (f : Frame) :
    Prudent s .clean (addContact cfg s me f) fun _ _ => True := by
  unfold addContact
  split
  · exact refuse_ends ..
  · split
    · split
      · exact refuse_ends ..
      · split
        · exact refuse_ends ..
        · split
          · exact refuse_ends ..
          · refine prudent_read rfl fun known => ?_
            split
            · exact refuse_ends ..
            · exact work_write (by simp [Op.writesTo]) (fun _ => sendContacts_work cfg s) Stage.clean_ne
    · exact refuse_ends ..

theorem removeContact_prudent (cfg : Config) (me : Json) (f : Frame) :
    Prudent s .clean (removeContact cfg s me f) fun _ _ => True := by
  refine work_ends (Footprint.weaken (removeContact_uses cfg s me f) (fun t g hg => ?_) fun o ho => ?_)
    Stage.clean_ne
  · have hg : g.type = .contacts := List.mem_singleton.mp hg.2
    exact not_refusal hg rfl
  · obtain ⟨a, b, rfl⟩ := ho
    show Field.sent ∉ Op.writesTo _
    simp [Op.writesTo]

variable [Runtime]

theorem getKey_prudent (f : Frame) : Prudent s .clean (getKey s f) fun _ _ => True := by
  unfold getKey
  dsimp only
  split
  · exact refuse_ends ..
  · refine prudent_read rfl fun pubkey => ?_
    cases pubkey with
    | none => exact refuse_ends ..
    | some pubkey => exact work_ends (Footprint.send_frame fun _ _ => not_refusal rfl rfl) Stage.clean_ne

theorem welcome_work (cfg : Config) (u : Json) : (welcome cfg s u).Uses (workPrint s).allows := by
  unfold welcome
  refine Footprint.write_bind (by simp [workPrint, Op.writesTo]) fun _ => ?_
  refine Uses.bind (greet_uses cfg s u fun _ hg => not_refusal hg rfl) fun _ => ?_
  refine Uses.bind (announce_uses fun _ _ hg => not_refusal hg rfl) fun _ => ?_
  exact flushPending_uses cfg s u (fun _ hg => not_refusal hg rfl)
    (by simp [workPrint, Op.writesTo])

/-- A LOGIN is refused before the name is claimed, or when the claim fails. -/
theorem login_prudent (cfg : Config) (f : Frame) : Prudent s .clean (login cfg s f) fun _ _ => True := by
  unfold login
  refine prudent_read rfl fun current => ?_
  cases current with
  | some u => exact refuse_ends ..
  | none =>
    dsimp only
    split
    · exact refuse_ends ..
    · refine prudent_read rfl fun verified => ?_
      cases verified with
      | false => exact refuse_ends ..
      | true =>
        refine follows_call (P := prudent s) (S := routerSig) (φ := .clean) (X := fun _ => True)
          trivial (fun _ => trivial) fun claimed _ => ?_
        cases claimed with
        | false => exact refuse_ends ..
        | true => exact work_ends (welcome_work cfg (f.get "user")) Stage.working_ne

omit [Runtime] in
theorem join_prudent (me : Json) (f : Frame) : Prudent s .clean (join s me f) fun _ _ => True := by
  unfold join
  refine roomName_prudent rfl fun room => prudent_read rfl fun known => ?_
  split
  · exact refuse_ends ..
  · exact work_write (by simp [Op.writesTo]) (fun _ => broadcastRoomState_work room) Stage.clean_ne

omit [Runtime] in
theorem leave_prudent (me : Json) (f : Frame) : Prudent s .clean (leave s me f) fun _ _ => True := by
  unfold leave
  refine roomName_prudent rfl fun room => prudent_read rfl fun members => ?_
  split
  · exact refuse_ends ..
  · refine work_write (by simp [Op.writesTo]) (fun _ => ?_) Stage.clean_ne
    refine (broadcastRoomState_work room).bind fun _ => ?_
    unfold roomState
    exact Footprint.quiet_bind rfl fun _ => Footprint.send_frame fun _ _ => not_refusal rfl rfl

/-- A room is refused when it exists, and `rooms.create` has then written nothing. -/
theorem createRoom_prudent (me : Json) (f : Frame) :
    Prudent s .clean (createRoom s me f) fun _ _ => True := by
  unfold createRoom
  refine roomName_prudent rfl fun room => ?_
  refine follows_call (P := prudent s) (S := routerSig) (φ := .clean) (X := fun _ => True)
    trivial (fun _ => trivial) fun created _ => ?_
  cases created with
  | false => exact refuse_ends ..
  | true =>
    refine work_write (by simp [Op.writesTo]) (fun _ => ?_) Stage.working_ne
    have hadd := addMembers_uses (F := workPrint s) room (f.get "members")
      fun _ => by simp [workPrint, Op.writesTo]
    exact hadd.bind fun _ => broadcastRoomState_work room

omit [Runtime] in
theorem typing_prudent (me : Json) (f : Frame) : Prudent s .clean (typing me f) fun _ _ => True := by
  refine work_ends (Footprint.weaken (typing_uses me f) (fun t g hg => ?_) fun o ho => ho.elim) Stage.clean_ne
  exact not_refusal hg.1 rfl

theorem receipt_prudent (cfg : Config) (me : Json) (f : Frame) :
    Prudent s .clean (receipt cfg s me f) fun _ _ => True := by
  unfold receipt
  dsimp only
  split
  · trivial
  · split
    · exact refuse_ends ..
    · refine prudent_read rfl fun now => work_write (by simp [Op.writesTo]) (fun sender => ?_) Stage.clean_ne
      cases sender with
      | none => trivial
      | some sender =>
        dsimp only
        split
        · trivial
        · refine Footprint.quiet_bind rfl fun recipient => ?_
          cases recipient with
          | none => trivial
          | some t => exact Footprint.send_frame fun _ _ => not_refusal rfl rfl

/-- A conversation is refused before the page is built. -/
theorem history_prudent (cfg : Config) (me : Json) (f : Frame) :
    Prudent s .clean (history cfg s me f) fun _ _ => True := by
  unfold history
  split
  · exact refuse_ends ..
  · split
    · exact refuse_ends ..
    · refine Follows.bind (Q := fun r φ' => r.isSome = true → φ' = .clean) ?_ fun r φ' hr => ?_
      · unfold conversationOf
        split
        · refine prudent_read rfl fun members => ?_
          split
          · exact (refuse_prudent ..).bind fun _ _ _ h => Bool.noConfusion h
          · exact fun _ => rfl
        · cases directConversation (orEmpty me) (.str (asked f).pyStr) with
          | ok c => exact fun _ => rfl
          | error e => trivial
      · cases r with
        | none => trivial
        | some conversation =>
          rw [hr rfl]
          refine work_ends ?_ Stage.clean_ne
          refine Uses.bind Footprint.lift fun before => Uses.bind Footprint.lift fun limit => ?_
          refine Footprint.quiet_bind rfl fun rows => Uses.bind Footprint.lift fun messages => ?_
          exact Footprint.send_frame fun _ _ => not_refusal rfl rfl

omit [Runtime] in
/-- Storing a message, noting the contact and handing it over: no refusal any more. -/
theorem settle_work (cfg : Config) (me : Json) (f : Frame) {target : Str} (recipient : Option Sid) :
    (do
      let conversation ← lift (directConversation (orEmpty me) (.str target))
      record cfg (outgoing me f) conversation target
      noteContact cfg (orEmpty me) (.str target)
      noteContact cfg (.str target) (orEmpty me)
      handOver recipient target (outgoing me f)
      return true : RouterM Bool).Uses (workPrint s).allows := by
  have hnote : ∀ a b, (noteContact cfg a b).Uses (workPrint s).allows := fun a b =>
    noteContact_uses cfg (fun _ _ hg => not_refusal hg rfl) (by simp [workPrint, Op.writesTo])
  refine Uses.bind Footprint.lift fun conversation => Uses.bind ?_ fun _ => ?_
  · unfold record
    split
    · trivial
    · exact ⟨Footprint.write (by simp [workPrint, Op.writesTo]), fun _ => trivial⟩
  · refine (hnote _ _).bind fun _ => (hnote _ _).bind fun _ => Uses.bind ?_ fun _ => trivial
    exact handOver_uses recipient target _ (fun _ => not_refusal rfl rfl)
      (by simp [workPrint, Op.writesTo])

omit [Runtime] in
theorem toUser_prudent (cfg : Config) (me : Json) (target : Str) (f : Frame) :
    Prudent s .clean (toUser cfg s me target (outgoing me f))
      fun ok φ' => ok = true → φ' ≠ .refused := by
  unfold toUser
  refine prudent_read rfl fun recipient => ?_
  refine Follows.bind (Q := fun _ φ' => φ' = .clean) ?_ fun ok φ' hφ' => ?_
  · unfold reachable
    split
    · exact rfl
    · split
      · exact rfl
      · exact prudent_read (f := .pure) rfl fun _ => rfl
  · rw [hφ']
    cases ok with
    | false => exact (refuse_prudent ..).bind fun _ _ _ h => Bool.noConfusion h
    | true =>
      exact (prudent_of_uses (settle_work cfg me f recipient) (fun _ _ h => h) (fun _ h => h)
        Stage.clean_ne).mono fun _ _ h _ => h

/-- The fan-out refuses nobody. -/
theorem fanOut_work (cfg : Config) (me : Json) (f : Frame) (room : Str) (members : List Str)
    (env : Option Dict) : (do
      recordRoom cfg (outgoing me f) room env
      Prog.forEach (Str.sorted members) (deliverTo cfg me (outgoing me f) env)
      return true : RouterM Bool).Uses (workPrint s).allows := by
  have hwrite : ∀ o, Field.sent ∉ o.writesTo → (workPrint s).allows o := fun _ h => Footprint.write h
  refine Uses.bind ?_ fun _ => Uses.bind (uses_forEach fun name _ => ?_) fun _ => trivial
  · unfold recordRoom recordEnvelopes record
    split
    · split
      · trivial
      · exact ⟨hwrite _ (by simp [Op.writesTo]), fun _ => trivial⟩
    · split
      · trivial
      · exact ⟨hwrite _ (by simp [Op.writesTo]), fun _ => trivial⟩
  · unfold deliverTo
    split
    · trivial
    · refine Footprint.quiet_bind rfl fun member => ?_
      split
      · trivial
      next addressed haddressed =>
        split
        · trivial
        · refine handOver_uses member name addressed ?_ (by simp [workPrint, Op.writesTo])
          intro _
          exact not_refusal (addressedTo_relayed haddressed).type rfl

theorem toRoom_prudent (cfg : Config) (me : Json) (room : Str) (f : Frame) (env : Option Dict) :
    Prudent s .clean (toRoom cfg s me room (outgoing me f) env)
      fun ok φ' => ok = true → φ' ≠ .refused := by
  unfold toRoom
  refine prudent_read rfl fun known => ?_
  split
  · exact (refuse_prudent ..).bind fun _ _ _ h => Bool.noConfusion h
  · refine prudent_read rfl fun members => ?_
    split
    · exact (refuse_prudent ..).bind fun _ _ _ h => Bool.noConfusion h
    · exact (prudent_of_uses (fanOut_work cfg me f room members env) (fun _ _ h => h) (fun _ h => h)
        Stage.clean_ne).mono fun _ _ h _ => h

theorem message_prudent (cfg : Config) (me : Json) (f : Frame) :
    Prudent s .clean (message cfg s me f) fun _ _ => True := by
  unfold message
  split
  · exact refuse_ends ..
  · split
    next target _ =>
      refine Follows.bind (Q := fun ok φ' => ok = true → φ' ≠ .refused) ?_ fun ok φ' hφ' => ?_
      · unfold deliver
        split
        · exact toRoom_prudent ..
        · exact toUser_prudent cfg me target f
      · cases ok with
        | false => trivial
        | true => exact work_ends (Footprint.send_frame fun _ _ => not_refusal rfl rfl) (hφ' rfl)
    · trivial

/-- **Every request but INVITE.** -/
theorem handle_prudent (cfg : Config) {f : Frame} (hf : f.type ≠ .invite) :
    Prudent s .clean (handle cfg s f) fun _ _ => True := by
  unfold handle
  split
  · exact work_ends (Footprint.send_frame fun _ _ => not_refusal rfl rfl) Stage.clean_ne
  · exact register_prudent f
  · exact login_prudent cfg f
  · refine prudent_read rfl fun current => ?_
    cases current with
    | none => exact refuse_ends ..
    | some me =>
      show Prudent s .clean (dispatch cfg s me f) _
      unfold dispatch
      split
      · exact message_prudent cfg me f
      · exact createRoom_prudent me f
      · exact join_prudent me f
      · exact leave_prudent me f
      next h => exact absurd h hf
      · exact addContact_prudent cfg me f
      · exact removeContact_prudent cfg me f
      · exact typing_prudent me f
      · exact receipt_prudent cfg me f
      · exact history_prudent cfg me f
      · exact getKey_prudent f
      · exact refuse_ends ..

end Walk

/-! ## What a refused request leaves -/

/-- The tables, the registry and the names of the connections. -/
structure Untouched (w w' : World) : Prop where
  accounts : w'.accounts = w.accounts
  rooms : w'.rooms = w.rooms
  memberships : w'.memberships = w.memberships
  messages : w'.messages = w.messages
  pending : w'.pending = w.pending
  contacts : w'.contacts = w.contacts
  online : w'.online = w.online
  username : w'.username = w.username

theorem Untouched.refl (w : World) : Untouched w w := ⟨rfl, rfl, rfl, rfl, rfl, rfl, rfl, rfl⟩

/-- The world at each stage of a request. -/
def AtStage (s : Sid) (w : World) (w' : World) : Stage → Prop
  | .clean => Untouched w w' ∧ w'.sent = w.sent
  | .refused => Untouched w w' ∧ ∃ ds, w'.sent = w.sent ++ ds ∧ ∀ d ∈ ds, d.session = s
  | .working => ∃ ds, w'.sent = w.sent ++ ds ∧ ∀ d ∈ ds, ¬ refusal s d.session d.frame

section Calls

variable [Runtime] {s : Sid} {w w' w'' : World}

/-- A call that writes nothing. -/
theorem Untouched.quiet {o : Op} (ho : o.quiet = true) :
    Untouched w (exec o w).2 ∧ (exec o w).2.sent = w.sent := by
  have hx : ∀ x : Field, x.Same w (exec o w).2 := by
    intro x
    refine exec_same o w ?_
    cases o <;> simp [Op.quiet] at ho <;> simp [Op.writesTo]
  exact ⟨⟨hx .accounts, hx .rooms, hx .memberships, hx .messages, hx .pending, hx .contacts, hx .online,
    hx .username⟩, hx .sent⟩

omit [Runtime] in
theorem Untouched.trans (h : Untouched w w') (h' : Untouched w' w'') : Untouched w w'' :=
  ⟨h'.accounts.trans h.accounts, h'.rooms.trans h.rooms, h'.memberships.trans h.memberships,
    h'.messages.trans h.messages, h'.pending.trans h.pending, h'.contacts.trans h.contacts,
    h'.online.trans h.online, h'.username.trans h.username⟩

omit [Runtime] in
/-- Putting a frame in an outbox touches nothing else. -/
theorem Untouched.push (h : Untouched w w') (t : Sid) (g : Frame) : Untouched w (w'.push t g) :=
  ⟨h.accounts, h.rooms, h.memberships, h.messages, h.pending, h.contacts, h.online, h.username⟩

/-- A call other than a send leaves the outboxes alone. -/
theorem exec_sent {o : Op} (ho : ∀ t g, o ≠ .send t g) : (exec o w).2.sent = w.sent := by
  refine exec_same o w (x := .sent) ?_
  cases o with
  | send t g => exact absurd rfl (ho t g)
  | _ => simp [Op.writesTo]

/-- The first call that is not a read: a refusal, a claim, or the beginning of the work. -/
theorem AtStage.start (h : AtStage s w w' .clean) {o : Op} {r : Op.Ret o}
    (he : exec o w' = (.ok r, w'')) : AtStage s w w'' (Stage.after s ⟨o, r⟩) := by
  obtain ⟨hun, hsent⟩ := h
  have hwork : (∀ t g, o ≠ .send t g) → AtStage s w w'' .working := by
    intro ho
    have hsame := exec_sent (w := w') ho
    rw [he] at hsame
    exact ⟨[], by rw [List.append_nil, hsame, hsent], nofun⟩
  have hother : (∀ t g, o ≠ .send t g) → AtStage s w w'' (if o.quiet then .clean else .working) := by
    intro ho
    by_cases hq : o.quiet = true
    · rw [if_pos hq]
      have hquiet := Untouched.quiet (w := w') hq
      rw [he] at hquiet
      exact ⟨hun.trans hquiet.1, hquiet.2.trans hsent⟩
    · rw [if_neg hq]
      exact hwork ho
  -- Only these four calls come to anything but a read or the beginning of the work.
  cases o with
  | send t g =>
    cases he
    show AtStage s w (w'.push t g) (if refusal s t g then .refused else .working)
    have hpush : (w'.push t g).sent = w.sent ++ [⟨t, w'.username t, g⟩] := by
      rw [← hsent]
      rfl
    split
    next hr =>
      refine ⟨hun.push t g, [⟨t, w'.username t, g⟩], hpush, fun d hd => ?_⟩
      rw [List.mem_singleton.mp hd]
      exact hr.1
    next hr =>
      refine ⟨[⟨t, w'.username t, g⟩], hpush, fun d hd => ?_⟩
      rw [List.mem_singleton.mp hd]
      exact hr
  -- a name that is taken is a refusal still to be sent: nothing has been written
  | usersRegister u p k =>
    cases r with
    | true =>
      apply hwork
      intro t g he
      cases he
    | false =>
      have hc : commit w' (SqliteUsers.register w' u p k) = (.ok false, w'') := he
      cases hr : SqliteUsers.register w' u p k with
      | error e => rw [hr] at hc; cases (Prod.mk.inj hc).1
      | ok q =>
        rw [hr] at hc
        obtain ⟨b, w₁⟩ := q
        cases hc
        obtain ⟨-, ⟨-, rfl, -⟩ | ⟨hb, -⟩⟩ := SqliteUsers.register_cases hr
        · exact ⟨hun, hsent⟩
        · cases hb
  | roomsCreate room =>
    cases r with
    | true =>
      apply hwork
      intro t g he
      cases he
    | false =>
      have hc : commit w' (SqliteRooms.create w' room) = (.ok false, w'') := he
      cases hr : SqliteRooms.create w' room with
      | error e => rw [hr] at hc; cases (Prod.mk.inj hc).1
      | ok q =>
        rw [hr] at hc
        obtain ⟨b, w₁⟩ := q
        cases hc
        obtain ⟨-, ⟨-, rfl, -⟩ | ⟨hb, -⟩⟩ := SqliteRooms.create_cases hr
        · exact ⟨hun, hsent⟩
        · cases hb
  | sessionsLogin u t =>
    cases r with
    | true =>
      apply hwork
      intro t g he
      cases he
    | false =>
      have hc : ((Except.ok (SessionRegistry.login w' u t).1 : Except PyErr Bool),
        (SessionRegistry.login w' u t).2) = (.ok false, w'') := he
      unfold SessionRegistry.login at hc
      split at hc
      · cases hc
        exact ⟨hun, hsent⟩
      · cases (Prod.mk.inj hc).1
  | _ =>
    apply hother
    intro t g he
    cases he

/-- **One call.** -/
theorem AtStage.call {φ : Stage} (h : AtStage s w w' φ) {o : Op} {r : Op.Ret o} (hmay : (prudent s).may () φ o)
    (he : exec o w' = (.ok r, w'')) : AtStage s w w'' ((prudent s).next φ ⟨o, r⟩) := by
  cases φ with
  | clean => exact h.start he
  | refused =>
    obtain ⟨hun, ds, hds, hall⟩ := h
    show AtStage s w w'' .refused
    by_cases ho : ∃ t g, o = .send t g
    · obtain ⟨t, g, rfl⟩ := ho
      have ht : t = s := hmay
      cases he
      refine ⟨hun.push t g, ds ++ [⟨t, w'.username t, g⟩], ?_, fun d hd => ?_⟩
      · rw [← List.append_assoc, ← hds]
        rfl
      · rcases List.mem_append.mp hd with hd | hd
        · exact hall d hd
        · rw [List.mem_singleton.mp hd]
          exact ht
    · have hq : o.quiet = true := by
        cases o with
        | send t g => exact absurd ⟨t, g, rfl⟩ ho
        | _ => exact hmay
      have hquiet := Untouched.quiet (w := w') hq
      rw [he] at hquiet
      exact ⟨hun.trans hquiet.1, ds, hquiet.2.trans hds, hall⟩
  | working =>
    obtain ⟨ds, hds, hall⟩ := h
    show AtStage s w w'' .working
    by_cases ho : ∃ t g, o = .send t g
    · obtain ⟨t, g, rfl⟩ := ho
      have ht : ¬ refusal s t g := hmay
      cases he
      refine ⟨ds ++ [⟨t, w'.username t, g⟩], ?_, fun d hd => ?_⟩
      · rw [← List.append_assoc, ← hds]
        rfl
      · rcases List.mem_append.mp hd with hd | hd
        · exact hall d hd
        · rw [List.mem_singleton.mp hd]
          exact ht
    · have hsame := exec_sent (w := w') fun t g he => ho ⟨t, g, he⟩
      rw [he] at hsame
      exact ⟨ds, hsame.trans hds, hall⟩

end Calls

section Steps

variable [Runtime]

/-- How a request that is not an INVITE ends. -/
theorem Step.atStage (cfg : Config) (w : World) {s : Sid} {f : Frame} (hf : f.type ≠ .invite) :
    ∃ φ, AtStage s w (Step.of cfg w (.frame s f)).after φ := by
  have hstart : AtStage s w w .clean := ⟨.refl w, rfl⟩
  obtain ⟨φ, hφ, -⟩ := Follows.run (I := AtStage s w)
    (fun w' _ o _ _ h hmay (he : exec o w' = _) => ⟨trivial, h.call hmay he⟩)
    (fun w' _ o _ _ h _ (he : exec o w' = _) => ⟨exec_error he ▸ h, trivial⟩) (handle_prudent (s := s) cfg hf) hstart
  exact ⟨φ, hφ⟩

/-- **A refused request changes nothing**, and nobody else hears of it. -/
theorem Step.refused (cfg : Config) (w : World) {s : Sid} {f : Frame} (hf : f.type ≠ .invite)
    (herror : ∃ d ∈ (Step.of cfg w (.frame s f)).out, d.session = s ∧ d.frame.type = .error) :
    Untouched w (Step.of cfg w (.frame s f)).after ∧
      ∀ d ∈ (Step.of cfg w (.frame s f)).out, d.session = s := by
  obtain ⟨d, hd, hrefusal⟩ := herror
  obtain ⟨φ, hφ⟩ := Step.atStage cfg w (s := s) hf
  have hout : ∀ ds, (Step.of cfg w (.frame s f)).after.sent = w.sent ++ ds →
      (Step.of cfg w (.frame s f)).out = ds := by
    intro ds hds
    unfold Step.out
    rw [hds]
    exact List.drop_left ..
  cases φ with
  | clean =>
    -- nothing was sent at all
    have hnone := hout [] (by rw [List.append_nil]; exact hφ.2)
    rw [hnone] at hd
    cases hd
  | refused =>
    obtain ⟨hun, ds, hds, hall⟩ := hφ
    refine ⟨hun, fun d' hd' => ?_⟩
    rw [hout ds hds] at hd'
    exact hall d' hd'
  | working =>
    obtain ⟨ds, hds, hall⟩ := hφ
    rw [hout ds hds] at hd
    exact absurd hrefusal (hall d hd)

end Steps

section Concrete

open Sample

attribute [local instance] sampleRuntime

/-- A message to nobody. -/
theorem unknown_refused :
    Untouched (fresh.after chatServer [register "a", login 0 "a"])
      (Step.of chatServer (fresh.after chatServer [register "a", login 0 "a"]) (msg 0 "x" "i")).after ∧
      ∀ d ∈ (Step.of chatServer (fresh.after chatServer [register "a", login 0 "a"]) (msg 0 "x" "i")).out,
        d.session = 0 :=
  Step.refused chatServer _ (by decide) (by decide +kernel)

end Concrete

end Ciphertext
