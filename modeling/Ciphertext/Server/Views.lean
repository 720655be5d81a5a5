import Ciphertext.Server.Registry

/-!
# Two servers that look the same to one user

`Twin r w w'` says that nothing `r` will ever be sent depends on which of the
two worlds the server is in: they hold the same accounts, rooms, contacts and
connections, the same messages as far as `r` may read them, the same queue for
`r`, and what `r`'s connections were sent so far is the same. What the two may
differ in is the queues of other people, and the parts of the stored messages
that are for them.

Every handler, run on both sides, leads from twins to twins: `Sim (Twin r)`.
Frames the server makes up itself carry an id and a time of their own, and are
compared without them.
-/

namespace Ciphertext

open Prog MessageRouter

variable [Runtime]

/-! ## What one user sees -/

/-- `u` is looked up as the account `r`. -/
def isUser (r : Str) (u : Json) : Bool := (Sql.text u).toOption = some (some r)

/-- A connection that `r` may be behind: it is logged in as `r`, or not yet. -/
def visible (r : Str) : Option Json → Bool
  | none => true
  | some u => isUser r u

omit [Runtime] in
/-- A frame without the id and the time the server gave it. A MSG has those its
sender gave it. -/
def Frame.erased (f : Frame) : Frame :=
  if f.type = .msg then f else { f with id := .null, ts := 0 }

/-- The frames put in the outboxes of connections `r` may be behind. -/
def view (r : Str) (w : World) : List (Sid × Frame) :=
  (w.sent.filter fun d => visible r d.holder).map fun d => (d.session, d.frame.erased)

/-- What a stored message amounts to for one user. -/
structure Glimpse where
  id : Option Str
  conversation : Str
  sender : Str
  recipient : Str
  ts : Int
  delivered : Option Bool
  read : Option Bool
  content : Except PyErr (Option (Json × Json))
  unnamed : Except PyErr (Option (Json × Json))

/-- The message as `r` may read it. A connection can also be logged in as `r`
under a number that spells the name; it finds no envelopes at all. -/
def Row.glimpse (r : Str) (row : Row) : Glimpse where
  id := row.id
  conversation := row.conversation
  sender := row.sender
  recipient := row.recipient
  ts := row.ts
  delivered := row.deliveredAt.map (· ≠ 0)
  read := row.readAt.map (· ≠ 0)
  content := contentFor row (.str r)
  unnamed := contentFor row .null

/-- The part of the world that no stored message is in. -/
structure Core where
  accounts : List Account
  rooms : List Str
  memberships : List (Str × Str)
  contacts : List (Str × Str)
  online : List (Json × Sid)
  username : Sid → Option Json
  salt : Nat → List UInt8

omit [Runtime] in
/-- What the views of two worlds are compared on besides the messages. -/
def World.core (w : World) : Core :=
  ⟨w.accounts, w.rooms, w.memberships, w.contacts, w.online, w.username, w.salt⟩

/-- Two worlds that look the same to `r`. -/
structure Twin (r : Str) (w w' : World) : Prop where
  core : w.core = w'.core
  messages : w.messages.map (Row.glimpse r) = w'.messages.map (Row.glimpse r)
  pending : ∀ id, (id, r) ∈ w.pending ↔ (id, r) ∈ w'.pending
  view : view r w = view r w'
  clock : ∀ n, w.clock n ≠ 0
  clock' : ∀ n, w'.clock n ≠ 0

/-! ## Calls on the part that is the same -/

omit [Runtime] in
/-- The calls that neither read nor write what twins differ in. -/
def Op.isCore : Op → Bool
  | .newId | .nowMs | .send _ _ => false
  | .messagesRecord _ _ _ _ _ _ _ | .messagesQueueFor _ _ | .messagesMark _ _ _ => false
  | .messagesFlush _ | .messagesHistory _ _ _ => false
  | _ => true

/-- On equal parts such a call answers the same and leaves equal parts. -/
theorem exec_core {o : Op} (ho : o.isCore = true) {w w' : World} (h : w.core = w'.core) :
    (exec o w).1 = (exec o w').1 ∧ (exec o w).2.core = (exec o w').2.core := by
  obtain ⟨a, rs, ms, msgs, pend, cs, on, us, sent, uuid, uuids, clock, reads, salt⟩ := w
  obtain ⟨a', rs', ms', msgs', pend', cs', on', us', sent', uuid', uuids', clock', reads', salt'⟩ := w'
  simp only [World.core, Core.mk.injEq] at h
  obtain ⟨rfl, rfl, rfl, rfl, rfl, rfl, rfl⟩ := h
  cases o with
  | newId => cases ho
  | nowMs => cases ho
  | send s f => cases ho
  | messagesRecord id c sd rc b n t => cases ho
  | messagesQueueFor u id => cases ho
  | messagesMark id st n => cases ho
  | messagesFlush u => cases ho
  | messagesHistory c b l => cases ho
  | getUsername s => exact ⟨rfl, rfl⟩
  | setUsername s u => exact ⟨rfl, rfl⟩
  | sessionsLogin u s =>
    simp only [exec, SessionRegistry.login]
    split <;> exact ⟨rfl, rfl⟩
  | sessionsLogout u => exact ⟨rfl, rfl⟩
  | sessionsGet u => exact ⟨rfl, rfl⟩
  | sessionsUsernames => exact ⟨rfl, rfl⟩
  | sessionsOthers u => exact ⟨rfl, rfl⟩
  | usersVerify u p => exact ⟨rfl, rfl⟩
  | usersExists u => exact ⟨rfl, rfl⟩
  | usersPubkey u => exact ⟨rfl, rfl⟩
  | roomsMembers room => exact ⟨rfl, rfl⟩
  | roomsExists room => exact ⟨rfl, rfl⟩
  | roomsOf u => exact ⟨rfl, rfl⟩
  | contactsOf u => exact ⟨rfl, rfl⟩
  | usersRegister u p k =>
    simp only [exec, SqliteUsers.register, Bind.bind, Except.bind, Pure.pure, Except.pure]
    cases SqliteUsers.derive p (salt a.length) with
    | error e => exact ⟨rfl, rfl⟩
    | ok digest =>
      cases Sql.str u with
      | error e => exact ⟨rfl, rfl⟩
      | ok name =>
        dsimp only
        split
        · exact ⟨rfl, rfl⟩
        · cases Sql.text k <;> exact ⟨rfl, rfl⟩
  | roomsCreate room =>
    simp only [exec, SqliteRooms.create, Bind.bind, Except.bind, Pure.pure, Except.pure]
    cases Sql.str room with
    | error e => exact ⟨rfl, rfl⟩
    | ok name =>
      dsimp only
      split <;> exact ⟨rfl, rfl⟩
  | roomsJoin room u =>
    simp only [exec, SqliteRooms.join, Bind.bind, Except.bind, Pure.pure, Except.pure]
    cases Sql.str room with
    | error e => exact ⟨rfl, rfl⟩
    | ok name =>
      cases Sql.text u with
      | error e => exact ⟨rfl, rfl⟩
      | ok t =>
        cases t with
        | none => exact ⟨rfl, rfl⟩
        | some t =>
          dsimp only
          split <;> exact ⟨rfl, rfl⟩
  | roomsLeave room u =>
    simp only [exec, SqliteRooms.leave, Bind.bind, Except.bind, Pure.pure, Except.pure]
    cases Sql.str room with
    | error e => exact ⟨rfl, rfl⟩
    | ok name => cases Sql.text u <;> exact ⟨rfl, rfl⟩
  | contactsAdd owner contact =>
    simp only [exec, SqliteContacts.add, Bind.bind, Except.bind, Pure.pure, Except.pure]
    split
    · exact ⟨rfl, rfl⟩
    cases Sql.text owner with
    | error e => exact ⟨rfl, rfl⟩
    | ok t =>
      cases Sql.text contact with
      | error e => exact ⟨rfl, rfl⟩
      | ok t' =>
        cases t with
        | none => exact ⟨rfl, rfl⟩
        | some t =>
          cases t' with
          | none => exact ⟨rfl, rfl⟩
          | some t' =>
            dsimp only
            split <;> exact ⟨rfl, rfl⟩
  | contactsRemove owner contact =>
    simp only [exec, SqliteContacts.remove, Bind.bind, Except.bind, Pure.pure, Except.pure]
    cases Sql.text owner with
    | error e => exact ⟨rfl, rfl⟩
    | ok t => cases Sql.text contact <;> exact ⟨rfl, rfl⟩

/-- Both sides raise, or both return values related by `A`; twins stay twins. -/
abbrev Mirrors {α β : Type} (r : Str) (A : α → β → Prop) (p : RouterM α) (q : RouterM β) : Prop :=
  Sim exec (Twin r) (OkRel A) p q

section Rules

variable {α β γ δ : Type} {r : Str} {A : α → β → Prop} {B : γ → δ → Prop}

/-- Values that correspond. -/
theorem mirrors_pure {a : α} {b : β} (h : A a b) : Mirrors r A (.pure a) (.pure b) := sim_pure h

/-- Two sequences do part by part. -/
theorem Mirrors.bind {p : RouterM α} {q : RouterM β} {f : α → RouterM γ} {g : β → RouterM δ}
    (hp : Mirrors r A p q) (hf : ∀ a b, A a b → Mirrors r B (f a) (g b)) :
    Mirrors r B (p >>= f) (q >>= g) :=
  Sim.bind hp (fun _ _ => trivial) hf

/-- The two sides of a bind on the same answer. -/
theorem Mirrors.bind_eq {p q : RouterM α} {f : α → RouterM γ} {g : α → RouterM δ}
    (hp : Mirrors r (· = ·) p q) (hf : ∀ a, Mirrors r B (f a) (g a)) :
    Mirrors r B (p >>= f) (q >>= g) :=
  hp.bind fun a _ hab => hab ▸ hf a

/-- The rest of a handler, from the two worlds its first part led to. -/
theorem Mirrors.run_bind {p : RouterM α} {q : RouterM β} {f : α → RouterM γ} {g : β → RouterM δ}
    {w w' : World} {C : Except PyErr γ → Except PyErr δ → Prop} (hp : Mirrors r A p q)
    (h : Twin r w w') (hC : ∀ e e', C (.error e) (.error e'))
    (hf : ∀ a b w₁ w₁', p.exec w = (.ok a, w₁) → q.exec w' = (.ok b, w₁') → A a b →
      Twin r w₁ w₁' →
      Twin r ((f a).exec w₁).2 ((g b).exec w₁').2 ∧ C ((f a).exec w₁).1 ((g b).exec w₁').1) :
    Twin r ((p >>= f).exec w).2 ((q >>= g).exec w').2 ∧
      C ((p >>= f).exec w).1 ((q >>= g).exec w').1 := by
  have hsim := hp w w' h
  rw [RouterM.exec_bind, RouterM.exec_bind]
  rcases hx : p.exec w with ⟨e | a, w₁⟩ <;> rcases hy : q.exec w' with ⟨e' | b, w₁'⟩ <;>
    simp only [RouterM.exec] at hx hy <;> rw [hx, hy] at hsim
  · exact ⟨hsim.1, hC e e'⟩
  · exact hsim.2.elim
  · exact hsim.2.elim
  · exact hf a b w₁ w₁' hx hy hsim.2 hsim.1

/-- A loop over one list does pass by pass. -/
theorem mirrors_forEach {xs : List γ} {f g : γ → RouterM Unit}
    (h : ∀ x ∈ xs, Mirrors r (fun _ _ => True) (f x) (g x)) :
    Mirrors r (fun _ _ => True) (forEach xs f) (forEach xs g) := by
  induction xs with
  | nil => exact mirrors_pure trivial
  | cons x xs ih =>
    exact (h x (List.mem_cons_self ..)).bind fun _ _ _ =>
      ih fun y hy => h y (List.mem_cons_of_mem _ hy)

/-- What only computes computes the same. -/
theorem mirrors_lift {e : Except PyErr α} : Mirrors r (· = ·) (lift e) (lift e) := by
  cases e with
  | ok a => exact mirrors_pure rfl
  | error e => exact sim_raise e e

/-- A call on the common part answers the same in both. -/
theorem mirrors_core {o : Op} (ho : o.isCore = true) :
    Mirrors r (· = ·) (Prog.call (S := routerSig) o .pure) (Prog.call (S := routerSig) o .pure) := by
  intro w w' h
  rw [run_call_pure (S := routerSig), run_call_pure (S := routerSig)]
  obtain ⟨hans, hcore⟩ := exec_core ho h.core
  have hsame : ∀ (x : Field) w, x ∈ [Field.messages, .pending, .sent, .supplies] →
      x.Same w (exec o w).2 := by
    intro x w hx
    refine exec_same o w fun hw => ?_
    cases o <;> simp only [Op.isCore, Op.writesTo, Bool.false_eq_true, List.mem_cons,
      List.not_mem_nil, or_false] at ho hx hw <;> grind
  have hmsg : ∀ w, (exec o w).2.messages = w.messages := fun w => hsame .messages w (by simp)
  have hpend : ∀ w, (exec o w).2.pending = w.pending := fun w => hsame .pending w (by simp)
  have hsent : ∀ w, (exec o w).2.sent = w.sent := fun w => hsame .sent w (by simp)
  have hclock : ∀ w, (exec o w).2.clock = w.clock := by
    intro w
    have hsup : ((exec o w).2.uuid, (exec o w).2.clock, (exec o w).2.salt) =
        (w.uuid, w.clock, w.salt) := hsame .supplies w (by simp)
    simp only [Prod.mk.injEq] at hsup
    exact hsup.2.1
  refine ⟨⟨hcore, ?_, ?_, ?_, ?_, ?_⟩, ?_⟩
  · rw [hmsg, hmsg]
    exact h.messages
  · rw [hpend, hpend]
    exact h.pending
  · unfold view
    rw [hsent, hsent]
    exact h.view
  · rw [hclock]
    exact h.clock
  · rw [hclock]
    exact h.clock'
  · rw [hans]
    cases (exec o w').1 with
    | ok a => exact rfl
    | error e => trivial

/-- A handler whose calls are all on the part that is the same. -/
theorem mirrors_uses {p : RouterM α} (hp : p.Uses fun o : Op => o.isCore = true) :
    Mirrors r (· = ·) p p :=
  Uses.sim hp fun _ ho => mirrors_core ho

end Rules

/-! ## Frames -/

section Calls

variable {r : Str}

/-- The clocks may differ. -/
theorem mirrors_nowMs : Mirrors r (fun a b : Int => a ≠ 0 ∧ b ≠ 0) nowMs nowMs := by
  intro w w' h
  exact ⟨⟨h.core, h.messages, h.pending, h.view, h.clock, h.clock'⟩, h.clock _, h.clock' _⟩

/-- A frame that is no MSG is the same but for its id and its time. -/
theorem mirrors_frame {type : MessageType} (ht : type ≠ .msg) (sender target : Json) (data : Dict) :
    Mirrors r (fun g g' : Frame => g.erased = g'.erased) (frame type sender target data)
      (frame type sender target data) := by
  intro w w' h
  refine ⟨⟨h.core, h.messages, h.pending, h.view, h.clock, h.clock'⟩, ?_⟩
  show Frame.erased _ = Frame.erased _
  simp [Frame.erased, ht]

/-- Sending it keeps the views equal. -/
theorem mirrors_send {s : Sid} {g g' : Frame} (hg : g.erased = g'.erased) :
    Mirrors r (fun _ _ => True) (send s g) (send s g') := by
  intro w w' h
  have hu : w.username = w'.username := congrArg Core.username h.core
  refine ⟨⟨h.core, h.messages, h.pending, ?_, h.clock, h.clock'⟩, trivial⟩
  have hview := h.view
  show view r (w.push s g) = view r (w'.push s g')
  unfold view World.push at *
  simp only [List.filter_append, List.map_append, hview, hu]
  refine congrArg _ ?_
  cases hv : visible r (w'.username s) <;> simp [hv, hg]

/-- A frame made and sent. -/
theorem mirrors_say {type : MessageType} (ht : type ≠ .msg) (s : Sid) (sender target : Json)
    (data : Dict) :
    Mirrors r (fun _ _ => True) (frame type sender target data >>= fun g => send s g)
      (frame type sender target data >>= fun g => send s g) :=
  (mirrors_frame ht sender target data).bind fun _ _ hg => mirrors_send hg

/-- So does refusing. -/
theorem mirrors_refuse (s : Sid) (code message : Str) :
    Mirrors r (fun _ _ => True) (refuse s code message) (refuse s code message) :=
  mirrors_say (by simp) s _ _ _

/-! ## The stored messages -/

/-- Two bodies that make the same message for `r`, or that neither can be stored. -/
def SameBody (r : Str) (body body' nonce : Json) : Prop :=
  match Sql.text body, Sql.text body' with
  | .ok b, .ok b' => ∀ row : Row, Sql.text nonce = .ok row.nonce →
      Row.glimpse r { row with body := b } = Row.glimpse r { row with body := b' }
  | .error _, .error _ => True
  | _, _ => False

/-- A body has the same look as itself. -/
theorem sameBody_refl (r : Str) (body nonce : Json) : SameBody r body body nonce := by
  unfold SameBody
  cases Sql.text body with
  | ok b => exact fun row _ => rfl
  | error e => trivial

/-- Whether an id is stored can be told from the glimpses. -/
theorem any_id_eq {rows rows' : List Row} (h : rows.map (Row.glimpse r) = rows'.map (Row.glimpse r))
    (t : Option Str) : (rows.any fun x => x.id == t) = rows'.any fun x => x.id == t := by
  have hany : ∀ rows : List Row, (rows.any fun x => x.id == t) =
      (rows.map (Row.glimpse r)).any fun g => g.id == t := by
    intro rows
    rw [List.any_map]
    rfl
  rw [hany rows, hany rows', h]

/-- Recording two bodies that look the same keeps the glimpses equal. -/
theorem mirrors_record {id sender body body' nonce : Json} {conversation recipient : Str} {ts : Int}
    (hb : SameBody r body body' nonce) :
    Mirrors r (fun _ _ => True) (messagesRecord id conversation sender recipient body nonce ts)
      (messagesRecord id conversation sender recipient body' nonce ts) := by
  intro w w' h
  rw [run_call_pure (S := routerSig), run_call_pure (S := routerSig)]
  simp only [exec, MessageStore.record, Bind.bind, Except.bind, Pure.pure, Except.pure]
  cases Sql.text id with
  | error e => exact ⟨h, trivial⟩
  | ok t =>
  cases Sql.str conversation with
  | error e => exact ⟨h, trivial⟩
  | ok c =>
  cases Sql.text sender with
  | error e => exact ⟨h, trivial⟩
  | ok sd =>
  cases Sql.str recipient with
  | error e => exact ⟨h, trivial⟩
  | ok rc =>
  unfold SameBody at hb
  rcases hbt : Sql.text body with e | b <;> rcases hbt' : Sql.text body' with e' | b' <;>
    rw [hbt, hbt'] at hb
  · exact ⟨h, trivial⟩
  · exact hb.elim
  · exact hb.elim
  cases hn : Sql.text nonce with
  | error e => exact ⟨h, trivial⟩
  | ok n =>
  cases Sql.int ts with
  | error e => exact ⟨h, trivial⟩
  | ok x =>
  cases sd with
  | none => exact ⟨h, trivial⟩
  | some sd =>
    dsimp only
    rw [any_id_eq h.messages t]
    split
    · exact ⟨h, trivial⟩
    · refine ⟨⟨h.core, ?_, h.pending, h.view, h.clock, h.clock'⟩, trivial⟩
      have hrow := hb ⟨t, c, sd, rc, b, n, x, none, none⟩ hn
      simp only [commit', List.map_append, List.map_cons, List.map_nil, h.messages]
      exact congrArg (fun g => w'.messages.map (Row.glimpse r) ++ [g]) hrow

/-- `queue_for` as one expression. -/
theorem MessageStore.queueFor_eq (w : World) (name : Str) (id : Json) :
    MessageStore.queueFor w name id =
      match Sql.text id, Sql.str name with
      | .ok t, .ok _ => .ok { w with pending := queueAll t [name] w.pending }
      | .ok _, .error e => .error e
      | .error e, _ => .error e := by
  unfold MessageStore.queueFor
  simp only [Bind.bind, Except.bind, Pure.pure, Except.pure]
  cases Sql.text id with
  | error e => rfl
  | ok t =>
    cases hs : Sql.str name with
    | error e => rfl
    | ok v =>
      obtain ⟨-, rfl⟩ := Sql.str_ok.mp hs
      cases t with
      | none => rfl
      | some t =>
        dsimp only [queueAll, List.foldl, addOnce]
        split <;> rfl

/-- Queuing is the same on both sides. -/
theorem mirrors_queueFor (name : Str) (id : Json) :
    Mirrors r (fun _ _ => True) (messagesQueueFor name id) (messagesQueueFor name id) := by
  intro w w' h
  rw [run_call_pure (S := routerSig), run_call_pure (S := routerSig)]
  simp only [exec, MessageStore.queueFor_eq]
  cases Sql.text id with
  | error e => exact ⟨h, trivial⟩
  | ok t =>
  cases Sql.str name with
  | error e => exact ⟨h, trivial⟩
  | ok v =>
    refine ⟨⟨h.core, h.messages, fun i => ?_, h.view, h.clock, h.clock'⟩, trivial⟩
    simp only [commit', mem_queueAll, h.pending i]

/-- A receipt marks the same messages, at times that only differ. -/
theorem mirrors_mark (id state : Str) {now now' : Int} (hn : now ≠ 0) (hn' : now' ≠ 0) :
    Mirrors r (· = ·) (messagesMark id state now) (messagesMark id state now') := by
  intro w w' h
  rw [run_call_pure (S := routerSig), run_call_pure (S := routerSig)]
  simp only [exec, MessageStore.mark, Bind.bind, Except.bind, Pure.pure, Except.pure]
  cases Sql.str id with
  | error e => exact ⟨h, trivial⟩
  | ok t =>
    have hfind : ∀ w : World, (w.messages.find? fun x => x.id == some t).map Row.sender =
        ((w.messages.map (Row.glimpse r)).find? fun g => g.id == some t).map Glimpse.sender := by
      intro w
      rw [List.find?_map, Option.map_map]
      rfl
    have hsend : (w.messages.find? fun x => x.id == some t).map Row.sender =
        (w'.messages.find? fun x => x.id == some t).map Row.sender := by
      rw [hfind w, hfind w', h.messages]
    have hmark : ∀ n : Int, n ≠ 0 → ∀ rows : List Row,
        (rows.map fun x => if x.id = some t then MessageStore.markRow x state n else x).map
          (Row.glimpse r) = (rows.map (Row.glimpse r)).map fun g =>
            if g.id = some t then
              if state = read then { g with read := g.read.orElse fun _ => some true
                                            delivered := g.delivered.orElse fun _ => some true }
              else { g with delivered := g.delivered.orElse fun _ => some true }
            else g := by
      intro n hne rows
      rw [List.map_map, List.map_map]
      refine List.map_congr_left fun x _ => ?_
      simp only [Function.comp]
      by_cases hid : x.id = some t
      · rw [if_pos hid, if_pos (show (Row.glimpse r x).id = some t from hid)]
        unfold MessageStore.markRow
        split
        · cases hd : x.deliveredAt <;> cases hr : x.readAt <;>
            simp [Row.glimpse, contentFor, hd, hr, hne]
        · cases hd : x.deliveredAt <;> simp [Row.glimpse, contentFor, hd, hne]
      · rw [if_neg hid, if_neg (show ¬ (Row.glimpse r x).id = some t from hid)]
    dsimp only
    cases hw : w.messages.find? fun x => x.id == some t with
    | none =>
      rw [hw] at hsend
      have hw' : (w'.messages.find? fun x => x.id == some t) = none := by
        simpa using hsend.symm
      rw [hw']
      exact ⟨h, rfl⟩
    | some row =>
      rw [hw] at hsend
      obtain ⟨row', hw', hs⟩ := Option.map_eq_some_iff.mp hsend.symm
      rw [hw']
      refine ⟨⟨h.core, ?_, h.pending, h.view, h.clock, h.clock'⟩, congrArg some hs.symm⟩
      simp only [commit, hmark now hn, hmark now' hn', h.messages]

/-- A page of rows, as `r` may read them. -/
def glimpses (r : Str) (rows : List Row) : List Glimpse := rows.map (Row.glimpse r)

omit [Runtime] in
/-- Sorting before or after a map that keeps the keys is one thing. -/
theorem sort_map {α β : Type} (key : α → Int) (key' : β → Int) (f : α → β) (hf : ∀ a, key' (f a) = key a)
    (l : List α) : (l.insertionSort fun a b => key a ≤ key b).map f =
      (l.map f).insertionSort fun a b => key' a ≤ key' b := by
  refine List.map_insertionSort (r := fun a b => key a ≤ key b) (s := fun a b => key' a ≤ key' b)
    f l fun a _ b _ => ?_
  rw [hf, hf]

/-- What is queued for `r`, as `r` may read it. -/
theorem glimpses_queued (w : World) :
    glimpses r (MessageStore.queued w r) =
      ((glimpses r w.messages).filter fun g =>
        w.pending.any fun p => some p.1 == g.id && p.2 == r).insertionSort
          fun a b => a.ts ≤ b.ts := by
  unfold glimpses MessageStore.queued
  rw [sort_map Row.ts Glimpse.ts (Row.glimpse r) fun _ => rfl, List.filter_map]
  rfl

/-- A flush by `r` itself hands out the same glimpses. -/
theorem mirrors_flush (u : Json) :
    Mirrors r (fun rows rows' => isUser r u = true → glimpses r rows = glimpses r rows')
      (messagesFlush u) (messagesFlush u) := by
  intro w w' h
  rw [run_call_pure (S := routerSig), run_call_pure (S := routerSig)]
  simp only [exec, MessageStore.flush, Bind.bind, Except.bind, Pure.pure, Except.pure]
  cases ht : Sql.text u with
  | error e => exact ⟨h, trivial⟩
  | ok t =>
  cases t with
  | none => exact ⟨h, fun _ => rfl⟩
  | some name =>
    refine ⟨⟨h.core, h.messages, fun id => ?_, h.view, h.clock, h.clock'⟩, fun hu => ?_⟩
    · show (id, r) ∈ w.pending.filter _ ↔ (id, r) ∈ w'.pending.filter _
      rw [List.mem_filter, List.mem_filter, h.pending id]
    · have hname : name = r := by simpa [isUser, ht, Except.toOption] using hu
      subst hname
      have hqueue : (fun g : Glimpse => w.pending.any fun p => some p.1 == g.id && p.2 == name) =
          fun g => w'.pending.any fun p => some p.1 == g.id && p.2 == name := by
        funext g
        rw [Bool.eq_iff_iff]
        simp only [List.any_eq_true, Bool.and_eq_true, beq_iff_eq, Prod.exists]
        constructor
        · rintro ⟨i, n, hp, hi, rfl⟩
          exact ⟨i, n, (h.pending i).mp hp, hi, rfl⟩
        · rintro ⟨i, n, hp, hi, rfl⟩
          exact ⟨i, n, (h.pending i).mpr hp, hi, rfl⟩
      show glimpses name (MessageStore.queued w name) = glimpses name (MessageStore.queued w' name)
      rw [glimpses_queued, glimpses_queued, hqueue]
      exact congrArg (fun l => (List.filter _ l).insertionSort _) h.messages

/-- So does a page, whoever reads it. -/
theorem mirrors_history (conversation : Str) (before : Option Int) (limit : Int) :
    Mirrors r (fun rows rows' => glimpses r rows = glimpses r rows')
      (messagesHistory conversation before limit) (messagesHistory conversation before limit) := by
  intro w w' h
  rw [run_call_pure (S := routerSig), run_call_pure (S := routerSig)]
  simp only [exec, MessageStore.history_eq, Bind.bind, Except.bind, Pure.pure, Except.pure]
  cases Sql.str conversation with
  | error e => exact ⟨h, trivial⟩
  | ok c =>
  have hmsg : glimpses r w.messages = glimpses r w'.messages := h.messages
  -- The newest of the rows that a test on what `r` may read lets through.
  have hpage : ∀ (test : Glimpse → Bool) (w : World),
      glimpses r (((w.messages.filter fun x => test (x.glimpse r)).insertionSort
        fun a b => a.ts ≤ b.ts).drop
          (((w.messages.filter fun x => test (x.glimpse r)).insertionSort
            fun a b => a.ts ≤ b.ts).length - (max 1 (min limit maxLimit)).toNat)) =
        (((glimpses r w.messages).filter test).insertionSort fun a b => a.ts ≤ b.ts).drop
          ((((glimpses r w.messages).filter test).insertionSort
            fun a b => a.ts ≤ b.ts).length - (max 1 (min limit maxLimit)).toNat) := by
    intro test w
    have hfilter : (glimpses r w.messages).filter test =
        (w.messages.filter fun x => test (x.glimpse r)).map (Row.glimpse r) := by
      unfold glimpses
      rw [List.filter_map]
      rfl
    rw [hfilter, ← sort_map Row.ts Glimpse.ts (Row.glimpse r) fun _ => rfl, List.length_map,
      ← List.map_drop]
    rfl
  cases before with
  | none =>
    refine ⟨h, ?_⟩
    have hp := hpage (fun g => g.conversation == c) w
    rw [hmsg, ← hpage] at hp
    exact hp
  | some b =>
    dsimp only
    cases Sql.int b with
    | error e => exact ⟨h, trivial⟩
    | ok b =>
      refine ⟨h, ?_⟩
      have hp := hpage (fun g => g.conversation == c && g.ts < b) w
      rw [hmsg, ← hpage] at hp
      exact hp

end Calls

end Ciphertext
