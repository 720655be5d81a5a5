import Ciphertext.Server.Registry

/-!
# Outboxes and closed connections

The router hands a frame to a `ClientHandler` and goes on: `send` never blocks,
and never says whether it did anything. A handler that is closed ignores the
frame, and one whose outbox is full drops it and closes. Neither tells the
router, for which the user stays online until the connection's reader runs
`on_disconnect`. Between the two a message to that user is acknowledged and
gone.

`Hub` is the server's `World` with the handlers beside it. The router never looks
at them, so a handler running over both leaves in the `World` exactly what it
leaves alone (`Hub.run_eq`), and in the outboxes what the frames it sent add up
to.

`Hub.Reached.kept` says when the gap does no harm, in every state that any order of
calls, closings and hangups leads to: if whoever a MSG is for has an open outbox with
room for what comes to it, or is offline and the id is not `NULL` (`Reachable`, on the
state before the MSG), then once it is acknowledged every addressee has it in an open
outbox or is queued for it. `deliver_sent` is its other half: an admitted MSG leads to
the copies it should and little else.
-/

namespace Ciphertext

open Prog MessageRouter

/-- `OUTBOX_LIMIT`. -/
def outboxLimit : Nat := 1000

/-- Of every connection, whether `_closed` is set and how many items wait in its
outbox. -/
structure Handlers where
  closed : Sid → Bool := fun _ => false
  waiting : Sid → Nat := fun _ => 0

namespace Handlers

/-- `ClientHandler.close`: the stop sentinel takes a place, if there is one. -/
def close (h : Handlers) (s : Sid) : Handlers :=
  if h.closed s then h
  else
    { closed := Function.update h.closed s true
      waiting := Function.update h.waiting s (min (h.waiting s + 1) outboxLimit) }

/-- `ClientHandler.send`: whether the frame is now in the outbox. -/
def send (h : Handlers) (s : Sid) : Bool × Handlers :=
  if h.closed s then (false, h)
  else if outboxLimit ≤ h.waiting s then (false, h.close s)
  else (true, { h with waiting := Function.update h.waiting s (h.waiting s + 1) })

/-- The writer takes an item. -/
def take (h : Handlers) (s : Sid) : Handlers :=
  { h with waiting := Function.update h.waiting s (h.waiting s - 1) }

/-- A frame after another: the handlers, and the frames that were put in an
outbox. -/
def sendAll (h : Handlers) : List Delivery → Handlers × List Delivery
  | [] => (h, [])
  | d :: ds =>
    let r := h.send d.session
    let rest := r.2.sendAll ds
    (rest.1, if r.1 then d :: rest.2 else rest.2)

theorem sendAll_append (h : Handlers) (ds ds' : List Delivery) :
    h.sendAll (ds ++ ds') =
      (((h.sendAll ds).1.sendAll ds').1, (h.sendAll ds).2 ++ ((h.sendAll ds).1.sendAll ds').2) := by
  induction ds generalizing h with
  | nil => rfl
  | cons d ds ih =>
    rw [List.cons_append, sendAll, sendAll, ih]
    dsimp only
    split <;> rfl

/-- One frame to `s` leaves the other handlers as they were. -/
theorem send_other (h : Handlers) {s t : Sid} (hne : t ≠ s) :
    (h.send s).2.closed t = h.closed t ∧ (h.send s).2.waiting t = h.waiting t := by
  unfold send close
  split
  · exact ⟨rfl, rfl⟩
  · split
    · exact ⟨Function.update_of_ne hne .., Function.update_of_ne hne ..⟩
    · exact ⟨rfl, Function.update_of_ne hne ..⟩

/-- An open handler with room for them takes all the frames for it. -/
theorem sendAll_open {h : Handlers} {t : Sid} {ds : List Delivery} (hopen : h.closed t = false)
    (hroom : h.waiting t + ds.countP (fun d => d.session == t) ≤ outboxLimit) :
    (h.sendAll ds).1.closed t = false ∧
      (h.sendAll ds).1.waiting t = h.waiting t + ds.countP fun d => d.session == t := by
  induction ds generalizing h with
  | nil => exact ⟨hopen, rfl⟩
  | cons d ds ih =>
    rw [sendAll]
    by_cases hd : d.session = t
    · rw [List.countP_cons_of_pos (by simpa using hd)] at hroom ⊢
      have hfits : ¬ outboxLimit ≤ h.waiting t := by omega
      have hsend : h.send d.session =
          (true, { h with waiting := Function.update h.waiting t (h.waiting t + 1) }) := by
        simp [send, hd, hopen, hfits]
      have hone : Function.update h.waiting t (h.waiting t + 1) t = h.waiting t + 1 :=
        Function.update_self ..
      rw [hsend]
      have := ih (h := { h with waiting := Function.update h.waiting t (h.waiting t + 1) }) hopen
        (by dsimp only; omega)
      refine ⟨this.1, this.2.trans ?_⟩
      dsimp only
      omega
    · rw [List.countP_cons_of_neg (by simpa using hd)] at hroom ⊢
      obtain ⟨hclosed, hwaiting⟩ := h.send_other (s := d.session) (Ne.symm hd)
      have := ih (h := (h.send d.session).2) (hclosed.trans hopen) (by rw [hwaiting]; exact hroom)
      rw [hwaiting] at this
      exact this

/-- A frame that finds its handler open, with room for those before it and for
itself, is put in the outbox. -/
theorem mem_sendAll {h : Handlers} {d : Delivery} {pre post : List Delivery}
    (hopen : h.closed d.session = false)
    (hroom : h.waiting d.session + pre.countP (fun d' => d'.session == d.session) < outboxLimit) :
    d ∈ (h.sendAll (pre ++ d :: post)).2 := by
  obtain ⟨hclosed, hwaiting⟩ := @sendAll_open h d.session pre hopen (by omega)
  rw [sendAll_append]
  refine List.mem_append_right _ ?_
  have hfits : ¬ outboxLimit ≤ (h.sendAll pre).1.waiting d.session := by omega
  simp [sendAll, send, hclosed, hfits]

end Handlers

/-! ## The server with its handlers -/

/-- The world, the handlers, and the frames put in an outbox of a handler that
was not closed. -/
structure Hub where
  world : World
  handlers : Handlers := {}
  enqueued : List Delivery := []

section Hub

variable [Runtime]

/-- What each call does to both. -/
def Hub.exec : (o : Op) → Hub → Except PyErr (Op.Ret o) × Hub
  | .send s f, x =>
    (.ok (), { world := x.world.push s f
               handlers := (x.handlers.send s).2
               enqueued := if (x.handlers.send s).1 then
                 x.enqueued ++ [⟨s, x.world.username s, f⟩] else x.enqueued })
  | o, x => ((Ciphertext.exec o x.world).1, { x with world := (Ciphertext.exec o x.world).2 })

/-- A call other than `send` is the world's own. -/
theorem Hub.exec_eq {o : Op} (h : Field.sent ∉ o.writesTo) (x : Hub) :
    Hub.exec o x =
      ((Ciphertext.exec o x.world).1, { x with world := (Ciphertext.exec o x.world).2 }) := by
  cases o <;> first | rfl | simp [Op.writesTo] at h

/-- **A handler over both** does to the world what it does alone, and to the
outboxes what the frames it sent add up to. -/
theorem Hub.run_eq {α : Type} (p : RouterM α) (x : Hub) :
    ∃ ds, (p.exec x.world).2.sent = x.world.sent ++ ds ∧
      p.run Hub.exec x = ((p.exec x.world).1,
        { world := (p.exec x.world).2
          handlers := (x.handlers.sendAll ds).1
          enqueued := x.enqueued ++ (x.handlers.sendAll ds).2 }) := by
  induction p generalizing x with
  | pure a => exact ⟨[], by simp [RouterM.exec], by simp [RouterM.exec, Handlers.sendAll]⟩
  | raise e => exact ⟨[], by simp [RouterM.exec], by simp [RouterM.exec, Handlers.sendAll]⟩
  | call o k ih =>
    by_cases ho : Field.sent ∈ o.writesTo
    · cases o with
      | send s f =>
        obtain ⟨ds, hds, hrun⟩ := ih () (Hub.exec (.send s f) x).2
        refine ⟨⟨s, x.world.username s, f⟩ :: ds, ?_, ?_⟩
        · rw [List.append_cons]
          exact hds
        · refine Eq.trans (b := (k ()).run Hub.exec (Hub.exec (.send s f) x).2) rfl ?_
          rw [hrun]
          simp only [Hub.exec, Handlers.sendAll]
          cases hs : (x.handlers.send s).1 <;> simp [RouterM.exec, run_call, Ciphertext.exec]
      | _ => simp [Op.writesTo] at ho
    · have hsame : (Ciphertext.exec o x.world).2.sent = x.world.sent := exec_same o x.world ho
      rw [RouterM.exec, run_call, run_call, Hub.exec_eq ho]
      rcases hr : Ciphertext.exec o x.world with ⟨e | a, w'⟩ <;> rw [hr] at hsame <;>
        dsimp only at hsame
      · exact ⟨[], by simp [hsame], by simp [Handlers.sendAll]⟩
      · obtain ⟨ds, hds, hrun⟩ := ih a { x with world := w' }
        exact ⟨ds, by rw [← hsame]; exact hds, hrun⟩

/-- What can happen next: a call on the router, a connection closed from
wherever, an item written, or a write that fails and closes the connection. -/
inductive Turn where
  | call (i : Input)
  | close (s : Sid)
  | write (s : Sid)
  | writeFails (s : Sid)

/-- One of them. -/
def Hub.turn (cfg : Config) (x : Hub) : Turn → Hub
  | .call i => ((i.prog cfg).run Hub.exec x).2
  | .close s => { x with handlers := x.handlers.close s }
  | .write s => { x with handlers := x.handlers.take s }
  | .writeFails s =>
    { x with handlers := { (x.handlers.take s) with
        closed := Function.update x.handlers.closed s true } }

/-- The states some turns lead to. -/
inductive Hub.Reached (cfg : Config) (x₀ : Hub) : Hub → Prop
  | start : Reached cfg x₀ x₀
  | turn {x : Hub} (h : Reached cfg x₀ x) (t : Turn) : Reached cfg x₀ (x.turn cfg t)

/-- The world of a reached state is that of a run of the router. -/
theorem Hub.Reached.run {cfg : Config} {x₀ x : Hub} (h : Hub.Reached cfg x₀ x) :
    ∃ tr, Run cfg x₀.world tr x.world := by
  induction h with
  | start => exact ⟨[], .nil⟩
  | @turn x h t ih =>
    obtain ⟨tr, hrun⟩ := ih
    cases t with
    | call i =>
      obtain ⟨ds, -, heq⟩ := Hub.run_eq (i.prog cfg) x
      have hworld : (x.turn cfg (.call i)).world = (Step.of cfg x.world i).after := by
        show ((i.prog cfg).run Hub.exec x).2.world = _
        rw [heq]
        rfl
      rw [hworld]
      exact ⟨_, hrun.snoc i⟩
    | close s => exact ⟨tr, hrun⟩
    | write s => exact ⟨tr, hrun⟩
    | writeFails s => exact ⟨tr, hrun⟩

/-! ## The frames an acknowledged MSG leads to -/

/-- Whether noting the contact is news, which its owner is told. -/
def greets (cfg : Config) (w : World) (owner contact : Json) : Bool :=
  cfg.contacts && match SqliteContacts.add w owner contact with
    | .ok (added, _) => added
    | .error _ => false

/-- What is news with more contacts known is news with fewer. -/
theorem greets_mono {cfg : Config} {w w' : World} {owner contact : Json}
    (hsub : ∀ c ∈ w.contacts, c ∈ w'.contacts) (h : greets cfg w' owner contact = true) :
    greets cfg w owner contact = true := by
  unfold greets SqliteContacts.add at h ⊢
  simp only [Bind.bind, Except.bind, Pure.pure, Except.pure] at h ⊢
  obtain ⟨hc, h⟩ := Bool.and_eq_true_iff.mp h
  refine Bool.and_eq_true_iff.mpr ⟨hc, ?_⟩
  split at h
  next b w₁ hadd =>
    subst h
    split at hadd
    · cases hadd
    next hnames =>
      rw [if_neg hnames]
      split at hadd
      · cases hadd
      next o ho =>
        split at hadd
        · cases hadd
        next c hcn =>
          cases o with
          | none => cases hadd
          | some o =>
            cases c with
            | none => cases hadd
            | some c =>
              dsimp only at hadd ⊢
              split at hadd
              · cases hadd
              next hnew =>
                have hold : ¬ w.contacts.contains (o, c) = true := fun hmem =>
                  hnew (by simpa using hsub _ (by simpa using hmem))
                rw [if_neg hold]
  · cases h

/-- Looking the contacts up changes nothing. -/
theorem contactStates_same (cfg : Config) (username : Json) (w : World) :
    ((contactStates cfg username).exec w).2 = w := by
  unfold contactStates
  split
  · rfl
  · rw [RouterM.exec_bind, RouterM.exec_call]
    simp only [exec]
    cases SessionRegistry.usernames w with
    | error e => rfl
    | ok online =>
      dsimp only
      rw [RouterM.exec_bind, RouterM.exec_call]
      simp only [exec]
      cases SqliteContacts.of w username <;> rfl

/-- Contacts are sent to one connection. -/
theorem sendContacts_sent {cfg : Config} {s : Sid} {w w' : World}
    (h : (sendContacts cfg s).exec w = (.ok (), w')) :
    ∃ g, w'.sent = w.sent ++ [⟨s, w.username s, g⟩] ∧ w'.contacts = w.contacts := by
  have hsame := contactStates_same cfg (orEmpty ((w.username s).getD .null)) w
  unfold sendContacts at h
  rw [RouterM.exec_bind, RouterM.exec_call] at h
  simp only [exec] at h
  rw [RouterM.exec_bind, RouterM.exec_call] at h
  simp only [exec] at h
  rw [RouterM.exec_bind] at h
  generalize (contactStates cfg (orEmpty ((w.username s).getD .null))).exec w = states at h hsame
  obtain ⟨e | r, w₁⟩ := states
  · cases h
  · cases hsame
    obtain ⟨-, rfl⟩ := Prod.mk.inj h
    exact ⟨_, rfl, rfl⟩

/-- Noting a contact that is no news sends nothing; news goes to the owner, if
connected. -/
theorem noteContact_sent {cfg : Config} {owner other : Json} {w w' : World}
    (h : (noteContact cfg owner other).exec w = (.ok (), w')) :
    (∀ c ∈ w.contacts, c ∈ w'.contacts) ∧
      (w'.sent = w.sent ∨ ∃ t g, SessionRegistry.get w owner = some t ∧
        greets cfg w owner other = true ∧ w'.sent = w.sent ++ [⟨t, w.username t, g⟩]) := by
  have hnothing : w' = w → (∀ c ∈ w.contacts, c ∈ w'.contacts) ∧
      (w'.sent = w.sent ∨ ∃ t g, SessionRegistry.get w owner = some t ∧
        greets cfg w owner other = true ∧ w'.sent = w.sent ++ [⟨t, w.username t, g⟩]) := by
    rintro rfl
    exact ⟨fun _ hc => hc, .inl rfl⟩
  unfold noteContact at h
  split at h
  · exact hnothing (Prod.mk.inj h).2.symm
  next hkeeps =>
    cases other with
    | str name =>
      dsimp only at h
      split at h
      · exact hnothing (Prod.mk.inj h).2.symm
      · rw [RouterM.exec_bind, RouterM.exec_call] at h
        simp only [exec] at h
        -- the list is sent only if the row is new, and only to an owner who is connected
        cases hadd : SqliteContacts.add w owner (.str name) with
        | error e =>
          rw [hadd] at h
          cases h
        | ok r =>
          obtain ⟨b, w₁⟩ := r
          rw [hadd] at h
          dsimp only [commit] at h
          rcases SqliteContacts.add_cases hadd with ⟨rfl, rfl⟩ | ⟨o, c, -, -, -, -, rfl, rfl⟩
          · exact hnothing (Prod.mk.inj h).2.symm
          · simp only [Bool.not_true, Bool.false_eq_true, if_false] at h
            rw [RouterM.exec_bind, RouterM.exec_call] at h
            simp only [exec] at h
            cases hget : SessionRegistry.get w owner with
            | none =>
              have hget' : SessionRegistry.get
                  { w with contacts := w.contacts ++ [(o, c)] } owner = none := hget
              rw [hget'] at h
              obtain ⟨-, rfl⟩ := Prod.mk.inj h
              exact ⟨fun _ hc => List.mem_append_left _ hc, .inl rfl⟩
            | some t =>
              have hget' : SessionRegistry.get
                  { w with contacts := w.contacts ++ [(o, c)] } owner = some t := hget
              rw [hget'] at h
              obtain ⟨g, hsent, hcontacts⟩ := sendContacts_sent h
              refine ⟨fun _ hc => ?_, .inr ⟨t, g, rfl, ?_, hsent⟩⟩
              · rw [hcontacts]
                exact List.mem_append_left _ hc
              · have hcfg : cfg.contacts = true := by
                  by_contra hne
                  simp [hne] at hkeeps
                simp [greets, hcfg, hadd]
    | _ => cases h

/-- How many frames go to the addressee of a MSG before the MSG itself: the news
of a contact, if it is news. -/
def ahead (cfg : Config) (w : World) (me : Json) (target : Str) : Nat :=
  if target.startsWith roomPrefix then 0
  else if greets cfg w (.str target) (orEmpty me) then 1 else 0

theorem toRoom_sent {cfg : Config} {s : Sid} {me : Json} {f : Frame} {room : Str} {w w' : World}
    (ht : f.target = .str room) (hd : room.startsWith roomPrefix = true)
    (h : (toRoom cfg s me room (outgoing me f) (f.get "env").asDict).exec w = (.ok true, w')) :
    w'.sent = w.sent ++ live w (copies w me f room) := by
  unfold toRoom at h
  obtain ⟨known, w₁, h₁, h⟩ := run_bind_eq_ok h
  have h₁ : (SqliteRooms.exists' w room, w) = (.ok known, w₁) :=
    (RouterM.exec_call (.roomsExists room) w).symm.trans h₁
  obtain ⟨-, rfl⟩ := Prod.mk.inj h₁
  split at h
  · obtain ⟨-, w₂, -, h⟩ := run_bind_eq_ok h
    cases h
  · obtain ⟨members, w₁, h₁, h⟩ := run_bind_eq_ok h
    have h₁ : (SqliteRooms.members w room, w) = (.ok members, w₁) :=
      (RouterM.exec_call (.roomsMembers room) w).symm.trans h₁
    obtain ⟨hmembers, rfl⟩ := Prod.mk.inj h₁
    obtain rfl : memberNames w room = members := by
      simp only [SqliteRooms.members, Bind.bind, Except.bind] at hmembers
      split at hmembers
      · cases hmembers
      next r hr =>
        obtain ⟨-, rfl⟩ := Sql.str_ok.mp hr
        exact Except.ok.inj hmembers
    split at h
    · obtain ⟨-, w₂, -, h⟩ := run_bind_eq_ok h
      cases h
    · obtain ⟨u₁, w₁, h₁, h⟩ := run_bind_eq_ok h
      obtain ⟨u₂, w₂, h₂, h⟩ := run_bind_eq_ok h
      have h : (Except.ok true, w₂) = ((.ok true, w') : Except PyErr Bool × World) := h
      obtain ⟨-, rfl⟩ := Prod.mk.inj h
      rcases recordRoom_filed cfg w me f ht hd with ⟨e, hrun⟩ | ⟨w₁', hrun, hf⟩
      · cases h₁.symm.trans hrun
      · obtain ⟨-, rfl⟩ := Prod.mk.inj (h₁.symm.trans hrun)
        obtain ⟨-, ho, hu, hs⟩ := hf.aside
        obtain ⟨done, rest, hnames, hok, hw⟩ := forEach_deliverTo_exec cfg me (outgoing me f)
          (f.get "env").asDict (Str.sorted (memberNames w room)) w₁
        rw [RouterM.exec, h₂] at hok hw
        have hdone : Str.sorted (memberNames w room) = done := by
          rw [hnames, hok rfl, List.append_nil]
        have hcopies : copies w me f room = (Str.sorted (memberNames w room)).filterMap
            (copyFor me (outgoing me f) (f.get "env").asDict) := if_pos hd
        have hsent : w₂.sent = w₁.sent ++ live w₁ (copies w me f room) := by
          rw [hcopies, hdone]
          exact congrArg World.sent hw
        rw [hsent, hs, live_congr ho hu]

/-- Somebody's own connection is not told before somebody else's message. -/
theorem greets_other {cfg : Config} {w : World} {a target : Str} {t u : Sid} (hw : Wired w)
    (h : greets cfg w (.str a) (.str target) = true)
    (ht : SessionRegistry.get w (.str target) = some t)
    (hu : SessionRegistry.get w (.str a) = some u) : u ≠ t := by
  rintro rfl
  have hsame : Json.str a = .str target := Option.some.inj ((hw.get_eq hu).symm.trans (hw.get_eq ht))
  rw [hsame] at h
  simp [greets, SqliteContacts.add, Json.pyEq_refl, Pure.pure, Except.pure] at h

/-- A message to a person that went through: it is recorded, each of the two is noted as a
contact of the other, and the copy is handed over. -/
structure Passed (cfg : Config) (me : Json) (f : Frame) (target : Str) (w w₁ w₂ w₃ w' : World) : Prop where
  name : ∃ a, orEmpty me = .str a
  filed : Filed cfg me f w w₁
  own : (noteContact cfg (orEmpty me) (.str target)).exec w₁ = (.ok (), w₂)
  theirs : (noteContact cfg (.str target) (orEmpty me)).exec w₂ = (.ok (), w₃)
  sent : w'.sent = w₃.sent ++ live w₃ [(target, outgoing me f)]

section Passed

variable {cfg : Config} {s : Sid} {me : Json} {f : Frame} {target : Str} {w w₁ w₂ w₃ w' : World}

theorem toUser_passed (hd : target.startsWith roomPrefix = false) (ht : f.target = .str target)
    (h : (toUser cfg s me target (outgoing me f)).exec w = (.ok true, w')) :
    ∃ w₁ w₂ w₃, Passed cfg me f target w w₁ w₂ w₃ w' := by
  unfold toUser at h
  obtain ⟨recipient, w₁, h₁, h⟩ := run_bind_eq_ok h
  have h₁ : (Except.ok (SessionRegistry.get w (.str target)), w) = (.ok recipient, w₁) :=
    (RouterM.exec_call (.sessionsGet (.str target)) w).symm.trans h₁
  obtain ⟨hrec, rfl⟩ := Prod.mk.inj h₁
  obtain rfl := Except.ok.inj hrec
  obtain ⟨b, w₁, h₁, h⟩ := run_bind_eq_ok h
  rcases reachable_exec cfg w hd me with ⟨e, hrun⟩ | ⟨b', hrun, hadm⟩
  · cases h₁.symm.trans hrun
  obtain ⟨hb, rfl⟩ := Prod.mk.inj (hrun.symm.trans h₁)
  obtain rfl := Except.ok.inj hb
  split at h
  · -- a refusal answers `false`
    obtain ⟨-, w₂, -, h⟩ := run_bind_eq_ok h
    cases h
  next hb =>
    have hadm := hadm.mp (by simpa using hb)
    obtain ⟨conversation, w₁, h₁, h⟩ := run_bind_eq_ok h
    cases hc : directConversation (orEmpty me) (.str target) with
    | error e =>
      rw [hc] at h₁
      cases h₁
    | ok key =>
      rw [hc] at h₁
      obtain ⟨hkey, rfl⟩ := Prod.mk.inj (h₁ : (Except.ok key, w) = (.ok conversation, w₁))
      obtain rfl := Except.ok.inj hkey
      obtain ⟨u₁, w₁, h₁, h⟩ := run_bind_eq_ok h
      obtain ⟨u₂, w₂, h₂, h⟩ := run_bind_eq_ok h
      obtain ⟨u₃, w₃, h₃, h⟩ := run_bind_eq_ok h
      obtain ⟨u₄, w₄, h₄, h⟩ := run_bind_eq_ok h
      obtain ⟨-, rfl⟩ := Prod.mk.inj (h : (Except.ok true, w₄) = (.ok true, w'))
      rcases record_filed cfg w me f ht hd hc with ⟨e, hrun⟩ | ⟨w₁', hrun, hf⟩
      · cases h₁.symm.trans hrun
      obtain ⟨-, rfl⟩ := Prod.mk.inj (hrun.symm.trans h₁)
      have hname : ∃ a, orEmpty me = .str a := by
        cases hor : orEmpty me with
        | str a => exact ⟨a, rfl⟩
        | _ => simp [hor, directConversation] at hc
      have ha₂ := noteContact_aside cfg w₁' (orEmpty me) (.str target)
      have ha₃ := noteContact_aside cfg w₂ (.str target) (orEmpty me)
      rw [RouterM.exec, h₂] at ha₂
      rw [RouterM.exec, h₃] at ha₃
      -- the addressee is connected as before, so the copy goes where it was to go
      have hget : SessionRegistry.get w (.str target) = SessionRegistry.get w₃ (.str target) := by
        unfold SessionRegistry.get
        rw [(ha₂.trans ha₃).online, hf.aside.2.1]
      have hm : cfg.messages = true ∨ (SessionRegistry.get w₃ (.str target)).isSome = true := by
        rw [← hget]
        simp only [Admitted, hd, Bool.false_eq_true, if_false] at hadm
        exact hadm.elim .inr fun h => .inl h.1
      rw [hget] at h₄
      rcases handOver_exec cfg w₃ target (outgoing me f) hm with hrun' | ⟨e, hrun'⟩
      · obtain ⟨-, rfl⟩ := Prod.mk.inj (hrun'.symm.trans h₄)
        exact ⟨w₁', w₂, w₃, hname, hf, h₂, h₃, rfl⟩
      · cases hrun'.symm.trans h₄

theorem Passed.aside (h : Passed cfg me f target w w₁ w₂ w₃ w') : Aside w₁ w₂ ∧ Aside w₂ w₃ := by
  have ha₂ := noteContact_aside cfg w₁ (orEmpty me) (.str target)
  have ha₃ := noteContact_aside cfg w₂ (.str target) (orEmpty me)
  rw [h.own] at ha₂
  rw [h.theirs] at ha₃
  exact ⟨ha₂, ha₃⟩

theorem Passed.contacts (h : Passed cfg me f target w w₁ w₂ w₃ w') : ∀ c ∈ w.contacts, c ∈ w₁.contacts := by
  rcases h.filed with ⟨-, rfl⟩ | ⟨-, rfl, -⟩ | ⟨-, row, -, -, rfl⟩ <;> exact fun _ hc => hc

/-- The sender's own news goes elsewhere. -/
theorem Passed.ownNews (h : Passed cfg me f target w w₁ w₂ w₃ w') (hw : Wired w) :
    ∃ news, w₂.sent = w.sent ++ news ∧ ∀ t, SessionRegistry.get w (.str target) = some t →
      news.countP (fun d => d.session == t) = 0 := by
  obtain ⟨-, ho, -, hs⟩ := h.filed.aside
  obtain ⟨a, hname⟩ := h.name
  rcases (noteContact_sent h.own).2 with hsame | ⟨t₁, g, hget₁, hnews, hsent⟩
  · exact ⟨[], by rw [hsame, hs, List.append_nil], fun _ _ => rfl⟩
  · refine ⟨_, by rw [hsent, hs], fun t htarget => ?_⟩
    have hget : SessionRegistry.get w (.str a) = some t₁ := by
      rw [← hget₁, hname, SessionRegistry.get, ← ho]
      rfl
    rw [hname] at hnews
    have hne := greets_other hw (greets_mono h.contacts hnews) htarget hget
    simp [hne]

/-- The addressee's counts one. -/
theorem Passed.theirNews (h : Passed cfg me f target w w₁ w₂ w₃ w') (hd : target.startsWith roomPrefix = false) :
    ∃ news, w₃.sent = w₂.sent ++ news ∧ ∀ t, news.countP (fun d => d.session == t) ≤ ahead cfg w me target := by
  have hsub := (noteContact_sent h.own).1
  rcases (noteContact_sent h.theirs).2 with hsame | ⟨t₂, g, -, hnews, hsent⟩
  · exact ⟨[], by rw [hsame, List.append_nil], fun _ => Nat.zero_le _⟩
  · have hnews := greets_mono (fun c hmem => hsub c (h.contacts c hmem)) hnews
    refine ⟨_, hsent, fun t => ?_⟩
    rw [ahead, hd, hnews]
    exact List.countP_le_length

theorem toUser_sent (hw : Wired w) (hd : target.startsWith roomPrefix = false) (ht : f.target = .str target)
    (h : (toUser cfg s me target (outgoing me f)).exec w = (.ok true, w')) :
    ∃ pre, w'.sent = w.sent ++ (pre ++ live w (copies w me f target)) ∧
      ∀ t, SessionRegistry.get w (.str target) = some t →
        pre.countP (fun d => d.session == t) ≤ ahead cfg w me target := by
  obtain ⟨w₁, w₂, w₃, hpassed⟩ := toUser_passed hd ht h
  obtain ⟨-, ho, hu, -⟩ := hpassed.filed.aside
  obtain ⟨ha₂, ha₃⟩ := hpassed.aside
  have hlive : live w₃ [(target, outgoing me f)] = live w (copies w me f target) := by
    rw [live_congr ((ha₂.trans ha₃).online.trans ho) ((ha₂.trans ha₃).username.trans hu), copies, hd]
    rfl
  obtain ⟨own, hown, hcount⟩ := hpassed.ownNews hw
  obtain ⟨theirs, htheirs, hcount'⟩ := hpassed.theirNews hd
  refine ⟨own ++ theirs, ?_, fun t htarget => ?_⟩
  · rw [hpassed.sent, hlive, htheirs, hown]
    simp only [List.append_assoc]
  · rw [List.countP_append, hcount t htarget, Nat.zero_add]
    exact hcount' t

end Passed

/-- **The frames an admitted MSG leads to**: at most the news of a contact, then
the copies. -/
theorem deliver_sent {cfg : Config} {s : Sid} {me : Json} {f : Frame} {target : Str} {w w' : World}
    (hw : Wired w) (ht : f.target = .str target)
    (h : (deliver cfg s me target f).exec w = (.ok true, w')) :
    ∃ pre, w'.sent = w.sent ++ (pre ++ live w (copies w me f target)) ∧
      ∀ c ∈ copies w me f target, ∀ t, SessionRegistry.get w (.str c.1) = some t →
        pre.countP (fun d => d.session == t) ≤ ahead cfg w me target := by
  unfold deliver at h
  cases hd : target.startsWith roomPrefix with
  | true =>
    rw [hd] at h
    exact ⟨[], toRoom_sent ht hd h, fun _ _ _ _ => Nat.zero_le _⟩
  | false =>
    rw [hd] at h
    obtain ⟨pre, hsent, hcount⟩ := toUser_sent hw hd ht h
    refine ⟨pre, hsent, fun c hc => ?_⟩
    have hcopies : copies w me f target = [(target, outgoing me f)] := by simp [copies, hd]
    rw [hcopies] at hc
    rw [List.mem_singleton.mp hc]
    exact hcount

/-- An acknowledged MSG was delivered, and then acknowledged. -/
theorem message_acked {cfg : Config} {s : Sid} {me : Json} {f : Frame} {w : World}
    {ds : List Delivery} (hsent : ((message cfg s me f).exec w).2.sent = w.sent ++ ds)
    (hack : ∃ d ∈ ds, d.frame.type = .ack) :
    ∃ target w₁ g, f.target = .str target ∧ (deliver cfg s me target f).exec w = (.ok true, w₁) ∧
      ((message cfg s me f).exec w).2.sent = w₁.sent ++ [⟨s, w₁.username s, g⟩] ∧
      ((message cfg s me f).exec w).2.pending = w₁.pending := by
  -- Nothing but an ACK of `message` itself is one.
  have hnone : ∀ {w' : World}, (∃ ds', w'.sent = w.sent ++ ds' ∧
      ∀ d ∈ ds', d.frame.type ≠ .ack) → ((message cfg s me f).exec w).2 = w' → False := by
    rintro w' ⟨ds', hds', hall⟩ hw'
    rw [hw', hds'] at hsent
    obtain ⟨d, hd, hdack⟩ := hack
    rw [← List.append_cancel_left hsent] at hd
    exact hall d hd hdack
  unfold message at hnone ⊢
  by_cases htr : f.target.truthy = true
  case neg =>
    have htr : f.target.truthy = false := by simpa using htr
    simp only [htr, Bool.not_false, if_true] at hnone
    exact (hnone ⟨_, rfl, by simp⟩ rfl).elim
  simp only [htr, Bool.not_true, Bool.false_eq_true, if_false] at hnone ⊢
  cases ht : f.target with
  | str target =>
    simp only [ht] at hnone ⊢
    obtain ⟨ds', hds', hall⟩ := exec_sends (deliver_uses cfg s me f ht) (by
      rintro o (ho | ⟨name, rfl⟩ | ⟨a, b, rfl⟩)
      · cases ho <;> simp [Op.writesTo]
      · simp [Op.writesTo]
      · simp [Op.writesTo]) w
    have hall' : ∀ d ∈ ds', d.frame.type ≠ .ack := by
      intro d hd hdack
      rcases hall d hd with ⟨-, hty⟩ | hty | hrel
      · simp [hdack] at hty
      · rw [hty] at hdack
        cases hdack
      · rw [hrel.type] at hdack
        cases hdack
    rw [RouterM.exec_bind] at hnone ⊢
    generalize hr : (deliver cfg s me target f).exec w = r at hnone hds'
    obtain ⟨e | b, w₁⟩ := r
    · exact (hnone ⟨ds', hds', hall'⟩ rfl).elim
    · cases b with
      | false => exact (hnone ⟨ds', hds', hall'⟩ rfl).elim
      | true => exact ⟨target, w₁, _, rfl, hr, rfl, rfl⟩
  | _ =>
    simp only [ht] at hnone
    exact (hnone ⟨[], by simp [RouterM.exec], by simp⟩ rfl).elim

/-! ## No acknowledged message is dropped -/

/-- The addressee's copy is in the outbox of a connection of theirs that was not
closed, or they are queued under the message's id. -/
def InOutboxOrQueue (x x' : Hub) (id : Json) (c : Str × Frame) : Prop :=
  (∃ d ∈ x'.enqueued.drop x.enqueued.length, d.holder = some (.str c.1) ∧ d.frame = c.2) ∨
    ∃ i, Sql.text id = .ok (some i) ∧ (i, c.1) ∈ x'.world.pending

/-- Whoever the message is for can be reached: a connection that is registered
for them is not closed and has room for what comes to it, and a name that is
queued is queued under an id that is not `NULL`. -/
def Reachable (cfg : Config) (x : Hub) (me : Json) (f : Frame) (target : Str) : Prop :=
  ∀ c ∈ copies x.world me f target,
    match SessionRegistry.get x.world (.str c.1) with
    | some t => x.handlers.closed t = false ∧
        x.handlers.waiting t + ahead cfg x.world me target < outboxLimit
    | none => ∃ i, Sql.text f.id = .ok (some i)

/-- The frames that go out before somebody's own copy of a MSG. -/
theorem countP_live {w : World} {cs : List (Str × Frame)} {c : Str × Frame} {t : Sid} (hw : Wired w)
    (ht : SessionRegistry.get w (.str c.1) = some t) (hc : c.1 ∉ cs.map Prod.fst) :
    (live w cs).countP (fun d => d.session == t) = 0 := by
  refine List.countP_eq_zero.mpr fun d hd => ?_
  obtain ⟨c', hc', hd⟩ := List.mem_filterMap.mp hd
  obtain ⟨t', ht', rfl⟩ := Option.map_eq_some_iff.mp hd
  intro heq
  obtain rfl : t' = t := by simpa using heq
  have hsame : Json.str c'.1 = .str c.1 :=
    Option.some.inj ((hw.get_eq ht').symm.trans (hw.get_eq ht))
  exact hc (List.mem_map.mpr ⟨c', hc', Json.str.inj hsame⟩)

/-- **No acknowledged message is dropped**, as long as whoever it is for can be
reached: in every state some turns lead to, every addressee of a MSG that the
server acknowledges has it in an open outbox or is queued for it. -/
theorem Hub.Reached.kept {cfg : Config} {x : Hub} {uuid : Nat → Str} {clock : Nat → Int}
    {salt : Nat → List UInt8}
    (h : Hub.Reached cfg { world := World.start uuid clock salt } x) (hm : cfg.messages = true)
    {s : Sid} {f : Frame} {me : Json} {target : Str} (hmsg : f.type = .msg)
    (hu : x.world.username s = some me) (ht : f.target = .str target)
    (hack : ∃ d ∈ (Step.of cfg x.world (.frame s f)).out, d.frame.type = .ack)
    (hreach : Reachable cfg x me f target) :
    ∀ c ∈ copies x.world me f target, InOutboxOrQueue x (x.turn cfg (.call (.frame s f))) f.id c := by
  intro c hc
  obtain ⟨tr, hrun⟩ := h.run
  have hw := hrun.wired (wired_start uuid clock salt)
  have hnodup := copies_nodup (hrun.memberships_nodup List.nodup_nil) me f target
  obtain ⟨ds, hds, heq⟩ := Hub.run_eq (handle cfg s f) x
  have hstep : (handle cfg s f).exec x.world = (message cfg s me f).exec x.world :=
    handle_msg cfg s hmsg hu
  have hout : (Step.of cfg x.world (.frame s f)).out = ds :=
    List.append_cancel_left ((Step.sent_of cfg x.world (.frame s f)).symm.trans hds)
  have hturn : x.turn cfg (.call (.frame s f)) =
      { world := ((handle cfg s f).exec x.world).2
        handlers := (x.handlers.sendAll ds).1
        enqueued := x.enqueued ++ (x.handlers.sendAll ds).2 } := congrArg Prod.snd heq
  -- What the step put in outboxes is what came before the copies, the copies, and the ACK.
  rw [hout] at hack
  rw [hstep] at hds
  obtain ⟨target', w₁, g, ht', hdeliver, hsent, hpending⟩ := message_acked hds hack
  obtain rfl : target = target' := Json.str.inj (ht.symm.trans ht')
  obtain ⟨pre, hsent₁, hcount⟩ := deliver_sent hw ht hdeliver
  have hds : ds = pre ++ live x.world (copies x.world me f target) ++ [⟨s, w₁.username s, g⟩] := by
    refine List.append_cancel_left (hds.symm.trans ?_)
    rw [hsent, hsent₁]
    simp only [List.append_assoc]
  have hready := hreach c hc
  unfold InOutboxOrQueue
  rw [hturn]
  -- Reachable means room for one more in the outbox, or being away with a queue to go to.
  cases hget : SessionRegistry.get x.world (.str c.1) with
  | some t =>
    rw [hget] at hready
    refine .inl ⟨⟨t, x.world.username t, c.2⟩, ?_, hw.get_eq hget, rfl⟩
    rw [List.drop_left]
    obtain ⟨before, after, hsplit⟩ := List.append_of_mem hc
    have hbefore : c.1 ∉ before.map Prod.fst := by
      rw [hsplit, List.map_append, List.map_cons] at hnodup
      exact fun hmem => (List.nodup_append.mp hnodup).2.2 _ hmem _ (List.mem_cons_self ..) rfl
    have hlive : live x.world (copies x.world me f target) =
        live x.world before ++ ⟨t, x.world.username t, c.2⟩ :: live x.world after := by
      unfold live
      rw [hsplit, List.filterMap_append, List.filterMap_cons, hget]
      rfl
    have hin : ds = (pre ++ live x.world before) ++ ⟨t, x.world.username t, c.2⟩ ::
        (live x.world after ++ [⟨s, w₁.username s, g⟩]) := by
      rw [hds, hlive]
      simp only [List.append_assoc, List.cons_append]
    rw [hin]
    refine Handlers.mem_sendAll hready.1 ?_
    -- before this copy the handler has sent at most one frame to the session
    have hpre := hcount c hc t hget
    rw [List.countP_append, countP_live hw hget hbefore]
    have hroom := hready.2
    dsimp only
    omega
  | none =>
    rw [hget] at hready
    obtain ⟨i, hi⟩ := hready
    refine .inr ⟨i, hi, ?_⟩
    have hend := deliver_ended cfg x.world s me f ht
    rw [hdeliver] at hend
    rcases hend with ⟨-, hne, -⟩ | ⟨-, -, done, rest, hcopies, hrest, hdealt⟩
    · exact (hne rfl).elim
    · rw [hrest rfl, List.append_nil] at hcopies
      show (i, c.1) ∈ ((handle cfg s f).exec x.world).2.pending
      rw [hstep, hpending, hdealt.pending, ← hcopies, mem_queueAll]
      refine .inr ⟨by simp [queueId, hm, hi, Except.toOption], ?_⟩
      exact List.mem_map.mpr ⟨c, List.mem_filter.mpr ⟨hc, by simp [hget]⟩, rfl⟩

end Hub

/-! ## A connection that is closed and still registered -/

namespace Sample

/-- `a` and `b` log in; then `b`'s connection closes, from wherever. -/
def closing : List Turn :=
  [.call (register "a"), .call (register "b"), .call (login 0 "a"), .call (login 1 "b"), .close 1]

/-- The same, and its reader has said so. -/
def gone : List Turn := closing ++ [.call (.hangup 1)]

/-- What `a` then writes to `b`. -/
def parcel : Frame :=
  { type := .msg, target := .str "b", body := .str "hi", nonce := .str "n", id := .str "i", ts := 5 }

/-- The states they lead to. -/
def after (ts : List Turn) [Runtime] : Hub := ts.foldl (Hub.turn chatServer) { world := fresh }

end Sample

/-- A list of turns leads somewhere. -/
theorem Hub.reached_foldl [Runtime] (cfg : Config) (x₀ : Hub) (ts : List Turn) :
    Hub.Reached cfg x₀ (ts.foldl (Hub.turn cfg) x₀) := by
  suffices h : ∀ x, Hub.Reached cfg x₀ x → Hub.Reached cfg x₀ (ts.foldl (Hub.turn cfg) x) from
    h x₀ .start
  induction ts with
  | nil => exact fun x hx => hx
  | cons t ts ih => exact fun x hx => ih _ (hx.turn t)

section Concrete

open Sample

attribute [local instance] sampleRuntime

/-- Before the reader has said that `b` is gone, the message is acknowledged and
lost: it is in no open outbox and nobody is queued. -/
theorem closing_loses :
    Hub.Reached chatServer { world := fresh } (after closing) ∧
      (after closing).world.username 0 = some (.str "a") ∧
      (after closing).world.messages = [] ∧
      (∃ d ∈ (Step.of chatServer (after closing).world (.frame 0 parcel)).out,
        d.frame.type = .ack) ∧
      ¬ ∀ c ∈ copies (after closing).world (.str "a") parcel "b",
        InOutboxOrQueue (after closing) ((after closing).turn chatServer (.call (.frame 0 parcel)))
          parcel.id c := by
  refine ⟨Hub.reached_foldl chatServer _ closing, by decide +kernel, by decide +kernel,
    by decide +kernel, fun h => ?_⟩
  have hcopy : (Str.ofString "b", outgoing (.str "a") parcel) ∈
      copies (after closing).world (.str "a") parcel "b" := by decide +kernel
  rcases h _ hcopy with ⟨d, hd, hholder, -⟩ | ⟨i, -, hi⟩
  · have hnone : ∀ d ∈ ((after closing).turn chatServer (.call (.frame 0 parcel))).enqueued.drop
        (after closing).enqueued.length, d.holder ≠ some (.str "b") := by decide +kernel
    exact hnone d hd hholder
  · have hnone : ((after closing).turn chatServer (.call (.frame 0 parcel))).world.pending = [] := by
      decide +kernel
    rw [hnone] at hi
    cases hi

/-- Once it has, the message is queued. -/
theorem gone_kept :
    (∃ d ∈ (Step.of chatServer (after gone).world (.frame 0 parcel)).out, d.frame.type = .ack) ∧
      ∀ c ∈ copies (after gone).world (.str "a") parcel "b",
        InOutboxOrQueue (after gone) ((after gone).turn chatServer (.call (.frame 0 parcel))) parcel.id c := by
  have hack : ∃ d ∈ (Step.of chatServer (after gone).world (.frame 0 parcel)).out,
      d.frame.type = .ack := by decide +kernel
  refine ⟨hack, (Hub.reached_foldl chatServer _ gone).kept rfl rfl (by decide +kernel) rfl hack ?_⟩
  have hone : copies (after gone).world (.str "a") parcel "b" =
      [(Str.ofString "b", outgoing (.str "a") parcel)] := by decide +kernel
  have haway : SessionRegistry.get (after gone).world (.str "b") = none := by decide +kernel
  show Reachable chatServer (after gone) (.str "a") parcel "b"
  intro c hc
  rw [hone] at hc
  rw [List.mem_singleton.mp hc, haway]
  exact ⟨"i", by decide +kernel⟩

end Concrete

end Ciphertext
