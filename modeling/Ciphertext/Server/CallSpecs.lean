import Ciphertext.Server.Footprint

/-!
# What each call leaves behind

Two kinds of facts about `exec`. The inversions say everything a successful
write can have done, guards included: a message was stored or its id was
already there, a name was queued or already was. The frame lemmas say that a
call leaves every field of the world alone that it does not name in
`Op.writesTo`, and so does a whole request of a type that never makes such a
call.

The inversions (`record_cases`, `queueFor_cases`, `mark_cases`, `flush_cases` and so on)
are what every later argument about stored data starts from; no other file unfolds a store
method to see what it wrote. The frame lemmas go by two tables, `Op.writesTo` from a call to
the fields it may change and `Field.writers` from a field to the frame types whose handlers
may change it, so a new call needs a line in each and no new proof elsewhere.
-/

namespace Ciphertext

open MessageRouter

/-! ## Binding a parameter -/

/-- A value sqlite accepts as a parameter. -/
def Sql.Binds [Runtime] (v : Json) : Prop := ∃ t, Sql.text v = .ok t

/-- Sqlite binds a string exactly if it can be encoded, and as it is. -/
theorem Sql.str_ok {s t : Str} : Sql.str s = .ok t ↔ s.encodable = true ∧ t = s := by
  unfold Sql.str
  split
  next h => simp [h, eq_comm]
  next h => simp [h]

/-- A name sqlite can store. -/
theorem Sql.str_of_encodable {s : Str} (h : s.encodable = true) : Sql.str s = .ok s :=
  Sql.str_ok.mpr ⟨h, rfl⟩

/-- It binds an integer of 64 bits. -/
theorem Sql.int_ok {n m : Int} : Sql.int n = .ok m ↔ (-2 ^ 63 ≤ n ∧ n < 2 ^ 63) ∧ m = n := by
  unfold Sql.int
  split
  next h => simp only [Except.ok.injEq, h, and_self, true_and]; exact eq_comm
  next h => simp only [reduceCtorEq, h, false_and]

/-- A TEXT column keeps a bound string as it is. -/
theorem Sql.text_str_ok [Runtime] {s : Str} {t : Option Str} :
    Sql.text (.str s) = .ok t ↔ s.encodable = true ∧ t = some s := by
  unfold Sql.text
  cases hs : Sql.str s with
  | error e =>
    have : ¬ s.encodable = true := fun h => by simp [Sql.str, h] at hs
    simp [Except.map, this, hs]
  | ok u =>
    obtain ⟨he, rfl⟩ := Sql.str_ok.mp hs
    simp [Except.map, he, hs, eq_comm]

/-- So a string that can be encoded is kept. -/
theorem Sql.text_of_encodable [Runtime] {s : Str} (h : s.encodable = true) : Sql.text (.str s) = .ok (some s) :=
  Sql.text_str_ok.mpr ⟨h, rfl⟩

/-! ## The writes -/

/-- What `INSERT OR IGNORE` makes of a table whose rows are their own keys. -/
def addOnce {α : Type} [BEq α] (rows : List α) (x : α) : List α :=
  if rows.contains x then rows else rows ++ [x]

/-- `INSERT OR IGNORE` under a key: the rows are the old ones and the new one. -/
theorem mem_addOnce {α : Type} [BEq α] [LawfulBEq α] {rows : List α} {x y : α} :
    y ∈ addOnce rows x ↔ y ∈ rows ∨ y = x := by
  unfold addOnce
  split
  next h =>
    have hx : x ∈ rows := by simpa using h
    exact ⟨.inl, fun hy => hy.elim id fun e => e ▸ hx⟩
  next h => simp

variable [Runtime]

/-- `register` finds the name taken and writes nothing, or appends one account. -/
theorem SqliteUsers.register_cases {w w' : World} {u : Str} {p k : Json} {b : Bool}
    (h : SqliteUsers.register w u p k = .ok (b, w')) :
    u.encodable = true ∧
      ((b = false ∧ w' = w ∧ ∃ a ∈ w.accounts, a.username = u) ∨
        (b = true ∧ (∀ a ∈ w.accounts, a.username ≠ u) ∧ ∃ a, a.username = u ∧
          Sql.text k = .ok a.pubkey ∧ w' = { w with accounts := w.accounts ++ [a] })) := by
  unfold SqliteUsers.register at h
  simp only [Bind.bind, Except.bind, Pure.pure, Except.pure] at h
  split at h
  · cases h
  split at h
  · cases h
  next name hn =>
    obtain ⟨he, rfl⟩ := Sql.str_ok.mp hn
    refine ⟨he, ?_⟩
    split at h
    next ht =>
      cases h
      exact .inl ⟨rfl, rfl, by simpa using ht⟩
    next ht =>
      split at h
      · cases h
      next key hk =>
        cases h
        exact .inr ⟨rfl, by simpa using ht, _, rfl, hk, rfl⟩

omit [Runtime] in
/-- `create` finds the room there, or appends it. -/
theorem SqliteRooms.create_cases {w w' : World} {room : Str} {b : Bool}
    (h : SqliteRooms.create w room = .ok (b, w')) :
    room.encodable = true ∧ ((b = false ∧ w' = w ∧ room ∈ w.rooms) ∨
      (b = true ∧ room ∉ w.rooms ∧ w' = { w with rooms := w.rooms ++ [room] })) := by
  unfold SqliteRooms.create at h
  simp only [Bind.bind, Except.bind, Pure.pure, Except.pure] at h
  split at h
  · cases h
  next r hr =>
    obtain ⟨he, rfl⟩ := Sql.str_ok.mp hr
    refine ⟨he, ?_⟩
    split at h <;> cases h
    next hc => exact .inl ⟨rfl, rfl, by simpa using hc⟩
    next hc => exact .inr ⟨rfl, by simpa using hc, rfl⟩

/-- `join` writes the room and the membership, each unless it is there; under a name that
sqlite keeps as NULL the room alone. -/
theorem SqliteRooms.join_cases {w w' : World} {room : Str} {u : Json}
    (h : SqliteRooms.join w room u = .ok w') :
    room.encodable = true ∧
      ((Sql.text u = .ok none ∧ w' = { w with rooms := addOnce w.rooms room }) ∨
        ∃ name, Sql.text u = .ok (some name) ∧
          w' = { w with
            rooms := addOnce w.rooms room
            memberships := addOnce w.memberships (room, name) }) := by
  unfold SqliteRooms.join at h
  simp only [Bind.bind, Except.bind, Pure.pure, Except.pure] at h
  split at h
  · cases h
  next r hr =>
    obtain ⟨he, rfl⟩ := Sql.str_ok.mp hr
    refine ⟨he, ?_⟩
    split at h
    · cases h
    next t ht =>
      cases t with
      | none =>
        cases h
        exact .inl ⟨ht, rfl⟩
      | some name =>
        refine .inr ⟨name, ht, ?_⟩
        dsimp only at h
        split at h <;> cases h <;> simp_all [addOnce]

/-- `leave` takes the membership out; the room stays. -/
theorem SqliteRooms.leave_cases {w w' : World} {room : Str} {u : Json}
    (h : SqliteRooms.leave w room u = .ok w') :
    room.encodable = true ∧ ∃ name, Sql.text u = .ok name ∧
      w' = { w with
        memberships := w.memberships.filter fun m => !(m.1 == room && some m.2 == name) } := by
  unfold SqliteRooms.leave at h
  simp only [Bind.bind, Except.bind, Pure.pure, Except.pure] at h
  split at h
  · cases h
  next r hr =>
    obtain ⟨he, rfl⟩ := Sql.str_ok.mp hr
    refine ⟨he, ?_⟩
    split at h
    · cases h
    next t ht =>
      cases h
      exact ⟨t, ht, rfl⟩

/-- A row with the given values, not yet delivered to anybody. -/
structure Row.Holds (r : Row) (id : Json) (conversation : Str) (sender : Json) (recipient : Str)
    (body nonce : Json) (ts : Int) : Prop where
  id : Sql.text id = .ok r.id
  conversation : r.conversation = conversation
  sender : Sql.text sender = .ok (some r.sender)
  recipient : r.recipient = recipient
  body : Sql.text body = .ok r.body
  nonce : Sql.text nonce = .ok r.nonce
  ts : r.ts = ts
  deliveredAt : r.deliveredAt = none
  readAt : r.readAt = none

/-- No stored message has this id; the `NULL` id never counts as taken. -/
def World.fresh (w : World) (id : Option Str) : Prop :=
  id = none ∨ ∀ r ∈ w.messages, r.id ≠ id

/-- `record` leaves a known id alone, or appends one row that holds what it was given. -/
theorem MessageStore.record_cases {w w' : World} {id sender body nonce : Json}
    {conversation recipient : Str} {ts : Int}
    (h : MessageStore.record w id conversation sender recipient body nonce ts = .ok w') :
    (w' = w ∧ (Sql.text sender = .ok none ∨ ∃ t, Sql.text id = .ok t ∧ ¬ w.fresh t)) ∨
      ∃ row : Row, row.Holds id conversation sender recipient body nonce ts ∧ w.fresh row.id ∧
        recipient.encodable = true ∧ w' = { w with messages := w.messages ++ [row] } := by
  unfold MessageStore.record at h
  simp only [Bind.bind, Except.bind, Pure.pure, Except.pure] at h
  split at h
  · cases h
  next t ht =>
  split at h
  · cases h
  next c hc =>
  split at h
  · cases h
  next s hs =>
  split at h
  · cases h
  next r hr =>
  split at h
  · cases h
  next b hb =>
  split at h
  · cases h
  next n hn =>
  split at h
  · cases h
  next ts' hts =>
    obtain ⟨-, rfl⟩ := Sql.str_ok.mp hc
    obtain ⟨hre, rfl⟩ := Sql.str_ok.mp hr
    obtain ⟨-, rfl⟩ := Sql.int_ok.mp hts
    cases s with
    | none =>
      cases h
      exact .inl ⟨rfl, .inl hs⟩
    | some s =>
      dsimp only at h
      split at h <;> cases h
      next hdup =>
        simp only [Bool.and_eq_true, List.any_eq_true, beq_iff_eq] at hdup
        obtain ⟨hsome, x, hx, hxt⟩ := hdup
        refine .inl ⟨rfl, .inr ⟨t, ht, ?_⟩⟩
        rintro (rfl | hf)
        · simp at hsome
        · exact hf x hx hxt
      next hnew =>
        refine .inr ⟨_, ⟨ht, rfl, hs, rfl, hb, hn, rfl, rfl, rfl⟩, ?_, hre, rfl⟩
        simp only [Bool.and_eq_true, List.any_eq_true, beq_iff_eq, not_and, not_exists] at hnew
        cases t with
        | none => exact .inl rfl
        | some t => exact .inr (hnew rfl)

/-- `queue_for` adds one entry to the queue, unless it is there or the id is NULL. -/
theorem MessageStore.queueFor_cases {w w' : World} {u : Str} {id : Json}
    (h : MessageStore.queueFor w u id = .ok w') :
    u.encodable = true ∧ ((Sql.text id = .ok none ∧ w' = w) ∨
      ∃ t, Sql.text id = .ok (some t) ∧
        w' = { w with pending := addOnce w.pending (t, u) }) := by
  unfold MessageStore.queueFor at h
  simp only [Bind.bind, Except.bind, Pure.pure, Except.pure] at h
  split at h
  · cases h
  next t ht =>
    split at h
    · cases h
    next v hv =>
      obtain ⟨he, rfl⟩ := Sql.str_ok.mp hv
      refine ⟨he, ?_⟩
      cases t with
      | none =>
        cases h
        exact .inl ⟨ht, rfl⟩
      | some t =>
        refine .inr ⟨t, ht, ?_⟩
        dsimp only at h
        split at h <;> cases h <;> simp_all [addOnce]

/-- The messages after a receipt on one of them. -/
def markAll (rows : List Row) (id state : Str) (now : Int) : List Row :=
  rows.map fun r => if r.id = some id then MessageStore.markRow r state now else r

omit [Runtime] in
/-- `mark` finds no row of the id, or stamps its row and answers the sender. -/
theorem MessageStore.mark_cases {w w' : World} {id state : Str} {now : Int} {sender : Option Str}
    (h : MessageStore.mark w id state now = .ok (sender, w')) :
    id.encodable = true ∧
      ((sender = none ∧ w' = w ∧ ∀ r ∈ w.messages, r.id ≠ some id) ∨
        ∃ row, w.messages.find? (fun r => r.id == some id) = some row ∧ sender = some row.sender ∧
          w' = { w with messages := markAll w.messages id state now }) := by
  unfold MessageStore.mark at h
  simp only [Bind.bind, Except.bind, Pure.pure, Except.pure] at h
  split at h
  · cases h
  next t ht =>
    obtain ⟨he, rfl⟩ := Sql.str_ok.mp ht
    refine ⟨he, ?_⟩
    split at h <;> cases h
    next hf => exact .inl ⟨rfl, rfl, by simpa using hf⟩
    next row hf => exact .inr ⟨row, hf, rfl, rfl⟩

/-- `flush` hands out what is queued for the name and empties its queue. -/
theorem MessageStore.flush_cases {w w' : World} {u : Json} {rows : List Row}
    (h : MessageStore.flush w u = .ok (rows, w')) :
    (Sql.text u = .ok none ∧ rows = [] ∧ w' = w) ∨
      ∃ name, Sql.text u = .ok (some name) ∧ rows = MessageStore.queued w name ∧
        w' = { w with pending := w.pending.filter fun p => p.2 != name } := by
  unfold MessageStore.flush at h
  simp only [Bind.bind, Except.bind, Pure.pure, Except.pure] at h
  split at h
  · cases h
  next t ht =>
    cases t with
    | none =>
      cases h
      exact .inl ⟨ht, rfl, rfl⟩
    | some name =>
      cases h
      exact .inr ⟨name, ht, rfl, rfl⟩

/-- `add` writes nothing for a pair that is there or for oneself, or appends the pair. -/
theorem SqliteContacts.add_cases {w w' : World} {owner contact : Json} {b : Bool}
    (h : SqliteContacts.add w owner contact = .ok (b, w')) :
    (b = false ∧ w' = w) ∨ ∃ o c, Sql.text owner = .ok (some o) ∧ Sql.text contact = .ok (some c) ∧
      owner.pyEq contact = false ∧ (o, c) ∉ w.contacts ∧ b = true ∧
      w' = { w with contacts := w.contacts ++ [(o, c)] } := by
  unfold SqliteContacts.add at h
  simp only [Bind.bind, Except.bind, Pure.pure, Except.pure] at h
  split at h
  · cases h
    exact .inl ⟨rfl, rfl⟩
  next hne =>
    simp only [Bool.or_eq_true, Bool.not_eq_true', not_or, Bool.not_eq_true] at hne
    split at h
    · cases h
    next o ho =>
      split at h
      · cases h
      next c hc =>
        cases o with
        | none => cases h; exact .inl ⟨rfl, rfl⟩
        | some o =>
          cases c with
          | none => cases h; exact .inl ⟨rfl, rfl⟩
          | some c =>
            dsimp only at h
            split at h <;> cases h
            · exact .inl ⟨rfl, rfl⟩
            next hnew => exact .inr ⟨o, c, ho, hc, hne.2, by simpa using hnew, rfl, rfl⟩

/-- `remove` takes the pair out. -/
theorem SqliteContacts.remove_cases {w w' : World} {owner contact : Json}
    (h : SqliteContacts.remove w owner contact = .ok w') :
    ∃ o c, Sql.text owner = .ok o ∧ Sql.text contact = .ok c ∧
      w' = { w with contacts := w.contacts.filter fun x => !(some x.1 == o && some x.2 == c) } := by
  unfold SqliteContacts.remove at h
  simp only [Bind.bind, Except.bind, Pure.pure, Except.pure] at h
  split at h
  · cases h
  next o ho =>
    split at h
    · cases h
    next c hc =>
      cases h
      exact ⟨o, c, ho, hc, rfl⟩

/-! ## The fields a call can change -/

/-- The parts of the world that requests change, and the supplies they only
draw from. -/
inductive Field where
  | accounts
  | rooms
  | memberships
  | messages
  | pending
  | contacts
  | online
  | username
  | sent
  | supplies
deriving DecidableEq

/-- The fields of the world that a call may change. -/
def Op.writesTo : Op → List Field
  | .send _ _ => [.sent]
  | .setUsername _ _ => [.username]
  | .sessionsLogin _ _ => [.online]
  | .sessionsLogout _ => [.online]
  | .usersRegister _ _ _ => [.accounts]
  | .roomsCreate _ => [.rooms]
  | .roomsJoin _ _ => [.rooms, .memberships]
  | .roomsLeave _ _ => [.memberships]
  | .messagesRecord _ _ _ _ _ _ _ => [.messages]
  | .messagesQueueFor _ _ => [.pending]
  | .messagesMark _ _ _ => [.messages]
  | .messagesFlush _ => [.pending]
  | .contactsAdd _ _ => [.contacts]
  | .contactsRemove _ _ => [.contacts]
  | _ => []

/-- Two worlds that agree on a field. -/
def Field.Same : Field → World → World → Prop
  | .accounts, w, w' => w'.accounts = w.accounts
  | .rooms, w, w' => w'.rooms = w.rooms
  | .memberships, w, w' => w'.memberships = w.memberships
  | .messages, w, w' => w'.messages = w.messages
  | .pending, w, w' => w'.pending = w.pending
  | .contacts, w, w' => w'.contacts = w.contacts
  | .online, w, w' => w'.online = w.online
  | .username, w, w' => w'.username = w.username
  | .sent, w, w' => w'.sent = w.sent
  | .supplies, w, w' => (w'.uuid, w'.clock, w'.salt) = (w.uuid, w.clock, w.salt)

omit [Runtime] in
/-- Nothing is changed by nothing, -/
theorem Field.same_refl (x : Field) (w : World) : x.Same w w := by
  cases x <;> rfl

omit [Runtime] in
/-- and two that leave a field alone leave it alone together. -/
theorem Field.Same.trans {x : Field} {w w' w'' : World} (h : x.Same w w') (h' : x.Same w' w'') :
    x.Same w w'' := by
  cases x <;> exact Eq.trans h' h

omit [Runtime] in
/-- A transaction leaves what its success leaves. -/
theorem commit_same {α : Type} {w : World} {x : Field} {e : Except PyErr (α × World)}
    (h : ∀ a w', e = .ok (a, w') → x.Same w w') : x.Same w (commit w e).2 := by
  cases e with
  | error _ => exact x.same_refl w
  | ok r => exact h r.1 r.2 rfl

omit [Runtime] in
/-- A write that raises changes nothing, so only the one that returns need be looked at. -/
theorem commit'_same {w : World} {x : Field} {e : Except PyErr World}
    (h : ∀ w', e = .ok w' → x.Same w w') : x.Same w (commit' w e).2 := by
  cases e with
  | error _ => exact x.same_refl w
  | ok w' => exact h w' rfl

/-- A call changes no field it does not write to. -/
theorem exec_same (o : Op) (w : World) {x : Field} (h : x ∉ o.writesTo) :
    x.Same w (exec o w).2 := by
  cases o with
  | send s f => cases x <;> first | rfl | simp [Op.writesTo] at h
  | setUsername s u => cases x <;> first | rfl | simp [Op.writesTo] at h
  | sessionsLogin u s =>
    simp only [exec, SessionRegistry.login]
    split <;> cases x <;> first | rfl | simp [Op.writesTo] at h
  | sessionsLogout u => cases x <;> first | rfl | simp [Op.writesTo] at h
  | usersRegister u p k =>
    refine commit_same fun b w' hw => ?_
    obtain ⟨-, ⟨-, rfl, -⟩ | ⟨-, -, a, -, -, rfl⟩⟩ := SqliteUsers.register_cases hw
    · exact x.same_refl _
    · cases x <;> first | rfl | simp [Op.writesTo] at h
  | roomsCreate room =>
    refine commit_same fun b w' hw => ?_
    obtain ⟨-, ⟨-, rfl, -⟩ | ⟨-, -, rfl⟩⟩ := SqliteRooms.create_cases hw
    · exact x.same_refl _
    · cases x <;> first | rfl | simp [Op.writesTo] at h
  | roomsJoin room u =>
    refine commit'_same fun w' hw => ?_
    obtain ⟨-, ⟨-, rfl⟩ | ⟨name, -, rfl⟩⟩ := SqliteRooms.join_cases hw <;>
      cases x <;> first | rfl | simp [Op.writesTo] at h
  | roomsLeave room u =>
    refine commit'_same fun w' hw => ?_
    obtain ⟨-, name, -, rfl⟩ := SqliteRooms.leave_cases hw
    cases x <;> first | rfl | simp [Op.writesTo] at h
  | messagesRecord id conversation sender recipient body nonce ts =>
    refine commit'_same fun w' hw => ?_
    obtain ⟨rfl, -⟩ | ⟨row, -, -, -, rfl⟩ := MessageStore.record_cases hw
    · exact x.same_refl _
    · cases x <;> first | rfl | simp [Op.writesTo] at h
  | messagesQueueFor u id =>
    refine commit'_same fun w' hw => ?_
    obtain ⟨-, ⟨-, rfl⟩ | ⟨t, -, rfl⟩⟩ := MessageStore.queueFor_cases hw
    · exact x.same_refl _
    · cases x <;> first | rfl | simp [Op.writesTo] at h
  | messagesMark id state now =>
    refine commit_same fun b w' hw => ?_
    obtain ⟨-, ⟨-, rfl, -⟩ | ⟨row, -, -, rfl⟩⟩ := MessageStore.mark_cases hw
    · exact x.same_refl _
    · cases x <;> first | rfl | simp [Op.writesTo] at h
  | messagesFlush u =>
    refine commit_same fun b w' hw => ?_
    obtain ⟨-, -, rfl⟩ | ⟨name, -, -, rfl⟩ := MessageStore.flush_cases hw
    · exact x.same_refl _
    · cases x <;> first | rfl | simp [Op.writesTo] at h
  | contactsAdd owner contact =>
    refine commit_same fun b w' hw => ?_
    obtain ⟨-, rfl⟩ | ⟨a, c, -, -, -, -, -, rfl⟩ := SqliteContacts.add_cases hw
    · exact x.same_refl _
    · cases x <;> first | rfl | simp [Op.writesTo] at h
  | contactsRemove owner contact =>
    refine commit'_same fun w' hw => ?_
    obtain ⟨o, c, -, -, rfl⟩ := SqliteContacts.remove_cases hw
    cases x <;> first | rfl | simp [Op.writesTo] at h
  | newId => cases x <;> rfl
  | nowMs => cases x <;> rfl
  | _ => exact x.same_refl w

/-! ## The fields a request can change -/

/-- The fields a request of each type may change, besides the outboxes. -/
def MessageType.fields : MessageType → List Field
  | .register => [.accounts]
  | .login => [.online, .username, .pending]
  | .msg => [.messages, .pending, .contacts]
  | .createRoom => [.rooms, .memberships]
  | .invite => [.rooms, .memberships]
  | .join => [.rooms, .memberships]
  | .leave => [.memberships]
  | .addContact => [.contacts]
  | .removeContact => [.contacts]
  | .receipt => [.messages]
  | _ => []

omit [Runtime] in
/-- What a frame type may write lies in the fields of the type. -/
theorem MessageType.writes_fields {t : MessageType} {o : Op} (h : t.writes o = true) :
    o.writesTo ⊆ t.fields := by
  unfold MessageType.writes at h
  split at h
  all_goals first
    -- what is not in the table
    | exact absurd h Bool.false_ne_true
    | simp [Op.writesTo, MessageType.fields]

omit [Runtime] in
/-- So everything it calls writes there, or puts a frame in an outbox. -/
theorem typePrint_writesTo {t : MessageType} {o : Op} (h : (typePrint t).allows o) {x : Field}
    (hx : x ∈ o.writesTo) : x = .sent ∨ x ∈ t.fields := by
  rcases h with hq | hw | ⟨s, f, rfl, -⟩
  · cases o <;> simp [Op.quiet, Op.writesTo] at hq hx
  · exact .inr (MessageType.writes_fields hw hx)
  · simp only [Op.writesTo, List.mem_cons, List.not_mem_nil, or_false] at hx
    exact .inl hx

/-- The types of request that may write a field. -/
def Field.writers : Field → List MessageType
  | .accounts => [.register]
  | .rooms => [.createRoom, .invite, .join]
  | .memberships => [.createRoom, .invite, .join, .leave]
  | .messages => [.msg, .receipt]
  | .pending => [.login, .msg]
  | .contacts => [.msg, .addContact, .removeContact]
  | .online => [.login]
  | .username => [.login]
  | .sent => []
  | .supplies => []

omit [Runtime] in
/-- The two tables, by type and by field, are one. -/
theorem MessageType.mem_fields {t : MessageType} {x : Field} : x ∈ t.fields ↔ t ∈ x.writers := by
  have htable : t.fields.contains x = x.writers.contains t := by
    cases x <;> cases t <;> rfl
  rw [← List.contains_iff_mem, htable, List.contains_iff_mem]

/-- A request leaves every other field alone, also when it raises. -/
theorem handle_same (cfg : Config) (s : Sid) (f : Frame) (w : World) {x : Field}
    (hs : x ≠ .sent) (hx : x ∉ f.type.fields) : x.Same w ((handle cfg s f).exec w).2 := by
  refine (Prog.Uses.keeps (I := fun w' => x.Same w w') (handle_uses cfg s f) ?_ w
    (x.same_refl w)).1
  intro o ho w' hw'
  refine hw'.trans (exec_same o w' fun hm => ?_)
  rcases typePrint_writesTo ho hm with h | h
  · exact hs h
  · exact hx h

/-- A hangup leaves everything alone but who is online and the outboxes. -/
theorem onDisconnect_same (s : Sid) (w : World) {x : Field} (hs : x ≠ .sent) (ho : x ≠ .online)
    (hu : x ≠ .username) : x.Same w ((onDisconnect s).exec w).2 := by
  refine (Prog.Uses.keeps (I := fun w' => x.Same w w') (onDisconnect_uses s) ?_ w
    (x.same_refl w)).1
  intro o hallow w' hw'
  refine hw'.trans (exec_same o w' fun hm => ?_)
  rcases hallow with hq | (⟨_, rfl⟩ | rfl) | ⟨t, g, rfl, -⟩
  · cases o <;> simp [Op.quiet, Op.writesTo] at hq hm
  all_goals simp only [Op.writesTo, List.mem_cons, List.not_mem_nil, or_false] at hm
  · exact ho hm
  · exact hu hm
  · exact hs hm

end Ciphertext
