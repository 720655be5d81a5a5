import Ciphertext.Server.Registry

/-!
# Handlers that return

A handler raises at a value it was handed that is not what the code takes it
for: a target without string methods, a name sqlite cannot store, a stored body
that is no map. Some of these values come from the frame and some were let in
by an earlier frame. `ReadsBack` is what the world must be like for the second kind
not to occur; the lemmas below say, handler by handler, what the frame must be
like on top of that, and that the world stays as it must be.

Most handlers leave the accounts, the rooms and the connections as they found
them. For these `Returns w₀` is the judgement: they return, and the world still
agrees with `w₀` on all that, so that what a frame was checked against is still true
when it is used. Those that do change them (`register_safe`, `login_safe`,
`onDisconnect_safe`) have `Total exec (At w₀)`, which says only that the world is still
one that can be read back.

`RegisterFine`, `LoginFine` and so on are what is asked of the frames. They are on the
world before the frame, and `NoRaise` turns them into a condition per input under which
`MessageRouter.handle` never raises (`Run.never_raises`); the handlers of rooms and
messages are there.
-/

namespace Ciphertext

open Prog MessageRouter

variable [Runtime]

/-! ## The invariant -/

omit [Runtime] in
/-- A string that can be stored. -/
def Json.IsName (v : Json) : Prop := ∃ n, v = .str n ∧ n.encodable = true

/-- Content that every reader can be shown or denied: the marker stands only
over something that is a map, or that does not parse. -/
def legible (body nonce : Option Str) : Prop :=
  nonce = some envelopes →
    match Runtime.loads (if (body.getD []).isEmpty then "\x7b\x7d" else body.getD []) with
    | .ok (.dict _) => True
    | .error .valueError => True
    | _ => False

/-- **What has been let in can be read back**: those who are online have names that can be
stored, the members of rooms can be compared, and what is stored of a message can be shown
or denied to any reader. -/
structure ReadsBack (w : World) : Prop where
  online : ∀ e ∈ w.online, e.1.IsName
  username : ∀ s u, w.username s = some u → u.IsName
  members : ∀ m ∈ w.memberships, m.2.encodable = true
  rows : ∀ r ∈ w.messages, legible r.body r.nonce

/-- What most handlers leave alone. -/
structure LeftAlone (w₀ w : World) : Prop where
  accounts : w.accounts = w₀.accounts
  rooms : w.rooms = w₀.rooms
  memberships : w.memberships = w₀.memberships
  online : w.online = w₀.online
  username : w.username = w₀.username
  taken : ∀ t, w.fresh t → w₀.fresh t

/-- A world that reads back and agrees with `w₀`. -/
structure At (w₀ w : World) : Prop where
  readsBack : ReadsBack w
  leftAlone : LeftAlone w₀ w

/-- At the start nothing has changed. -/
theorem ReadsBack.at {w : World} (h : ReadsBack w) : At w w := ⟨h, rfl, rfl, rfl, rfl, rfl, fun _ => id⟩

/-- The handler returns, keeps a world that reads back and leaves alone what `w₀`
says. -/
def Returns {α : Type} (w₀ : World) (p : RouterM α) (P : α → Prop) : Prop :=
  Total exec (At w₀) p fun a w => P a ∧ At w₀ w

section Rules

variable {α β : Type} {w₀ : World} {P : α → Prop} {Q : β → Prop}

/-- A result is returned. -/
theorem returns_pure {a : α} (h : P a) : Returns w₀ (.pure a) P := total_pure fun _ hw => ⟨h, hw⟩

/-- One after the other: what the first returns the second may rely on. -/
theorem Returns.bind {p : RouterM α} {f : α → RouterM β} (hp : Returns w₀ p P)
    (hf : ∀ a, P a → Returns w₀ (f a) Q) : Returns w₀ (p >>= f) Q :=
  Total.bind hp fun a w hw => hf a hw.1 w hw.2

/-- A weaker thing to know of the result. -/
theorem Returns.mono {p : RouterM α} {P' : α → Prop} (hp : Returns w₀ p P)
    (h : ∀ a, P a → P' a) : Returns w₀ p P' :=
  hp.conseq (fun _ hw => hw) fun a _ ha => ⟨h a ha.1, ha.2⟩

/-- A computation that does not raise. -/
theorem returns_lift {e : Except PyErr α} {a : α} (he : e = .ok a) (h : P a) :
    Returns w₀ (lift e) P := by
  rw [he]
  exact returns_pure h

/-- A loop returns if its body does, for every element. -/
theorem returns_forEach {xs : List β} {f : β → RouterM Unit}
    (h : ∀ x ∈ xs, Returns w₀ (f x) fun _ => True) : Returns w₀ (forEach xs f) fun _ => True :=
  (total_forEach fun x hx => (h x hx).conseq (fun _ hw => hw) fun _ _ hw => hw.2).conseq
    (fun _ hw => hw) fun _ _ hw => ⟨trivial, hw⟩

/-- A part of a handler that returns from wherever a world that reads back has got to. -/
theorem Returns.rest {p : RouterM α} {P : World → α → Prop}
    (h : ∀ w, ReadsBack w → Returns w p (P w)) : Total exec ReadsBack p fun _ => ReadsBack := by
  intro w hw
  obtain ⟨a, w', hrun, -, hat⟩ := h w hw w hw.at
  exact ⟨a, w', hrun, hat.readsBack⟩

/-- A handler that leaves the world as `w₀` says leaves one that reads back. -/
theorem Returns.safe {p : RouterM α} (h : Returns w₀ p P) : Total exec (At w₀) p fun _ => ReadsBack :=
  h.conseq (fun _ hw => hw) fun _ _ hw => hw.2.readsBack

/-- A call that touches neither the stored messages nor what `w₀` speaks of. -/
theorem returns_call {o : Op} {P : Op.Ret o → Prop}
    (ho : ∀ x ∈ o.writesTo, x ∈ [Field.pending, .contacts, .sent])
    (h : ∀ w, At w₀ w → ∃ r, (exec o w).1 = .ok r ∧ P r) :
    Returns w₀ (Prog.call (S := routerSig) o .pure) P := by
  refine total_call (S := routerSig) fun w hw => ?_
  obtain ⟨r, hr, hP⟩ := h w hw
  have hsame : ∀ x : Field, x ∉ [Field.pending, .contacts, .sent] → x.Same w (exec o w).2 :=
    fun x hx => exec_same o w fun hm => hx (ho x hm)
  have hmem : (exec o w).2.memberships = w.memberships := hsame .memberships (by simp)
  have hon : (exec o w).2.online = w.online := hsame .online (by simp)
  have hun : (exec o w).2.username = w.username := hsame .username (by simp)
  have hmsg : (exec o w).2.messages = w.messages := hsame .messages (by simp)
  have hacc : (exec o w).2.accounts = w.accounts := hsame .accounts (by simp)
  have hroom : (exec o w).2.rooms = w.rooms := hsame .rooms (by simp)
  refine ⟨r, (exec o w).2, Prod.ext hr rfl, hP, ⟨?_, ?_, ?_, ?_⟩, ?_⟩
  · rw [hon]
    exact hw.readsBack.online
  · rw [hun]
    exact hw.readsBack.username
  · rw [hmem]
    exact hw.readsBack.members
  · rw [hmsg]
    exact hw.readsBack.rows
  · obtain ⟨ha, hr, hm, ho, hu, ht⟩ := hw.leftAlone
    refine ⟨hacc.trans ha, hroom.trans hr, hmem.trans hm, hon.trans ho, hun.trans hu, ?_⟩
    unfold World.fresh
    rw [hmsg]
    exact ht

end Rules

/-! ## The calls -/

/-- A name is bound as text. -/
theorem Json.IsName.text {v : Json} (h : v.IsName) : ∃ n, v = .str n ∧ Sql.text v = .ok (some n) := by
  obtain ⟨n, rfl, he⟩ := h
  exact ⟨n, rfl, Sql.text_of_encodable he⟩

omit [Runtime] in
/-- What is missing is read as the empty string. -/
theorem isName_orEmpty {v : Json} (h : v = .null ∨ v.IsName) : (orEmpty v).IsName := by
  rcases h with rfl | ⟨n, rfl, he⟩
  · exact ⟨[], rfl, rfl⟩
  · unfold orEmpty Json.orElse
    split
    · exact ⟨n, rfl, he⟩
    · exact ⟨[], rfl, rfl⟩

section Calls

variable {w₀ : World}

/-- Sending never raises: a full outbox closes the connection. -/
theorem send_returns (s : Sid) (f : Frame) : Returns w₀ (send s f) fun _ => True :=
  returns_call (by simp [Op.writesTo]) fun _ _ => ⟨(), rfl, trivial⟩

/-- Making a frame draws an id and the time. -/
theorem frame_returns (type : MessageType) (sender target : Json) (data : Dict) :
    Returns w₀ (frame type sender target data) fun _ => True := by
  unfold frame
  refine Returns.bind (P := fun _ => True)
    (returns_call (by simp [Op.writesTo]) fun w _ => ⟨_, rfl, trivial⟩) fun id _ => ?_
  refine Returns.bind (P := fun _ => True)
    (returns_call (by simp [Op.writesTo]) fun w _ => ⟨_, rfl, trivial⟩) fun ts _ => ?_
  exact returns_pure trivial

/-- A refusal is a frame that is made and sent. -/
theorem refuse_returns (s : Sid) (code message : Str) :
    Returns w₀ (refuse s code message) fun _ => True :=
  Returns.bind (frame_returns _ _ _ _) fun _ _ => send_returns _ _

/-- Who is logged in on the connection, -/
theorem getUsername_returns (s : Sid) :
    Returns w₀ (getUsername s) fun u => u = w₀.username s :=
  returns_call (by simp [Op.writesTo]) fun _ hw => ⟨_, rfl, congrFun hw.leftAlone.username s⟩

/-- on which connection somebody is online, -/
theorem sessionsGet_returns (u : Json) :
    Returns w₀ (sessionsGet u) fun t => t = SessionRegistry.get w₀ u := by
  refine returns_call (by simp [Op.writesTo]) fun w hw => ⟨_, rfl, ?_⟩
  unfold SessionRegistry.get
  rw [hw.leftAlone.online]

/-- and who else is, are questions that are answered. -/
theorem sessionsOthers_returns (u : Json) : Returns w₀ (sessionsOthers u) fun _ => True :=
  returns_call (by simp [Op.writesTo]) fun _ _ => ⟨_, rfl, trivial⟩

/-- Sorting the names online compares text with text. -/
theorem sessionsUsernames_returns : Returns w₀ sessionsUsernames fun _ => True := by
  refine returns_call (by simp [Op.writesTo]) fun w hw => ?_
  have hall : ((w.online.map Prod.fst).all fun v => v.asStr.isSome) = true := by
    rw [List.all_eq_true]
    intro v hv
    obtain ⟨e, he, rfl⟩ := List.mem_map.mp hv
    obtain ⟨n, hn, -⟩ := hw.readsBack.online e he
    rw [hn]
    rfl
  show ∃ r, Json.sortedNames (w.online.map Prod.fst) = .ok r ∧ True
  unfold Json.sortedNames
  rw [if_pos hall]
  split <;> exact ⟨_, rfl, trivial⟩

/-- A name that can be encoded can be looked up, -/
theorem usersExists_returns {u : Str} (h : u.encodable = true) :
    Returns w₀ (usersExists u) fun b => b = true ↔ ∃ a ∈ w₀.accounts, a.username = u := by
  refine returns_call (by simp [Op.writesTo]) fun w hw =>
    ⟨w.accounts.any fun a => a.username == u, ?_, ?_⟩
  · simp [exec, SqliteUsers.exists', Sql.str_of_encodable h, Bind.bind, Except.bind, Pure.pure, Except.pure]
  · simp [hw.leftAlone.accounts]

/-- its key can, -/
theorem usersPubkey_returns {u : Str} (h : u.encodable = true) :
    Returns w₀ (usersPubkey u) fun _ => True := by
  refine returns_call (by simp [Op.writesTo]) fun w hw => ?_
  simp only [exec, SqliteUsers.pubkey, Sql.str_of_encodable h, Bind.bind, Except.bind, Pure.pure, Except.pure]
  exact ⟨_, rfl, trivial⟩

/-- and its password, if the hash is a string; the answer is what `verify` says of the world
at the start. -/
theorem usersVerify_returns {u p : Json} (hu : Sql.Binds u) (hp : p.IsName) :
    Returns w₀ (usersVerify u p) fun b => SqliteUsers.verify w₀ u p = .ok b := by
  refine returns_call (by simp [Op.writesTo]) fun w hw => ?_
  obtain ⟨t, ht⟩ := hu
  obtain ⟨q, rfl, hq⟩ := hp
  have hd : ∀ salt, SqliteUsers.derive (.str q) salt = .ok (Runtime.scrypt q salt) :=
    fun salt => by simp [SqliteUsers.derive, hq]
  have hv : SqliteUsers.verify w u (.str q) = SqliteUsers.verify w₀ u (.str q) := by
    unfold SqliteUsers.verify
    rw [hw.leftAlone.accounts]
  show ∃ b, SqliteUsers.verify w u (.str q) = .ok b ∧ SqliteUsers.verify w₀ u (.str q) = .ok b
  rw [hv]
  unfold SqliteUsers.verify
  simp only [ht, hd, Bind.bind, Except.bind, Pure.pure, Except.pure]
  split <;> exact ⟨_, rfl, rfl⟩

/-- A room's name that can be encoded can be looked up, -/
theorem roomsExists_returns {room : Str} (h : room.encodable = true) :
    Returns w₀ (roomsExists room) fun b => b = true ↔ room ∈ w₀.rooms := by
  refine returns_call (by simp [Op.writesTo]) fun w hw => ⟨w.rooms.contains room, ?_, ?_⟩
  · simp [exec, SqliteRooms.exists', Sql.str_of_encodable h, Bind.bind, Except.bind, Pure.pure, Except.pure]
  · simp [hw.leftAlone.rooms]

/-- and its members can. -/
theorem roomsMembers_returns {room : Str} (h : room.encodable = true) :
    Returns w₀ (roomsMembers room) fun names => names = memberNames w₀ room := by
  refine returns_call (by simp [Op.writesTo]) fun w hw => ⟨memberNames w room, ?_, ?_⟩
  · simp [exec, SqliteRooms.members, memberNames, Sql.str_of_encodable h, Bind.bind, Except.bind, Pure.pure,
      Except.pure]
  · unfold memberNames
    rw [hw.leftAlone.memberships]

/-- The rooms somebody is in can, -/
theorem roomsOf_returns {u : Json} (h : u.IsName) : Returns w₀ (roomsOf u) fun _ => True := by
  refine returns_call (by simp [Op.writesTo]) fun w hw => ?_
  obtain ⟨n, -, ht⟩ := h.text
  simp only [exec, SqliteRooms.roomsOf, ht, Bind.bind, Except.bind, Pure.pure, Except.pure]
  exact ⟨_, rfl, trivial⟩

/-- their contacts can, -/
theorem contactsOf_returns {u : Json} (h : u.IsName) : Returns w₀ (contactsOf u) fun _ => True := by
  refine returns_call (by simp [Op.writesTo]) fun w hw => ?_
  obtain ⟨n, -, ht⟩ := h.text
  simp only [exec, SqliteContacts.of, ht, Bind.bind, Except.bind, Pure.pure, Except.pure]
  exact ⟨_, rfl, trivial⟩

/-- one can be added, -/
theorem contactsAdd_returns {owner contact : Json} (ho : owner.IsName) (hc : contact.IsName) :
    Returns w₀ (contactsAdd owner contact) fun _ => True := by
  refine returns_call (by simp [Op.writesTo]) fun w hw => ?_
  obtain ⟨o, -, hot⟩ := ho.text
  obtain ⟨c, -, hct⟩ := hc.text
  have hadd : ∃ r, SqliteContacts.add w owner contact = .ok r := by
    unfold SqliteContacts.add
    simp only [hot, hct, Bind.bind, Except.bind, Pure.pure, Except.pure]
    split
    · exact ⟨_, rfl⟩
    · split <;> exact ⟨_, rfl⟩
  obtain ⟨r, hr⟩ := hadd
  exact ⟨r.1, by simp [exec, hr, commit], trivial⟩

/-- and one removed. -/
theorem contactsRemove_returns {owner contact : Json} (ho : owner.IsName) (hc : contact.IsName) :
    Returns w₀ (contactsRemove owner contact) fun _ => True := by
  refine returns_call (by simp [Op.writesTo]) fun w hw => ⟨(), ?_, trivial⟩
  obtain ⟨o, -, hot⟩ := ho.text
  obtain ⟨c, -, hct⟩ := hc.text
  simp [exec, SqliteContacts.remove, hot, hct, Bind.bind, Except.bind, Pure.pure, Except.pure,
    commit']

/-- A message is queued under an id sqlite can bind. -/
theorem messagesQueueFor_returns {name : Str} {id : Json} (h : name.encodable = true)
    (hid : Sql.Binds id) : Returns w₀ (messagesQueueFor name id) fun _ => True := by
  refine returns_call (by simp [Op.writesTo]) fun w hw => ⟨(), ?_, trivial⟩
  obtain ⟨t, ht⟩ := hid
  simp only [exec, MessageStore.queueFor, ht, Sql.str_of_encodable h, Bind.bind, Except.bind]
  cases t with
  | none => rfl
  | some t =>
    dsimp only
    split <;> rfl

/-- What is taken from the queue is stored messages. -/
theorem messagesFlush_returns {u : Json} (h : u.IsName) :
    Returns w₀ (messagesFlush u) fun rows => ∀ r ∈ rows, legible r.body r.nonce := by
  refine returns_call (by simp [Op.writesTo]) fun w hw => ?_
  obtain ⟨n, -, ht⟩ := h.text
  refine ⟨MessageStore.queued w n, ?_, fun r hr => hw.readsBack.rows r ?_⟩
  · simp [exec, MessageStore.flush, ht, Bind.bind, Except.bind, Pure.pure, Except.pure, commit]
  · exact (List.mem_filter.mp ((List.mem_insertionSort _).mp hr)).1

/-- A page is read if the bound fits into sqlite's 64 bits, and every row of it can be
shown. -/
theorem messagesHistory_returns {conversation : Str} {before : Option Int} {limit : Int}
    (h : conversation.encodable = true)
    (hb : ∀ n, before = some n → -2 ^ 63 ≤ n ∧ n < 2 ^ 63) :
    Returns w₀ (messagesHistory conversation before limit) fun rows =>
      ∀ r ∈ rows, legible r.body r.nonce := by
  refine returns_call (by simp [Op.writesTo]) fun w hw => ?_
  have hex : ∃ rows, MessageStore.history w conversation before limit = .ok rows := by
    rw [MessageStore.history_eq]
    simp only [Sql.str_of_encodable h, Bind.bind, Except.bind, Pure.pure, Except.pure]
    cases before with
    | none => exact ⟨_, rfl⟩
    | some n =>
      have hn : Sql.int n = .ok n := Sql.int_ok.mpr ⟨hb n rfl, rfl⟩
      simp only [hn]
      exact ⟨_, rfl⟩
  obtain ⟨rows, hrows⟩ := hex
  exact ⟨rows, hrows, fun r hr => hw.readsBack.rows r (MessageStore.mem_history hrows hr).1⟩

/-- More messages, or the same ones under their ids. -/
theorem At.with_messages {w : World} (hw : At w₀ w) {rows : List Row}
    (h : ∀ r ∈ rows, legible r.body r.nonce)
    (hids : ∀ r ∈ w.messages, ∃ r' ∈ rows, r'.id = r.id) : At w₀ { w with messages := rows } := by
  obtain ⟨⟨ho, hu, hm, -⟩, ha, hr, hms, hon, hun, ht⟩ := hw
  refine ⟨⟨ho, hu, hm, h⟩, ha, hr, hms, hon, hun, fun t hfresh => ht t ?_⟩
  refine hfresh.imp_right fun hall r hr => ?_
  obtain ⟨r', hr', hid⟩ := hids r hr
  exact hid ▸ hall r' hr'

/-- A stored message keeps its content through a receipt. -/
theorem messagesMark_returns {id : Str} (state : Str) (now : Int) (h : id.encodable = true) :
    Returns w₀ (messagesMark id state now) fun _ => True := by
  refine total_call (S := routerSig) fun w hw => ?_
  have hex : ∃ r, MessageStore.mark w id state now = .ok r := by
    unfold MessageStore.mark
    simp only [Sql.str_of_encodable h, Bind.bind, Except.bind, Pure.pure, Except.pure]
    split <;> exact ⟨_, rfl⟩
  obtain ⟨⟨sender, w'⟩, hr⟩ := hex
  refine ⟨sender, w', by simp [exec, hr, commit], trivial, ?_⟩
  obtain ⟨-, ⟨-, rfl, -⟩ | ⟨row, -, -, rfl⟩⟩ := MessageStore.mark_cases hr
  · exact hw
  · refine hw.with_messages (fun r hr => ?_) fun r hr => ⟨_, List.mem_map_of_mem hr, ?_⟩
    · obtain ⟨r₀, hr₀, rfl⟩ := List.mem_map.mp hr
      have := hw.readsBack.rows r₀ hr₀
      unfold MessageStore.markRow
      split
      · split <;> exact this
      · exact this
    · unfold MessageStore.markRow
      split
      · split <;> rfl
      · rfl

/-- Storing a message whose content is legible, if it is stored at all. -/
theorem messagesRecord_returns {id sender body nonce : Json} {conversation recipient : Str}
    {ts : Int} {t b n : Option Str} (hid : Sql.text id = .ok t) (hs : sender.IsName)
    (hc : conversation.encodable = true) (hr : recipient.encodable = true)
    (hb : Sql.text body = .ok b) (hn : Sql.text nonce = .ok n) (hts : -2 ^ 63 ≤ ts ∧ ts < 2 ^ 63)
    (hl : w₀.fresh t → legible b n) :
    Returns w₀ (messagesRecord id conversation sender recipient body nonce ts) fun _ => True := by
  refine total_call (S := routerSig) fun w hw => ?_
  obtain ⟨from', -, hst⟩ := hs.text
  have hex : ∃ w', MessageStore.record w id conversation sender recipient body nonce ts = .ok w' := by
    unfold MessageStore.record
    have hint : Sql.int ts = .ok ts := Sql.int_ok.mpr ⟨hts, rfl⟩
    simp only [hid, hst, hb, hn, hint, Sql.str_of_encodable hc, Sql.str_of_encodable hr, Bind.bind, Except.bind,
      Pure.pure, Except.pure]
    split <;> exact ⟨_, rfl⟩
  obtain ⟨w', hw'⟩ := hex
  refine ⟨(), w', by simp [exec, hw', commit'], trivial, ?_⟩
  rcases MessageStore.record_cases hw' with ⟨rfl, -⟩ | ⟨row, hrow, hfresh, -, rfl⟩
  · exact hw
  · refine hw.with_messages (fun r hr => ?_) fun r hr => ⟨r, List.mem_append_left _ hr, rfl⟩
    rcases List.mem_append.mp hr with hr | hr
    · exact hw.readsBack.rows r hr
    · obtain rfl := List.mem_singleton.mp hr
      obtain rfl : t = r.id := Except.ok.inj (hid.symm.trans hrow.id)
      obtain rfl : b = r.body := Except.ok.inj (hb.symm.trans hrow.body)
      obtain rfl : n = r.nonce := Except.ok.inj (hn.symm.trans hrow.nonce)
      exact hl (hw.leftAlone.taken _ hfresh)

end Calls

/-! ## Presence, contacts and keys -/

section Handlers

variable {w₀ : World} {cfg : Config} {s : Sid} {me : Json} {f : Frame}

/-- Presence is told to whoever is online. -/
theorem announce_returns (username : Json) (state : Str) :
    Returns w₀ (announce username state) fun _ => True := by
  unfold announce
  refine Returns.bind (frame_returns _ _ _ _) fun g _ => ?_
  refine Returns.bind (sessionsOthers_returns _) fun others _ => ?_
  exact returns_forEach fun other _ => send_returns _ _

/-- The contacts with their states can be put together, -/
theorem contactStates_returns (cfg : Config) {u : Json} (h : u.IsName) :
    Returns w₀ (contactStates cfg u) fun _ => True := by
  unfold contactStates
  split
  · exact returns_pure trivial
  · refine Returns.bind sessionsUsernames_returns fun online _ => ?_
    refine Returns.bind (contactsOf_returns h) fun names _ => ?_
    exact returns_pure trivial

/-- and sent to whoever asks, who has a name. -/
theorem sendContacts_returns (hw : ReadsBack w₀) (cfg : Config) (s : Sid) :
    Returns w₀ (sendContacts cfg s) fun _ => True := by
  unfold sendContacts
  refine Returns.bind (getUsername_returns s) fun _ _ => ?_
  refine Returns.bind (getUsername_returns s) fun u hu => ?_
  have hname : (orEmpty (u.getD .null)).IsName := by
    refine isName_orEmpty ?_
    cases u with
    | none => exact .inl rfl
    | some u => exact .inr (hw.username s u hu.symm)
  refine Returns.bind (contactStates_returns cfg hname) fun states _ => ?_
  exact Returns.bind (frame_returns _ _ _ _) fun g _ => send_returns _ _

/-- A contact can be noted for one who has a name. -/
theorem noteContact_returns (hw : ReadsBack w₀) (cfg : Config) {owner other : Json}
    (ho : owner.IsName) (hc : other.IsName) : Returns w₀ (noteContact cfg owner other) fun _ => True := by
  obtain ⟨name, rfl, henc⟩ := hc
  unfold noteContact
  split
  · exact returns_pure trivial
  dsimp only
  split
  · exact returns_pure trivial
  refine Returns.bind (contactsAdd_returns ho ⟨name, rfl, henc⟩) fun added _ => ?_
  split
  · exact returns_pure trivial
  refine Returns.bind (sessionsGet_returns owner) fun theirs _ => ?_
  cases theirs with
  | none => exact returns_pure trivial
  | some t => exact sendContacts_returns hw cfg t

/-- An ADD_CONTACT whose name can be looked up, when it is looked up. -/
def AddContactFine (cfg : Config) (me : Json) (f : Frame) : Prop :=
  cfg.contacts = true → ∀ name, f.get "user" = .str name → name ≠ [] → me ≠ .str name →
    name.startsWith roomPrefix = false → name.encodable = true

/-- `_add_contact`, if the frame names somebody that can be looked up. -/
theorem addContact_returns (hw : ReadsBack w₀) (hme : me.IsName) (h : AddContactFine cfg me f) :
    Returns w₀ (addContact cfg s me f) fun _ => True := by
  unfold addContact
  split
  · exact refuse_returns _ _ _
  next hc =>
  split
  next name hname =>
    split
    · exact refuse_returns _ _ _
    next hne =>
    split
    · exact refuse_returns _ _ _
    next hself =>
    split
    · exact refuse_returns _ _ _
    next hroom =>
    have henc : name.encodable = true := by
      refine h (by simpa using hc) name hname (by simpa using hne) ?_ (by simpa using hroom)
      simpa using hself
    refine Returns.bind (usersExists_returns henc) fun known _ => ?_
    split
    · exact refuse_returns _ _ _
    refine Returns.bind (contactsAdd_returns (isName_orEmpty (.inr hme)) ⟨name, rfl, henc⟩)
      fun _ _ => ?_
    exact sendContacts_returns hw cfg s
  · exact refuse_returns _ _ _

/-- A REMOVE_CONTACT whose name, if there is one, can be looked up. -/
def RemoveContactFine (cfg : Config) (f : Frame) : Prop :=
  cfg.contacts = true → ∀ name, f.get "user" = .str name → name ≠ [] → name.encodable = true

/-- `_remove_contact`, if what it names can be bound. -/
theorem removeContact_returns (hw : ReadsBack w₀) (hme : me.IsName) (h : RemoveContactFine cfg f) :
    Returns w₀ (removeContact cfg s me f) fun _ => True := by
  unfold removeContact
  split
  · exact returns_pure trivial
  next hc =>
  refine Returns.bind (P := fun _ => True) ?_ fun _ _ => sendContacts_returns hw cfg s
  unfold forgetContact
  split
  next name hname =>
    split
    · exact returns_pure trivial
    next hne =>
      have henc := h (by simpa using hc) name hname (by simpa using hne)
      exact contactsRemove_returns (isName_orEmpty (.inr hme)) ⟨name, rfl, henc⟩
  · exact returns_pure trivial

/-- A GET_KEY whose text can be looked up. -/
def GetKeyFine (f : Frame) : Prop :=
  (f.get "user").truthy = true → (f.get "user").pyStr.encodable = true

/-- `_get_key`, if it names somebody that can be looked up. -/
theorem getKey_returns (h : GetKeyFine f) : Returns w₀ (getKey s f) fun _ => True := by
  unfold getKey
  dsimp only
  split
  · exact refuse_returns _ _ _
  next htr =>
  refine Returns.bind (usersPubkey_returns (h (by simpa using htr))) fun key _ => ?_
  cases key with
  | none => exact refuse_returns _ _ _
  | some key => exact Returns.bind (frame_returns _ _ _ _) fun g _ => send_returns _ _

/-! ## Accounts -/

/-- A REGISTER that gets past its own checks and can be stored: the name is a
string, and unless a check turns it away the name and the secret can be
encoded, and the key bound if the name is new. -/
def RegisterFine (w : World) (f : Frame) : Prop :=
  (f.get "user").truthy = true → (f.get "pass_hash").truthy = true →
    ∃ name, f.get "user" = .str name ∧ (name.startsWith roomPrefix = false →
      name.encodable = true ∧ (f.get "pass_hash").IsName ∧
        ((∀ a ∈ w.accounts, a.username ≠ name) → Sql.Binds (f.get "pubkey")))

/-- An account is written if its three values can be bound; nothing else is read back from
it. -/
theorem usersRegister_safe {name : Str} {p k : Json} (hn : name.encodable = true) (hp : p.IsName)
    (hk : (∀ a ∈ w₀.accounts, a.username ≠ name) → Sql.Binds k) :
    Total exec (At w₀) (usersRegister name p k) fun _ => ReadsBack := by
  refine total_call (S := routerSig) fun w hw => ?_
  obtain ⟨q, rfl, hq⟩ := hp
  have hd : ∀ salt, SqliteUsers.derive (.str q) salt = .ok (Runtime.scrypt q salt) :=
    fun salt => by simp [SqliteUsers.derive, hq]
  have hex : ∃ r, SqliteUsers.register w name (.str q) k = .ok r := by
    unfold SqliteUsers.register
    simp only [hd, Sql.str_of_encodable hn, Bind.bind, Except.bind, Pure.pure, Except.pure]
    split
    · exact ⟨_, rfl⟩
    next htaken =>
      rw [hw.leftAlone.accounts] at htaken
      obtain ⟨t, ht⟩ := hk (by simpa using htaken)
      rw [ht]
      exact ⟨_, rfl⟩
  obtain ⟨⟨b, w'⟩, hr⟩ := hex
  refine ⟨b, w', by simp [exec, hr, commit], ?_⟩
  obtain ⟨-, ⟨-, rfl, -⟩ | ⟨-, -, a, -, -, rfl⟩⟩ := SqliteUsers.register_cases hr
  · exact hw.readsBack
  · obtain ⟨ho, hu, hm, hl⟩ := hw.readsBack
    exact ⟨ho, hu, hm, hl⟩

/-- `_register`, if the name passes for one and the rest can be bound. -/
theorem register_safe (h : RegisterFine w₀ f) :
    Total exec (At w₀) (register s f) fun _ => ReadsBack := by
  unfold register
  dsimp only
  split
  · exact (refuse_returns _ _ _).safe
  next htr =>
  simp only [Bool.or_eq_true, Bool.not_eq_true', not_or, Bool.not_eq_false] at htr
  obtain ⟨name, hname, hfine⟩ := h htr.1 htr.2
  rw [hname]
  dsimp only
  split
  · exact (refuse_returns _ _ _).safe
  next hroom =>
  obtain ⟨henc, hpass, hkey⟩ := hfine (by simpa using hroom)
  refine (usersRegister_safe henc hpass hkey).bind fun stored => ?_
  split
  · exact Returns.rest fun _ _ => refuse_returns _ _ _
  · exact Returns.rest fun _ _ => Returns.bind (frame_returns _ _ _ _) fun _ _ => send_returns _ _

/-! ## Logging in and out -/

/-- A legible row is shown, or skipped, and no more. -/
theorem historyEntry_legible {row : Row} (h : legible row.body row.nonce) (reader : Json) :
    ∃ e, historyEntry row reader = .ok e := by
  suffices hc : ∃ c, contentFor row reader = .ok c by
    obtain ⟨c, hc⟩ := hc
    exact ⟨_, by rw [historyEntry, hc]; rfl⟩
  unfold contentFor
  by_cases hn : row.nonce = some envelopes
  · rw [if_pos hn]
    have := h hn
    dsimp only
    generalize Runtime.loads _ = parsed at this
    rcases parsed with e | v
    · cases e <;> first | exact ⟨none, rfl⟩ | exact this.elim
    · cases v with
      | dict env =>
        dsimp only
        split <;> exact ⟨_, rfl⟩
      | _ => exact this.elim
  · rw [if_neg hn]
    exact ⟨_, rfl⟩

/-- What waited for somebody can be handed over, row by row. -/
theorem flushPending_returns (cfg : Config) {u : Json} (h : u.IsName) :
    Returns w₀ (flushPending cfg s u) fun _ => True := by
  unfold flushPending
  split
  · exact returns_pure trivial
  refine Returns.bind (messagesFlush_returns h) fun rows hrows => ?_
  refine returns_forEach fun row hrow => ?_
  obtain ⟨e, he⟩ := historyEntry_legible (hrows row hrow) u
  unfold handRow
  refine Returns.bind (P := fun _ => True) (returns_lift he trivial) fun e _ => ?_
  cases e with
  | none => exact returns_pure trivial
  | some entry => exact send_returns _ _

/-- LOGIN_OK and the contacts are sent, -/
theorem greet_returns (cfg : Config) {u : Json} (h : u.IsName) :
    Returns w₀ (greet cfg s u) fun _ => True := by
  unfold greet
  refine Returns.bind sessionsUsernames_returns fun online _ => ?_
  refine Returns.bind (contactStates_returns cfg h) fun contacts _ => ?_
  refine Returns.bind (roomsOf_returns h) fun rooms _ => ?_
  exact Returns.bind (frame_returns _ _ _ _) fun g _ => send_returns _ _

/-- the session is entered under a name, and what waited is flushed. -/
theorem welcome_safe (cfg : Config) {u : Json} (h : u.IsName) :
    Total exec ReadsBack (welcome cfg s u) fun _ => ReadsBack := by
  unfold welcome
  refine Total.bind (Q := fun _ => ReadsBack) (total_call (S := routerSig) fun w hw => ?_) fun _ => ?_
  · refine ⟨(), _, rfl, hw.online, fun t v ht => ?_, hw.members, hw.rows⟩
    rcases update_some ht with ⟨-, hv⟩ | ⟨-, hv⟩
    · exact Option.some.inj hv ▸ h
    · exact hw.username t v hv
  · refine Returns.rest (P := fun _ _ => True) fun w _ => ?_
    refine Returns.bind (greet_returns cfg h) fun _ _ => ?_
    exact Returns.bind (announce_returns _ _) fun _ _ => flushPending_returns cfg h

/-- A LOGIN that can be checked, and that lets in a string if anybody. -/
def LoginFine (w : World) (s : Sid) (f : Frame) : Prop :=
  w.username s = none → (f.get "user").truthy = true → (f.get "pass_hash").truthy = true →
    Sql.Binds (f.get "user") ∧ (f.get "pass_hash").IsName ∧
      (LetIn w s f → ∃ name, f.get "user" = .str name)

/-- `_login`, if name and hash can be bound where it comes to that. -/
theorem login_safe (hfine : LoginFine w₀ s f) :
    Total exec (At w₀) (login cfg s f) fun _ => ReadsBack := by
  unfold login
  refine Total.bind (getUsername_returns s) fun u => ?_
  intro w₁ h₁
  obtain ⟨hu, hw₁⟩ := h₁
  cases u with
  | some u => exact (refuse_returns _ _ _).safe w₁ hw₁
  | none =>
    dsimp only
    split
    · exact (refuse_returns _ _ _).safe w₁ hw₁
    next htr =>
    simp only [Bool.or_eq_true, Bool.not_eq_true', not_or, Bool.not_eq_false] at htr
    obtain ⟨hbinds, hpass, hstr⟩ := hfine hu.symm htr.1 htr.2
    obtain ⟨verified, w, hrun, hv, hw⟩ := usersVerify_returns hbinds hpass w₁ hw₁
    rw [run_bind_ok hrun]
    cases verified with
    | false => exact (refuse_returns _ _ _).safe w hw
    | true =>
      have honline := hw.leftAlone.online
      simp only [Bool.not_true, Bool.false_eq_true, if_false]
      by_cases htaken : (w.online.any fun e => (f.get "user").pyEq e.1) = true
      · have hrun : exec (.sessionsLogin (f.get "user") s) w = (.ok false, w) := by
          simp [exec, SessionRegistry.login, htaken]
        rw [call_bind, run_call_ok (S := routerSig) hrun]
        exact (refuse_returns _ _ _).safe w hw
      · have hrun : exec (.sessionsLogin (f.get "user") s) w =
            (.ok true, { w with online := w.online ++ [(f.get "user", s)] }) := by
          simp [exec, SessionRegistry.login, htaken]
        have hin : LetIn w₀ s f := by
          refine ⟨hu.symm, htr.1, htr.2, hv, ?_⟩
          rw [honline] at htaken
          simpa using htaken
        obtain ⟨name, hname⟩ := hstr hin
        have hisName : (f.get "user").IsName := by
          obtain ⟨t, ht⟩ := hbinds
          rw [hname] at ht
          exact ⟨name, hname, (Sql.text_str_ok.mp ht).1⟩
        rw [call_bind, run_call_ok (S := routerSig) hrun]
        refine welcome_safe cfg hisName _ ⟨fun e he => ?_, hw.readsBack.username, hw.readsBack.members,
          hw.readsBack.rows⟩
        rcases List.mem_append.mp he with he | he
        · exact hw.readsBack.online e he
        · obtain rfl := List.mem_singleton.mp he
          exact hisName

/-- A hangup logs out whoever was logged in. -/
theorem onDisconnect_safe : Total exec (At w₀) (onDisconnect s) fun _ => ReadsBack := by
  unfold onDisconnect
  refine Total.bind (getUsername_returns s) fun u => ?_
  cases u with
  | none => exact total_pure fun w hw => hw.2.readsBack
  | some u =>
    refine Total.bind (Q := fun _ => ReadsBack) (total_call (S := routerSig) fun w hw => ?_) fun _ => ?_
    · obtain ⟨ho, hu, hm, hl⟩ := hw.2.readsBack
      exact ⟨(), _, rfl, fun e he => ho e (List.mem_of_mem_filter he), hu, hm, hl⟩
    refine Total.bind (Q := fun _ => ReadsBack) (total_call (S := routerSig) fun w hw => ?_) fun _ => ?_
    · refine ⟨(), _, rfl, hw.online, fun t v ht => ?_, hw.members, hw.rows⟩
      rcases update_some ht with ⟨-, hv⟩ | ⟨-, hv⟩
      · cases hv
      · exact hw.username t v hv
    · exact Returns.rest fun _ _ => announce_returns _ _

end Handlers

end Ciphertext
