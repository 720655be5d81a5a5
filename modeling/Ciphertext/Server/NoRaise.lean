import Ciphertext.Server.Returns

/-!
# Which frames make the router raise

`from_dict` promises the handlers little, and the handlers check little more.
`WellTyped` spells out what a frame must be like, in the world it arrives in,
for its handler to return and to leave nothing behind that makes a later one
raise: targets and names that are strings where string methods are called on
them, texts that can be encoded where sqlite is handed them, numbers that fit,
and no message stored under the marker of the envelope maps that is not a map.
In a run of such frames no handler raises.

`Run.never_raises` is the result, with `WellTyped` on each input and the world it
arrives in. It goes through `step_safe`: from a world that reads back (`ReadsBack`, in
`Returns`) a well-typed input returns, and leaves one that does. The handlers of rooms,
messages, pages, receipts and typing are here, each with its own condition; of `json` it
is assumed that the text of a map of envelopes reads back.
-/

namespace Ciphertext

open Prog MessageRouter

section Runs

variable [Runtime] {w₀ : World} {cfg : Config} {s : Sid} {me : Json} {f : Frame}

/-! ## Rooms -/

/-- A room name is returned only if nothing is wrong with it. -/
theorem roomName_returns (s : Sid) (f : Frame) :
    Returns w₀ (roomName s f) fun r => ∀ room, r = some room →
      roomProblem (f.get "room") = .ok room := by
  unfold roomName
  split
  · exact Returns.bind (refuse_returns _ _ _) fun _ _ => returns_pure (by simp)
  next room hroom =>
    exact returns_pure fun room' h => by rw [hroom, Option.some.inj h]

/-- Reading a room's state binds its name, and no more. -/
theorem roomState_returns {room : Str} (h : room.encodable = true) :
    Returns w₀ (roomState room) fun _ => True :=
  Returns.bind (roomsMembers_returns h) fun _ _ => frame_returns _ _ _ _

/-- Broadcasting it does the same. -/
theorem broadcastRoomState_returns {room : Str} (h : room.encodable = true) :
    Returns w₀ (broadcastRoomState room) fun _ => True := by
  unfold broadcastRoomState
  refine Returns.bind (roomState_returns h) fun state _ => ?_
  refine Returns.bind (roomsMembers_returns h) fun names _ => ?_
  refine returns_forEach fun name _ => ?_
  refine Returns.bind (sessionsGet_returns _) fun member _ => ?_
  cases member with
  | none => exact returns_pure trivial
  | some member => exact send_returns _ _

/-- Joining with names that can be encoded leaves rows that can be read back. -/
theorem roomsJoin_safe {room : Str} {u : Json} (hr : room.encodable = true) (hu : u.IsName) :
    Total exec ReadsBack (roomsJoin room u) fun _ => ReadsBack := by
  refine total_call (S := routerSig) fun w hw => ?_
  obtain ⟨n, hn, ht⟩ := hu.text
  have hex : ∃ w', SqliteRooms.join w room u = .ok w' := by
    unfold SqliteRooms.join
    simp only [Sql.str_of_encodable hr, ht, Bind.bind, Except.bind, Pure.pure, Except.pure]
    split <;> exact ⟨_, rfl⟩
  obtain ⟨w', hw'⟩ := hex
  refine ⟨(), w', by simp [exec, hw', commit'], ?_⟩
  obtain ⟨-, ⟨-, rfl⟩ | ⟨name, hname, rfl⟩⟩ := SqliteRooms.join_cases hw'
  · exact ⟨hw.online, hw.username, hw.members, hw.rows⟩
  · refine ⟨hw.online, hw.username, fun m hm => ?_, hw.rows⟩
    rcases mem_addOnce.mp hm with hm | rfl
    · exact hw.members m hm
    · rw [hn] at hname
      obtain ⟨henc, heq⟩ := Sql.text_str_ok.mp hname
      rw [Option.some.inj heq]
      exact henc

/-- Leaving takes rows away. -/
theorem roomsLeave_safe {room : Str} {u : Json} (hr : room.encodable = true) (hu : u.IsName) :
    Total exec ReadsBack (roomsLeave room u) fun _ => ReadsBack := by
  refine total_call (S := routerSig) fun w hw => ?_
  obtain ⟨n, -, ht⟩ := hu.text
  refine ⟨(), (exec (.roomsLeave room u) w).2, ?_, ?_⟩
  · simp [exec, SqliteRooms.leave, Sql.str_of_encodable hr, ht, Bind.bind, Except.bind, Pure.pure,
      Except.pure, commit']
  · simp only [exec, SqliteRooms.leave, Sql.str_of_encodable hr, ht, Bind.bind, Except.bind, Pure.pure,
      Except.pure, commit']
    exact ⟨hw.online, hw.username, fun m hm => hw.members m (List.mem_of_mem_filter hm), hw.rows⟩

/-- A list of members whose names can be looked up, as far as they are. -/
def MembersFine (members : Json) : Prop :=
  ∀ names, members = .list names → ∀ v ∈ names.take 64, v.pyStr ≠ [] →
    v.pyStr.startsWith roomPrefix = false → v.pyStr.encodable = true

/-- Joining a list does it for each name that is looked up at all. -/
theorem joinAll_safe {room : Str} (hr : room.encodable = true) {vs : List Json}
    (h : ∀ v ∈ vs, v.pyStr ≠ [] → v.pyStr.startsWith roomPrefix = false →
      v.pyStr.encodable = true) :
    Total exec ReadsBack (joinAll room vs) fun _ => ReadsBack := by
  induction vs with
  | nil => exact total_pure fun _ hw => hw
  | cons v rest ih =>
    have ih := ih fun x hx => h x (List.mem_cons_of_mem _ hx)
    rw [joinAll]
    dsimp only
    split
    next hname =>
      simp only [Bool.and_eq_true, Bool.not_eq_true', List.isEmpty_eq_false_iff] at hname
      have henc := h v (List.mem_cons_self ..) hname.1 hname.2
      refine (Returns.rest fun _ _ => usersExists_returns henc).bind fun known => ?_
      split
      · refine (roomsJoin_safe hr ⟨v.pyStr, rfl, henc⟩).bind fun _ => ?_
        exact ih.bind fun _ => total_pure fun _ hw => hw
      · exact ih
    · exact ih

/-- The list may be anything the condition lets through. -/
theorem addMembers_safe {room : Str} (hr : room.encodable = true) {members : Json}
    (h : MembersFine members) : Total exec ReadsBack (addMembers room members) fun _ => ReadsBack := by
  unfold addMembers
  split
  next names => exact joinAll_safe hr (h names rfl)
  · exact total_pure fun _ hw => hw

/-- A CREATE_ROOM whose room, and whose members if the room is new, can be
looked up. -/
def CreateRoomFine (w : World) (f : Frame) : Prop :=
  ∀ room, roomProblem (f.get "room") = .ok room →
    room.encodable = true ∧ (room ∉ w.rooms → MembersFine (f.get "members"))

/-- CREATE_ROOM. -/
theorem createRoom_safe (hme : me.IsName) (h : CreateRoomFine w₀ f) :
    Total exec (At w₀) (createRoom s me f) fun _ => ReadsBack := by
  unfold createRoom
  refine Total.bind (roomName_returns s f) fun room? => ?_
  intro w hw
  obtain ⟨hroom, hw⟩ := hw
  cases room? with
  | none => exact ⟨(), w, rfl, hw.readsBack⟩
  | some room =>
    obtain ⟨henc, hmembers⟩ := h room (hroom room rfl)
    by_cases hold : room ∈ w.rooms
    · have hrun : exec (.roomsCreate room) w = (.ok false, w) := by
        simp [exec, SqliteRooms.create, Sql.str_of_encodable henc, hold, Bind.bind, Except.bind, Pure.pure,
          Except.pure, commit]
      dsimp only
      rw [call_bind, run_call_ok (S := routerSig) hrun]
      exact (refuse_returns _ _ _).safe w hw
    · have hrun : exec (.roomsCreate room) w = (.ok true, { w with rooms := w.rooms ++ [room] }) := by
        simp [exec, SqliteRooms.create, Sql.str_of_encodable henc, hold, Bind.bind, Except.bind, Pure.pure,
          Except.pure, commit]
      dsimp only
      rw [call_bind, run_call_ok (S := routerSig) hrun]
      rw [hw.leftAlone.rooms] at hold
      have hrest : Total exec ReadsBack (roomsJoin room me >>= fun _ =>
          addMembers room (f.get "members") >>= fun _ => broadcastRoomState room) fun _ => ReadsBack :=
        (roomsJoin_safe henc hme).bind fun _ =>
          (addMembers_safe henc (hmembers hold)).bind fun _ =>
            Returns.rest fun _ _ => broadcastRoomState_returns henc
      exact hrest _ ⟨hw.readsBack.online, hw.readsBack.username, hw.readsBack.members, hw.readsBack.rows⟩

/-- Looking for the missing binds names already bound. -/
theorem missingNames_returns {room : Str} (h : room.encodable = true) (added : List Str)
    (vs : List Json) : Returns w₀ (missingNames room added vs) fun _ => True := by
  induction vs with
  | nil => exact returns_pure trivial
  | cons v rest ih =>
    rw [missingNames]
    split
    · exact ih
    refine Returns.bind (roomsMembers_returns h) fun names _ => ?_
    split
    · exact ih
    · exact Returns.bind ih fun _ _ => returns_pure trivial

/-- An INVITE whose room, and whose names if it gets that far, can be looked up. -/
def InviteFine (w : World) (me : Json) (f : Frame) : Prop :=
  ∀ room, roomProblem (f.get "room") = .ok room → room.encodable = true ∧
    (room ∈ w.rooms → me ∈ (memberNames w room).map Json.str → MembersFine (f.get "members"))

/-- INVITE, whose list is walked twice. -/
theorem invite_safe (h : InviteFine w₀ me f) :
    Total exec (At w₀) (invite s me f) fun _ => ReadsBack := by
  unfold invite
  refine Total.bind (roomName_returns s f) fun room? => ?_
  intro w hw
  obtain ⟨hroom, hw⟩ := hw
  cases room? with
  | none => exact ⟨(), w, rfl, hw.readsBack⟩
  | some room =>
    obtain ⟨henc, hmembers⟩ := h room (hroom room rfl)
    dsimp only
    refine Total.bind (roomsExists_returns henc) (fun known => ?_) w hw
    intro w hw
    obtain ⟨hknown, hw⟩ := hw
    split
    · exact (refuse_returns _ _ _).safe w hw
    next hk =>
    refine Total.bind (roomsMembers_returns henc) (fun names => ?_) w hw
    intro w hw
    obtain ⟨rfl, hw⟩ := hw
    split
    · exact (refuse_returns _ _ _).safe w hw
    next hin =>
    have hfine := hmembers (hknown.mp (by simpa using hk)) (by simpa using hin)
    refine Total.bind (addMembers_safe henc hfine) (fun added => ?_) w hw.readsBack
    refine Returns.rest (P := fun _ _ => True) fun w _ => ?_
    refine Returns.bind (missingNames_returns henc _ _) fun missing _ => ?_
    refine Returns.bind (P := fun _ => True) ?_ fun _ _ => ?_
    · unfold reportMissing
      split
      · exact returns_pure trivial
      · exact refuse_returns _ _ _
    · split
      · exact broadcastRoomState_returns henc
      · exact returns_pure trivial

/-- A room that can be looked up, if it is a room name at all. -/
def RoomFine (f : Frame) : Prop :=
  ∀ room, roomProblem (f.get "room") = .ok room → room.encodable = true

/-- JOIN_ROOM. -/
theorem join_safe (hme : me.IsName) (h : RoomFine f) :
    Total exec (At w₀) (join s me f) fun _ => ReadsBack := by
  unfold join
  refine Total.bind (roomName_returns s f) fun room? => ?_
  intro w hw
  obtain ⟨hroom, hw⟩ := hw
  cases room? with
  | none => exact ⟨(), w, rfl, hw.readsBack⟩
  | some room =>
    have henc := h room (hroom room rfl)
    dsimp only
    refine Total.bind (roomsExists_returns henc) (fun known => ?_) w hw
    intro w hw
    split
    · exact (refuse_returns _ _ _).safe w hw.2
    · refine Total.bind (roomsJoin_safe henc hme) (fun _ => ?_) w hw.2.readsBack
      exact Returns.rest fun _ _ => broadcastRoomState_returns henc

/-- LEAVE_ROOM. -/
theorem leave_safe (hme : me.IsName) (h : RoomFine f) :
    Total exec (At w₀) (leave s me f) fun _ => ReadsBack := by
  unfold leave
  refine Total.bind (roomName_returns s f) fun room? => ?_
  intro w hw
  obtain ⟨hroom, hw⟩ := hw
  cases room? with
  | none => exact ⟨(), w, rfl, hw.readsBack⟩
  | some room =>
    have henc := h room (hroom room rfl)
    dsimp only
    refine Total.bind (roomsMembers_returns henc) (fun names => ?_) w hw
    intro w hw
    split
    · exact (refuse_returns _ _ _).safe w hw.2
    · refine Total.bind (roomsLeave_safe henc hme) (fun _ => ?_) w hw.2.readsBack
      refine Returns.rest (P := fun _ _ => True) fun w _ => ?_
      refine Returns.bind (broadcastRoomState_returns henc) fun _ _ => ?_
      exact Returns.bind (roomState_returns henc) fun _ _ => send_returns _ _

/-! ## Delivery -/

/-- An env map that `json` can write is stored legibly. -/
theorem Renders.legible {env : Dict} (h : Renders env) (n : Option Str) :
    legible (some (Runtime.dumps (.dict env))) n := by
  intro _
  have hne : (Runtime.dumps (.dict env)).isEmpty = false := by simpa using h.nonempty
  simp [hne, h.reads]

/-- A message that can be stored, and read back if it is: sqlite takes its
fields, and the marker of the envelope maps stands over one. -/
structure Storable (w : World) (f : Frame) (target : Str) : Prop where
  id : Sql.Binds f.id
  ts : -2 ^ 63 ≤ f.ts ∧ f.ts < 2 ^ 63
  content : envOf f target = none → ∃ b n, Sql.text f.body = .ok b ∧ Sql.text f.nonce = .ok n ∧
    ∀ t, Sql.text f.id = .ok t → w.fresh t → legible b n

/-- A MSG to a string, one that can be looked up where it is, and that can be
stored if it is admitted. -/
def MessageFine (cfg : Config) (w : World) (me : Json) (f : Frame) : Prop :=
  f.target.truthy = true → ∃ target, f.target = .str target ∧
    (target.startsWith roomPrefix = true ∨ cfg.messages = true → target.encodable = true) ∧
    (cfg.messages = true → Admitted cfg w me target → Storable w f target)

/-- A message between two is recorded without an exception, -/
theorem record_returns {conversation recipient : Str} (hme : me.IsName)
    (hc : conversation.encodable = true) (hr : cfg.messages = true → recipient.encodable = true)
    (henv : envOf f recipient = none) (h : cfg.messages = true → Storable w₀ f recipient) :
    Returns w₀ (record cfg (outgoing me f) conversation recipient) fun _ => True := by
  unfold record
  split
  · exact returns_pure trivial
  next hm =>
  have hm : cfg.messages = true := by simpa using hm
  obtain ⟨⟨t, ht⟩, hts, hcontent⟩ := h hm
  obtain ⟨b, n, hb, hn, hl⟩ := hcontent henv
  exact messagesRecord_returns ht (isName_orEmpty (.inr hme)) hc (hr hm) hb hn hts (hl t ht)

/-- and so is one to a room. -/
theorem recordRoom_returns {room : Str} (hme : me.IsName) (hr : room.encodable = true)
    (hroom : room.startsWith roomPrefix = true)
    (hjson : ∀ env, f.get "env" = .dict env → Renders env)
    (h : cfg.messages = true → Storable w₀ f room) :
    Returns w₀ (recordRoom cfg (outgoing me f) room (f.get "env").asDict) fun _ => True := by
  unfold recordRoom
  cases henv : (f.get "env").asDict with
  | none => exact record_returns hme hr (fun _ => hr) (by rw [envOf, if_pos hroom, henv]) h
  | some env =>
    have hj := hjson env (by
      cases he : f.get "env" with
      | dict kvs =>
        rw [he] at henv
        rw [← Option.some.inj henv]
      | _ => simp [he, Json.asDict] at henv)
    dsimp only
    unfold recordEnvelopes
    split
    · exact returns_pure trivial
    next hm =>
    obtain ⟨⟨t, ht⟩, hts, -⟩ := h (by simpa using hm)
    refine messagesRecord_returns ht (isName_orEmpty (.inr hme)) hr hr
      (Sql.text_of_encodable hj.encodable)
      (Sql.text_of_encodable (by decide)) hts fun _ => hj.legible _

/-- Handing over binds the id only where the recipient is away. -/
theorem handOver_returns {recipient : Option Sid} {name : Str} {g : Frame}
    (h : recipient = none → name.encodable = true ∧ Sql.Binds g.id) :
    Returns w₀ (handOver recipient name g) fun _ => True := by
  cases recipient with
  | some t => exact send_returns _ _
  | none => exact messagesQueueFor_returns (h rfl).1 (h rfl).2

/-- Somebody online under a string is online under a name. -/
theorem ReadsBack.get_encodable {w : World} (hw : ReadsBack w) {name : Str} {t : Sid}
    (h : SessionRegistry.get w (.str name) = some t) : name.encodable = true := by
  unfold SessionRegistry.get at h
  obtain ⟨e, he, -⟩ := Option.map_eq_some_iff.mp h
  have heq := List.find?_some he
  rw [Json.pyEq_str_left] at heq
  obtain ⟨n, hn, henc⟩ := hw.online e (List.mem_of_find?_eq_some he)
  rw [heq] at hn
  rw [Json.str.inj hn]
  exact henc

/-- Whether a direct message can go anywhere, and that its target is a name if
it can. -/
theorem reachable_returns (hw : ReadsBack w₀) {target : Str}
    (hd : target.startsWith roomPrefix = false) (me : Json)
    (henc : cfg.messages = true → target.encodable = true) :
    Returns w₀ (reachable cfg (SessionRegistry.get w₀ (.str target)) target) fun b =>
      b = true → target.encodable = true ∧ Admitted cfg w₀ me target := by
  unfold reachable Admitted
  simp only [hd, Bool.false_eq_true, if_false]
  cases hget : SessionRegistry.get w₀ (.str target) with
  | some t => exact returns_pure fun _ => ⟨hw.get_encodable hget, .inl rfl⟩
  | none =>
    cases hm : cfg.messages with
    | false => exact returns_pure (by simp)
    | true =>
      refine (usersExists_returns (henc hm)).mono fun b hb htrue => ⟨henc hm, .inr ⟨rfl, ?_⟩⟩
      exact hb.mp htrue

/-- A direct message that is let in is delivered. -/
theorem toUser_returns (hw : ReadsBack w₀) (hme : me.IsName) {target : Str}
    (hd : target.startsWith roomPrefix = false)
    (henc : cfg.messages = true → target.encodable = true)
    (h : cfg.messages = true → Admitted cfg w₀ me target → Storable w₀ f target) :
    Returns w₀ (toUser cfg s me target (outgoing me f)) fun _ => True := by
  unfold toUser
  refine Returns.bind (sessionsGet_returns _) fun recipient hrec => ?_
  subst hrec
  refine Returns.bind (reachable_returns hw hd me henc) fun ok hok => ?_
  split
  · exact Returns.bind (refuse_returns _ _ _) fun _ _ => returns_pure trivial
  next hyes =>
  obtain ⟨ht, hadm⟩ := hok (by simpa using hyes)
  have hstore : cfg.messages = true → Storable w₀ f target := fun hm => h hm hadm
  have hsender : (orEmpty me).IsName := isName_orEmpty (.inr hme)
  obtain ⟨from', hfrom, hfenc⟩ := hsender
  have hconv : Str.encodable (Str.join pairSeparator (Str.sorted [from', target])) = true := by
    refine Str.encodable_join (by decide) fun p hp => ?_
    have hp : p = from' ∨ p = target := by simpa using hp
    rcases hp with rfl | rfl
    · exact hfenc
    · exact ht
  dsimp only
  refine Returns.bind (returns_lift (by rw [hfrom]; rfl) rfl) fun conversation hcv => ?_
  subst hcv
  refine Returns.bind (record_returns hme hconv (fun _ => ht) (by simp [envOf, hd]) hstore)
    fun _ _ => ?_
  have hn : (orEmpty me).IsName := ⟨from', hfrom, hfenc⟩
  refine Returns.bind (noteContact_returns hw cfg hn ⟨target, rfl, ht⟩) fun _ _ => ?_
  refine Returns.bind (noteContact_returns hw cfg ⟨target, rfl, ht⟩ hn) fun _ _ => ?_
  refine Returns.bind (handOver_returns fun hoff => ⟨ht, ?_⟩) fun _ _ => returns_pure trivial
  simp only [Admitted, hd, Bool.false_eq_true, if_false, hoff, Option.isSome_none, false_or] at hadm
  exact (hstore hadm.1).id

/-- To one member of a room, -/
theorem deliverTo_returns {env : Option Dict} {name : Str} (hname : name.encodable = true)
    (hid : cfg.messages = true → Sql.Binds f.id) :
    Returns w₀ (deliverTo cfg me (outgoing me f) env name) fun _ => True := by
  unfold deliverTo
  split
  · exact returns_pure trivial
  refine Returns.bind (sessionsGet_returns _) fun member _ => ?_
  split
  · exact returns_pure trivial
  next g hg =>
  split
  · exact returns_pure trivial
  next hoff =>
  refine handOver_returns fun hnone => ⟨hname, ?_⟩
  rw [(addressedTo_relayed hg).id]
  exact hid (by simpa [hnone] using hoff)

/-- and to all of them. -/
theorem toRoom_returns (hw : ReadsBack w₀) (hme : me.IsName) {room : Str} (hr : room.encodable = true)
    (hroom : room.startsWith roomPrefix = true)
    (hjson : ∀ env, f.get "env" = .dict env → Renders env)
    (h : cfg.messages = true → Admitted cfg w₀ me room → Storable w₀ f room) :
    Returns w₀ (toRoom cfg s me room (outgoing me f) (f.get "env").asDict) fun _ => True := by
  unfold toRoom
  refine Returns.bind (roomsExists_returns hr) fun known hknown => ?_
  split
  · exact Returns.bind (refuse_returns _ _ _) fun _ _ => returns_pure trivial
  next hk =>
  refine Returns.bind (roomsMembers_returns hr) fun names hnames => ?_
  subst hnames
  split
  · exact Returns.bind (refuse_returns _ _ _) fun _ _ => returns_pure trivial
  next hin =>
  have hadm : Admitted cfg w₀ me room := by
    simp only [Admitted, hroom, if_true]
    exact ⟨hknown.mp (by simpa using hk), by simpa using hin⟩
  have hstore : cfg.messages = true → Storable w₀ f room := fun hm => h hm hadm
  refine Returns.bind (recordRoom_returns hme hr hroom hjson hstore) fun _ _ => ?_
  refine Returns.bind (returns_forEach fun name hname => ?_) fun _ _ => returns_pure trivial
  have hmem : name ∈ memberNames w₀ room := Str.mem_sorted.mp hname
  obtain ⟨m, hm, rfl⟩ := List.mem_map.mp hmem
  exact deliverTo_returns (hw.members m (List.mem_of_mem_filter hm)) fun hm => (hstore hm).id

/-- MSG. -/
theorem message_returns (hw : ReadsBack w₀) (hme : me.IsName)
    (hjson : ∀ env, f.get "env" = .dict env → Renders env) (h : MessageFine cfg w₀ me f) :
    Returns w₀ (message cfg s me f) fun _ => True := by
  unfold message
  split
  · exact refuse_returns _ _ _
  next htr =>
  obtain ⟨target, ht, henc, hstore⟩ := h (by simpa using htr)
  rw [ht]
  dsimp only
  refine Returns.bind (P := fun _ => True) ?_ fun delivered _ => ?_
  · unfold deliver
    cases hd : target.startsWith roomPrefix with
    | true => exact toRoom_returns hw hme (henc (.inl hd)) hd hjson hstore
    | false => exact toUser_returns hw hme hd (fun hm => henc (.inr hm)) hstore
  · split
    · exact Returns.bind (frame_returns _ _ _ _) fun g _ => send_returns _ _
    · exact returns_pure trivial

/-! ## Scrollback, receipts, typing -/

/-- A page that can be cut out: the bounds are numbers, and the first fits. -/
def PageFine (f : Frame) : Prop :=
  ∃ before limit, intIf (f.get "before") = .ok before ∧ intIf (f.get "limit") = .ok limit ∧
    ∀ n, before = some n → -2 ^ 63 ≤ n ∧ n < 2 ^ 63

/-- A HISTORY for text that can be looked up, and for a page that can be cut out
unless the asker is turned away. -/
def HistoryFine (cfg : Config) (w : World) (me : Json) (f : Frame) : Prop :=
  cfg.messages = true → (asked f).truthy = true → (asked f).pyStr.encodable = true ∧
    (((asked f).pyStr.startsWith roomPrefix = true →
      me ∈ (memberNames w (asked f).pyStr).map Json.str) → PageFine f)

/-- Rows that can be read back make a page. -/
theorem entries_legible {rows : List Row} (h : ∀ r ∈ rows, legible r.body r.nonce) (reader : Json) :
    ∃ es, entries rows reader = .ok es := by
  induction rows with
  | nil => exact ⟨[], rfl⟩
  | cons row rows ih =>
    obtain ⟨e, he⟩ := historyEntry_legible (h row (List.mem_cons_self ..)) reader
    obtain ⟨rest, hrest⟩ := ih fun r hr => h r (List.mem_cons_of_mem _ hr)
    exact ⟨_, entries_cons.mpr ⟨e, rest, he, hrest, rfl⟩⟩

/-- The page is sent. -/
theorem sendPage_returns {target conversation : Str} (hc : conversation.encodable = true)
    (h : PageFine f) : Returns w₀ (sendPage s me f target conversation) fun _ => True := by
  obtain ⟨before, limit, hb, hl, hint⟩ := h
  unfold sendPage
  refine Returns.bind (P := (· = before)) (returns_lift hb rfl) fun b hb => ?_
  subst hb
  refine Returns.bind (P := (· = limit)) (returns_lift hl rfl) fun l _ => ?_
  refine Returns.bind (messagesHistory_returns hc hint) fun rows hrows => ?_
  obtain ⟨es, hes⟩ := entries_legible hrows (orEmpty me)
  refine Returns.bind (P := (· = es)) (returns_lift hes rfl) fun _ _ => ?_
  exact Returns.bind (frame_returns _ _ _ _) fun g _ => send_returns _ _

/-- HISTORY. -/
theorem history_returns (hme : me.IsName) (h : HistoryFine cfg w₀ me f) :
    Returns w₀ (history cfg s me f) fun _ => True := by
  unfold history
  split
  · exact refuse_returns _ _ _
  next hm =>
  split
  · exact refuse_returns _ _ _
  next htr =>
  obtain ⟨henc, hpage⟩ := h (by simpa using hm) (by simpa using htr)
  have hconv : Returns w₀ (conversationOf s me (asked f).pyStr) fun c? => ∀ c, c? = some c →
      c.encodable = true ∧ PageFine f := by
    unfold conversationOf
    cases hd : (asked f).pyStr.startsWith roomPrefix with
    | true =>
      simp only [if_true]
      refine Returns.bind (roomsMembers_returns henc) fun names hnames => ?_
      subst hnames
      split
      · exact Returns.bind (refuse_returns _ _ _) fun _ _ => returns_pure (by simp)
      next hin =>
        refine returns_pure fun c hc => ?_
        obtain rfl := Option.some.inj hc
        exact ⟨henc, hpage fun _ => by simpa using hin⟩
    | false =>
      simp only [Bool.false_eq_true, if_false]
      obtain ⟨from', hfrom, hfenc⟩ := isName_orEmpty (.inr hme)
      refine Returns.bind (returns_lift (by rw [hfrom]; rfl) rfl) fun conversation hcv => ?_
      subst hcv
      refine returns_pure fun c hc => ?_
      obtain rfl := Option.some.inj hc
      refine ⟨Str.encodable_join (by decide) fun p hp => ?_, hpage (by simp [hd])⟩
      have hp : p = from' ∨ p = (asked f).pyStr := by simpa using hp
      rcases hp with rfl | rfl
      · exact hfenc
      · exact henc
  refine Returns.bind hconv fun c? hc => ?_
  cases c? with
  | none => exact returns_pure trivial
  | some c => exact sendPage_returns (hc c rfl).1 (hc c rfl).2

/-- A RECEIPT whose ref can be looked up, if it is acted on. -/
def ReceiptFine (cfg : Config) (f : Frame) : Prop :=
  Reports cfg f → (f.get "ref").pyStr.encodable = true

/-- RECEIPT. -/
theorem receipt_returns (h : ReceiptFine cfg f) :
    Returns w₀ (receipt cfg s me f) fun _ => True := by
  unfold receipt
  dsimp only
  split
  · exact returns_pure trivial
  next hm =>
  split
  · exact refuse_returns _ _ _
  next hbad =>
  have henc : (f.get "ref").pyStr.encodable = true := by
    simp only [Bool.or_eq_true, Bool.not_eq_true', not_or, Bool.not_eq_false,
      decide_eq_true_eq] at hbad
    exact h ⟨by simpa using hm, hbad.1, hbad.2⟩
  refine Returns.bind (P := fun _ => True)
    (returns_call (by simp [Op.writesTo]) fun w _ => ⟨_, rfl, trivial⟩) fun now _ => ?_
  refine Returns.bind (messagesMark_returns _ _ henc) fun sender _ => ?_
  cases sender with
  | none => exact returns_pure trivial
  | some sender =>
    dsimp only
    split
    · exact returns_pure trivial
    refine Returns.bind (sessionsGet_returns _) fun recipient _ => ?_
    cases recipient with
    | none => exact returns_pure trivial
    | some t => exact Returns.bind (frame_returns _ _ _ _) fun g _ => send_returns _ _

/-- A TYPING to a string, one that can be looked up if it names a room. -/
def TypingFine (f : Frame) : Prop :=
  f.target.truthy = true → ∃ target, f.target = .str target ∧
    (target.startsWith roomPrefix = true → target.encodable = true)

/-- TYPING. -/
theorem typing_returns (h : TypingFine f) : Returns w₀ (typing me f) fun _ => True := by
  unfold typing
  split
  · exact returns_pure trivial
  next htr =>
  obtain ⟨target, ht, henc⟩ := h (by simpa using htr)
  refine Returns.bind (frame_returns _ _ _ _) fun relayed _ => ?_
  rw [ht]
  dsimp only
  refine Returns.bind (P := fun _ => True) ?_ fun names _ => returns_forEach fun name _ => ?_
  · unfold typingTo
    split
    next hd =>
      refine Returns.bind (roomsMembers_returns (henc hd)) fun members _ => ?_
      split <;> exact returns_pure trivial
    · exact returns_pure trivial
  · refine Returns.bind (sessionsGet_returns _) fun recipient _ => ?_
    cases recipient with
    | none => exact returns_pure trivial
    | some t => exact send_returns _ _

/-! ## Any frame -/

/-- What a frame of somebody logged in as `me` must be like. -/
def RequestFine (cfg : Config) (w : World) (me : Json) (f : Frame) : Prop :=
  match f.type with
  | .msg => MessageFine cfg w me f
  | .createRoom => CreateRoomFine w f
  | .join => RoomFine f
  | .leave => RoomFine f
  | .invite => InviteFine w me f
  | .addContact => AddContactFine cfg me f
  | .removeContact => RemoveContactFine cfg f
  | .typing => TypingFine f
  | .receipt => ReceiptFine cfg f
  | .history => HistoryFine cfg w me f
  | .getKey => GetKeyFine f
  | _ => True

/-- What an input must be like in the world it arrives in. -/
def WellTyped (cfg : Config) (w : World) : Input → Prop
  | .hangup _ => True
  | .frame s f =>
    match f.type with
    | .ping => True
    | .register => RegisterFine w f
    | .login => LoginFine w s f
    | _ => ∀ me, w.username s = some me → RequestFine cfg w me f

/-- Every request of a session that is logged in. -/
theorem dispatch_safe (hw : ReadsBack w₀) (hme : me.IsName)
    (hjson : ∀ env, f.get "env" = .dict env → Renders env) (h : RequestFine cfg w₀ me f) :
    Total exec (At w₀) (dispatch cfg s me f) fun _ => ReadsBack := by
  unfold RequestFine at h
  unfold dispatch
  cases ht : f.type <;> rw [ht] at h
  case msg => exact (message_returns hw hme hjson h).safe
  case createRoom => exact createRoom_safe hme h
  case join => exact join_safe hme h
  case leave => exact leave_safe hme h
  case invite => exact invite_safe h
  case addContact => exact (addContact_returns hw hme h).safe
  case removeContact => exact (removeContact_returns hw hme h).safe
  case typing => exact (typing_returns h).safe
  case receipt => exact (receipt_returns h).safe
  case history => exact (history_returns hme h).safe
  case getKey => exact (getKey_returns h).safe
  all_goals exact (refuse_returns _ _ _).safe

/-- Every frame, and what is stored can be read back afterwards. -/
theorem handle_safe (hw : ReadsBack w₀) (hjson : ∀ env, f.get "env" = .dict env → Renders env)
    (h : WellTyped cfg w₀ (.frame s f)) :
    Total exec (At w₀) (handle cfg s f) fun _ => ReadsBack := by
  unfold WellTyped at h
  dsimp only at h
  unfold handle
  split
  · exact (Returns.bind (frame_returns _ _ _ _) fun g _ => send_returns _ _).safe
  next ht =>
    rw [ht] at h
    exact register_safe h
  next ht =>
    rw [ht] at h
    exact login_safe h
  next hp hr hl =>
    refine Total.bind (getUsername_returns s) fun u => ?_
    intro w hu
    obtain ⟨hu, hat⟩ := hu
    cases u with
    | none => exact (refuse_returns _ _ _).safe w hat
    | some me =>
      refine dispatch_safe hw (hw.username s me hu.symm) hjson ?_ w hat
      split at h
      next ht => exact (hp ht).elim
      next ht => exact (hr ht).elim
      next ht => exact (hl ht).elim
      next => exact h me hu.symm

/-- **One call.** From a world that reads back, a well-typed input returns and
leaves one that does. -/
theorem step_safe {w : World} (hw : ReadsBack w) {i : Input}
    (hjson : ∀ env, i.env = .dict env → Renders env) (h : WellTyped cfg w i) :
    (Step.of cfg w i).outcome = .ok () ∧ ReadsBack (Step.of cfg w i).after := by
  have htotal : Total exec (At w) (i.prog cfg) fun _ => ReadsBack := by
    cases i with
    | frame s f => exact handle_safe hw hjson h
    | hangup s => exact onDisconnect_safe
  obtain ⟨_, w', hrun, hback⟩ := htotal w hw.at
  have hout : (Step.of cfg w i).outcome = .ok () := congrArg Prod.fst hrun
  have hafter : (Step.of cfg w i).after = w' := congrArg Prod.snd hrun
  exact ⟨hout, hafter ▸ hback⟩

/-- An empty store can be read back. -/
theorem readsBack_start (uuid : Nat → Str) (clock : Nat → Int) (salt : Nat → List UInt8) :
    ReadsBack (World.start uuid clock salt) :=
  ⟨by simp [World.start], by simp [World.start], by simp [World.start], by simp [World.start]⟩

/-- In a run of well-typed inputs every world reads back and no handler raises. -/
theorem Run.safe {w : World} {tr : List Step} (h : Run cfg w₀ tr w) (h₀ : ReadsBack w₀)
    (hjson : ∀ st ∈ tr, ∀ env, st.input.env = .dict env → Renders env)
    (htyped : ∀ st ∈ tr, WellTyped cfg st.before st.input) :
    ReadsBack w ∧ ∀ st ∈ tr, st.outcome = .ok () := by
  induction h with
  | nil => exact ⟨h₀, by simp⟩
  | @snoc tr w _ i ih =>
    have hlast : Step.of cfg w i ∈ tr ++ [Step.of cfg w i] := by simp
    obtain ⟨hback, hall⟩ := ih (fun st hst => hjson st (List.mem_append_left _ hst))
      fun st hst => htyped st (List.mem_append_left _ hst)
    obtain ⟨hout, hafter⟩ := step_safe hback (hjson _ hlast) (htyped _ hlast)
    refine ⟨hafter, fun st hst => ?_⟩
    rcases List.mem_append.mp hst with hst | hst
    · exact hall st hst
    · obtain rfl := List.mem_singleton.mp hst
      exact hout

/-- **No frame makes the router raise**, in any run of well-typed frames. -/
theorem Run.never_raises {w : World} {tr : List Step} {uuid : Nat → Str} {clock : Nat → Int}
    {salt : Nat → List UInt8} (h : Run cfg (World.start uuid clock salt) tr w)
    (hjson : ∀ st ∈ tr, ∀ env, st.input.env = .dict env → Renders env)
    (htyped : ∀ st ∈ tr, WellTyped cfg st.before st.input) :
    ∀ st ∈ tr, st.outcome = .ok () :=
  (h.safe (readsBack_start uuid clock salt) hjson htyped).2

end Runs

/-! ## Concrete runs -/

namespace Sample

/-- Two people, one of them writing to the other, who then logs in. -/
def chat : List Input := [register "a", register "b", login 0 "a", msg 0 "b" "i", login 1 "b"]

/-- The object `{"type": "MSG", "to": 5}`. -/
def numberedTarget : Json := .dict [("type", .str "MSG"), ("to", .int 5)]

end Sample

section Inputs

open Sample

variable [Runtime]

/-- A REGISTER frame as the client sends it, -/
theorem registerFine_sample (cfg : Config) (w : World) {name : Str} (h : name.encodable = true) :
    WellTyped cfg w (register name) := by
  intro _ _
  exact ⟨name, rfl, fun _ => ⟨h, ⟨"p", rfl, by decide⟩, fun _ => ⟨none, rfl⟩⟩⟩

/-- a LOGIN, -/
theorem loginFine_sample (cfg : Config) (w : World) (s : Sid) {name : Str}
    (h : name.encodable = true) : WellTyped cfg w (login s name) := by
  intro _ _ _
  exact ⟨⟨some name, Sql.text_of_encodable h⟩, ⟨"p", rfl, by decide⟩, fun _ => ⟨name, rfl⟩⟩

end Inputs

section Concrete

open Sample

attribute [local instance] sampleRuntime

/-- and a MSG. -/
theorem messageFine_sample (w : World) (s : Sid) (target id : Str) (ht : target.encodable = true)
    (hi : id.encodable = true) : WellTyped chatServer w (msg s target id) := by
  intro me _ _
  refine ⟨target, rfl, fun _ => ht, fun _ _ => ?_⟩
  have hts : -2 ^ 63 ≤ (5 : Int) ∧ (5 : Int) < 2 ^ 63 := by decide
  refine ⟨⟨some id, Sql.text_of_encodable hi⟩, hts, fun _ => ?_⟩
  exact ⟨some "hi", some "n", rfl, rfl, fun _ _ _ hstar => absurd hstar (by decide)⟩

/-- An ordinary conversation raises nowhere. -/
theorem chat_never_raises :
    trace chatServer fresh chat ≠ [] ∧ ∀ st ∈ trace chatServer fresh chat, st.outcome = .ok () := by
  refine ⟨nofun, Run.never_raises (Run.of_inputs chatServer fresh chat) (fun st hst env he => ?_)
    fun st hst => ?_⟩
  all_goals
    simp only [chat, trace, List.mem_cons, List.not_mem_nil, or_false] at hst
    rcases hst with rfl | rfl | rfl | rfl | rfl
  any_goals cases he
  · exact registerFine_sample _ _ (by decide)
  · exact registerFine_sample _ _ (by decide)
  · exact loginFine_sample _ _ _ (by decide)
  · exact messageFine_sample _ _ _ _ (by decide) (by decide)
  · exact loginFine_sample _ _ _ (by decide)

/-- A MSG to a number decodes, and `startswith` on its target raises. -/
theorem numberedTarget_raises :
    ∃ tr w f, Run chatServer fresh tr w ∧ Frame.fromDict "q" 1 numberedTarget = .ok f ∧
      (Step.of chatServer w (.frame 0 f)).outcome = .error .attributeError :=
  ⟨_, _, { type := .msg, target := .int 5, id := .str "q", ts := 1 },
    Run.of_inputs chatServer fresh [register "a", login 0 "a"], by decide +kernel,
    by decide +kernel⟩

end Concrete

end Ciphertext
