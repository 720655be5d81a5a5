import Ciphertext.Server.Heard

/-!
# Member lists without polling

Every request that changes who is in a room ends by telling the room, each
member online getting the list as it is then. The exception is a request that
raises on the way there: INVITE joins the people it names one by one, and a name
sqlite cannot take raises with those before it joined and nobody told. A
CREATE_ROOM can raise in the same way, but of a new room nobody has a list yet.

`RoomDone` says of a step what is needed of it, and `step_roomDone` that every step does
it which is not an INVITE that stops half-way (`Interrupted`, a condition on the state
before it). So in every run without one, the last ROOM_STATE that a member online was
sent about a room lists its members as they are (`Run.listed`).
-/

namespace Ciphertext

open Prog MessageRouter

section Rooms

variable [Runtime]

/-! ## The frames -/

omit [Runtime] in
/-- A ROOM_STATE of this room. -/
def isRoomState (room : Str) (g : Frame) : Bool := g.type = .roomState && g.get "room" = .str room

omit [Runtime] in
/-- It lists the sorted members. -/
def Lists (room : Str) (w : World) (g : Frame) : Prop :=
  g.get "members" = .list ((Str.sorted (memberNames w room)).map .str)

/-- What a step does about a room, from the point of view of everybody's member lists. -/
inductive RoomDone (room : Str) (w w' : World) : Prop
  | quiet (hm : w'.memberships = w.memberships) (ds : List Delivery) (hs : w'.sent = w.sent ++ ds)
      (hq : ∀ d ∈ ds, d.frame.type ≠ .roomState)
  | fresh (hr : room ∉ w.rooms) (hm : ∀ r, r ≠ room → memberNames w' r = memberNames w r) (ds : List Delivery)
      (hs : w'.sent = w.sent ++ ds) (hq : ∀ d ∈ ds, d.frame.type ≠ .roomState)
  | told (hr : room ∈ w'.rooms) (hm : ∀ r, r ≠ room → memberNames w' r = memberNames w r) (ds : List Delivery)
      (hs : w'.sent = w.sent ++ ds)
      (hq : ∀ d ∈ ds, d.frame.type = .roomState → isRoomState room d.frame = true ∧ Lists room w' d.frame)
      (hall : ∀ u ∈ memberNames w' room, ∀ t, SessionRegistry.get w' (.str u) = some t →
        ∃ d ∈ ds, d.session = t ∧ isRoomState room d.frame = true)

/-- The members who are online, each with the frame. -/
def toMembers (w : World) (names : List Str) (g : Frame) : List Delivery :=
  names.filterMap fun name => (SessionRegistry.get w (.str name)).map fun t => ⟨t, w.username t, g⟩

omit [Runtime] in
/-- Telling these names something is sending it to those of them who are online. -/
theorem forEach_tell_exec [Runtime] (names : List Str) (g : Frame) (w : World) :
    RouterM.exec (forEach names fun name => do
      match ← sessionsGet (.str name) with
      | none => return
      | some member => send member g) w = (.ok (), { w with sent := w.sent ++ toMembers w names g }) := by
  induction names generalizing w with
  | nil => simp [toMembers]
  | cons name names ih =>
    rw [forEach_cons, RouterM.exec_bind, RouterM.exec_bind, RouterM.exec_call]
    simp only [exec]
    cases hg : SessionRegistry.get w (.str name) with
    | none =>
      have hcons : toMembers w (name :: names) g = toMembers w names g := by simp [toMembers, hg]
      rw [hcons]
      exact ih w
    | some t =>
      have hcons : toMembers w (name :: names) g = ⟨t, w.username t, g⟩ :: toMembers w names g := by
        simp [toMembers, hg]
      have hsame : toMembers (w.push t g) names g = toMembers w names g := rfl
      refine (ih (w.push t g)).trans ?_
      rw [hcons, hsame]
      simp [World.push]

omit [Runtime] in
/-- The world after a frame has been given an id and a time. -/
def World.dated (w : World) : World := { w with uuids := w.uuids + 1, reads := w.reads + 1 }

/-- Reading the members changes nothing. -/
theorem roomsMembers_exec {room : Str} (henc : room.encodable = true) (w : World) :
    (roomsMembers room).exec w = (.ok (memberNames w room), w) := by
  rw [RouterM.exec_call]
  simp [exec, SqliteRooms.members, memberNames, Sql.str, henc, Bind.bind, Except.bind, Pure.pure, Except.pure]

/-- The frame `_room_state` makes lists the members of that moment. -/
theorem roomState_exec {room : Str} (henc : room.encodable = true) (w : World) :
    ∃ g, (roomState room).exec w = (.ok g, w.dated) ∧ isRoomState room g = true ∧ Lists room w g := by
  unfold roomState
  rw [RouterM.exec_bind, roomsMembers_exec henc]
  refine ⟨_, rfl, ?_, rfl⟩
  rw [isRoomState, Bool.and_eq_true]
  exact ⟨rfl, decide_eq_true rfl⟩

/-- Every member who is online gets it. -/
theorem broadcastRoomState_exec {room : Str} (henc : room.encodable = true) (w : World) :
    ∃ g, isRoomState room g = true ∧ Lists room w g ∧ (broadcastRoomState room).exec w =
      (.ok (), { w.dated with sent := w.sent ++ toMembers w (Str.sorted (memberNames w room)) g }) := by
  obtain ⟨g, hg, hkind, hlists⟩ := roomState_exec henc w
  refine ⟨g, hkind, hlists, ?_⟩
  unfold broadcastRoomState
  rw [RouterM.exec_bind, hg]
  dsimp only
  rw [RouterM.exec_bind, roomsMembers_exec henc]
  exact forEach_tell_exec _ g w.dated

/-! ## The people an INVITE names -/

/-- Somebody has registered under this name. -/
def HasAccount (accounts : List Account) (name : Str) : Prop := ∃ a ∈ accounts, a.username = name

/-- A name that is looked up. -/
def Tried (v : Json) : Prop := v.pyStr.isEmpty = false ∧ v.pyStr.startsWith roomPrefix = false

/-- The first of the names that sqlite cannot take, with those before it. -/
structure Breaks (names pre : List Json) (v : Json) (post : List Json) : Prop where
  split : names = pre ++ v :: post
  before : ∀ x ∈ pre, Tried x → x.pyStr.encodable = true
  tried : Tried v
  broken : v.pyStr.encodable = false

/-- It comes after somebody who has an account and is not in the room. -/
def HalfWay (w : World) (room : Str) (names : List Json) : Prop :=
  ∃ pre v post, Breaks names pre v post ∧
    ∃ x ∈ pre, Tried x ∧ (∃ a ∈ w.accounts, a.username = x.pyStr) ∧ x.pyStr ∉ memberNames w room

/-- One more name in front, which sqlite can take. -/
theorem Breaks.cons {names pre post : List Json} {v x : Json} (h : Breaks names pre v post)
    (hx : Tried x → x.pyStr.encodable = true) : Breaks (x :: names) (x :: pre) v post := by
  refine ⟨by rw [h.split]; rfl, fun y hy => ?_, h.tried, h.broken⟩
  rcases List.mem_cons.mp hy with rfl | hy
  · exact hx
  · exact h.before y hy

/-- The same for being half way. -/
theorem HalfWay.cons {w : World} {room : Str} {names : List Json} {x : Json} (h : HalfWay w room names)
    (hx : Tried x → x.pyStr.encodable = true) : HalfWay w room (x :: names) := by
  obtain ⟨pre, v, post, hb, y, hy, hrest⟩ := h
  exact ⟨_, _, _, hb.cons hx, y, List.mem_cons_of_mem _ hy, hrest⟩

/-- What is said of the memberships that joining these people leaves. -/
structure Joined (w : World) (room : Str) (names : List Json) (res : Except PyErr (List Str)) (w' : World) : Prop where
  same : ∃ ms, w' = { w with memberships := ms }
  others : ∀ r, r ≠ room → memberNames w' r = memberNames w r
  nobody : res = .ok [] → w' = w
  raised : ∀ e, res = .error e → (∃ pre v post, Breaks names pre v post) ∧ (w' = w ∨ HalfWay w room names)

omit [Runtime] in
/-- A new row for one room is none for another. -/
theorem memberNames_addOnce {w : World} {room name r : Str} (hne : r ≠ room) :
    memberNames { w with memberships := addOnce w.memberships (room, name) } r = memberNames w r := by
  unfold memberNames addOnce
  dsimp only
  split
  · rfl
  · rw [List.filter_append]
    simp [Ne.symm hne]

omit [Runtime] in
/-- The members are the rows of the room. -/
theorem mem_memberNames {w : World} {r u : Str} : u ∈ memberNames w r ↔ (r, u) ∈ w.memberships := by
  simp [memberNames]

/-- Joining a room that exists adds the one row. -/
theorem roomsJoin_exec {room name : Str} {w : World} (henc : room.encodable = true) (hr : room ∈ w.rooms)
    (hn : name.encodable = true) : (roomsJoin room (.str name)).exec w =
      (.ok (), { w with memberships := addOnce w.memberships (room, name) }) := by
  have hjoin : SqliteRooms.join w room (.str name) =
      .ok { w with memberships := addOnce w.memberships (room, name) } := by
    have htext : Sql.text (.str name) = .ok (some name) := Sql.text_of_encodable hn
    have hknown : w.rooms.contains room = true := by simpa using hr
    unfold SqliteRooms.join addOnce
    simp only [Bind.bind, Except.bind, Pure.pure, Except.pure, Sql.str, henc, if_true, htext, hknown]
    by_cases hin : w.memberships.contains (room, name) = true
    · rw [if_pos hin, if_pos hin]
    · rw [if_neg hin, if_neg hin]
  rw [RouterM.exec_call]
  simp only [exec, hjoin]
  rfl

omit [Runtime] in
/-- `exists` looks for the row with that name. -/
theorem usersExists_eq {name : Str} (hn : name.encodable = true) (w : World) :
    SqliteUsers.exists' w name = .ok (w.accounts.any fun a => a.username == name) := by
  simp [SqliteUsers.exists', Sql.str, hn, Bind.bind, Except.bind, Pure.pure, Except.pure]

omit [Runtime] in
/-- Some row has the name. -/
theorem any_account {accounts : List Account} {name : Str} :
    (accounts.any fun a => a.username == name) = true ↔ HasAccount accounts name := by
  simp [HasAccount]

/-- A name that is not looked up is passed over. -/
theorem joinAll_skip {v : Json} (hv : ¬ Tried v) (room : Str) (rest : List Json) :
    joinAll room (v :: rest) = joinAll room rest := by
  have hcond : (!v.pyStr.isEmpty && !v.pyStr.startsWith roomPrefix) = false := by
    unfold Tried at hv
    cases he : v.pyStr.isEmpty <;> cases hp : v.pyStr.startsWith roomPrefix <;> simp [he, hp] at hv ⊢
  rw [joinAll]
  simp only [hcond]
  rfl

/-- One that is: somebody is joined if they have an account. -/
theorem joinAll_tried {w : World} {room : Str} {v : Json} (hv : Tried v) (henc : room.encodable = true) (hr : room ∈ w.rooms)
    (hn : v.pyStr.encodable = true) (rest : List Json) :
    (HasAccount w.accounts v.pyStr → (joinAll room (v :: rest)).exec w =
      (joinAll room rest >>= fun added => Pure.pure (v.pyStr :: added)).exec
        { w with memberships := addOnce w.memberships (room, v.pyStr) }) ∧
    (¬ HasAccount w.accounts v.pyStr → (joinAll room (v :: rest)).exec w = (joinAll room rest).exec w) := by
  have hcond : (!v.pyStr.isEmpty && !v.pyStr.startsWith roomPrefix) = true := by simp [hv.1, hv.2]
  rw [joinAll]
  simp only [hcond, if_true]
  rw [RouterM.exec_bind, RouterM.exec_call]
  simp only [exec]
  rw [usersExists_eq hn]
  constructor
  · intro hacc
    rw [any_account.mpr hacc]
    simp only [if_true]
    rw [RouterM.exec_bind, roomsJoin_exec henc hr hn]
  · intro hacc
    have hno : (w.accounts.any fun a => a.username == v.pyStr) = false := by
      rwa [← Bool.not_eq_true, any_account]
    rw [hno]
    simp

/-- One that sqlite cannot take raises. -/
theorem joinAll_breaks {v : Json} (hv : Tried v) (hn : v.pyStr.encodable = false) (room : Str) (rest : List Json) (w : World) :
    (joinAll room (v :: rest)).exec w = (.error .unicodeEncodeError, w) := by
  have hcond : (!v.pyStr.isEmpty && !v.pyStr.startsWith roomPrefix) = true := by simp [hv.1, hv.2]
  have hraise : SqliteUsers.exists' w v.pyStr = .error .unicodeEncodeError := by
    simp [SqliteUsers.exists', Sql.str, hn, Bind.bind, Except.bind]
  rw [joinAll]
  simp only [hcond, if_true]
  rw [RouterM.exec_bind, RouterM.exec_call]
  simp only [exec, hraise]

/-- Somebody is joined, and then the rest. -/
theorem Joined.cons {w w' : World} {room : Str} {rest : List Json} {v : Json} {res : Except PyErr (List Str)} (hv : Tried v)
    (hn : v.pyStr.encodable = true) (hacc : HasAccount w.accounts v.pyStr)
    (h : Joined { w with memberships := addOnce w.memberships (room, v.pyStr) } room rest res w') :
    Joined w room (v :: rest) (res.map fun added => v.pyStr :: added) w' := by
  have hothers : ∀ r, r ≠ room → memberNames w' r = memberNames w r :=
    fun r hne => (h.others r hne).trans (memberNames_addOnce hne)
  refine ⟨h.same, hothers, fun hres => ?_, fun e hres => ?_⟩
  · cases res <;> cases hres
  · cases res with
    | ok added => cases hres
    | error err =>
      obtain ⟨⟨pre, x, post, hb⟩, hw⟩ := h.raised err rfl
      refine ⟨⟨_, _, _, hb.cons fun _ => hn⟩, ?_⟩
      by_cases hin : (room, v.pyStr) ∈ w.memberships
      · -- nobody new: the rest is dealt with in the same world
        have hold : addOnce w.memberships (room, v.pyStr) = w.memberships := by simp [addOnce, hin]
        rw [hold] at hw
        exact hw.imp_right fun hh => hh.cons fun _ => hn
      · exact .inr ⟨_, _, _, hb.cons fun _ => hn, v, List.mem_cons_self .., hv, hacc, fun hm => hin (mem_memberNames.mp hm)⟩

/-- **Joining these people** changes the memberships of this room only, and what raises has
met a name that sqlite cannot take. -/
theorem joinAll_exec {room : Str} (henc : room.encodable = true) (names : List Json) {w : World}
    (hr : room ∈ w.rooms) : Joined w room names ((joinAll room names).exec w).1 ((joinAll room names).exec w).2 := by
  induction names generalizing w with
  | nil => exact ⟨⟨_, rfl⟩, fun _ _ => rfl, fun _ => rfl, nofun⟩
  | cons v rest ih =>
    -- the rest is dealt with in the same world
    have hskip : (Tried v → v.pyStr.encodable = true) →
        Joined w room (v :: rest) ((joinAll room rest).exec w).1 ((joinAll room rest).exec w).2 := by
      intro hv
      have h := ih hr
      refine ⟨h.same, h.others, h.nobody, fun e he => ?_⟩
      obtain ⟨⟨pre, x, post, hb⟩, hw⟩ := h.raised e he
      exact ⟨⟨_, _, _, hb.cons hv⟩, hw.imp_right fun hh => hh.cons hv⟩
    by_cases hv : Tried v
    case neg =>
      rw [joinAll_skip hv]
      exact hskip fun htried => absurd htried hv
    by_cases hn : v.pyStr.encodable = true
    case neg =>
      have hn' : v.pyStr.encodable = false := by simpa using hn
      rw [joinAll_breaks hv hn']
      exact ⟨⟨_, rfl⟩, fun _ _ => rfl, nofun, fun e _ => ⟨⟨[], v, rest, rfl, nofun, hv, hn'⟩, .inl rfl⟩⟩
    by_cases hacc : HasAccount w.accounts v.pyStr
    · have hrest := (ih (w := { w with memberships := addOnce w.memberships (room, v.pyStr) }) hr).cons hv hn hacc
      rw [(joinAll_tried hv henc hr hn rest).1 hacc, RouterM.exec_bind]
      revert hrest
      rcases (joinAll room rest).exec { w with memberships := addOnce w.memberships (room, v.pyStr) } with ⟨e | added, w'⟩
      · exact id
      · exact id
    · rw [(joinAll_tried hv henc hr hn rest).2 hacc]
      exact hskip fun _ => hn

/-! ## The requests -/

variable {room : Str} {w : World} {s : Sid} {me : Json} {f : Frame}

/-- A refusal sends one ERROR to the session. -/
theorem refuse_exec (w : World) (s : Sid) (code message : Str) : ∃ g : Frame, g.type = .error ∧
    (refuse s code message).exec w = (.ok (), { w.dated with sent := w.sent ++ [⟨s, w.username s, g⟩] }) :=
  ⟨_, rfl, rfl⟩

/-- A refused request has told nobody anything of a room. -/
theorem RoomDone.turnedDown (room : Str) (w : World) (s : Sid) (code message : Str) :
    RoomDone room w ((refuse s code message).exec w).2 := by
  obtain ⟨g, hg, hrun⟩ := refuse_exec w s code message
  rw [hrun]
  refine .quiet rfl [⟨s, w.username s, g⟩] rfl fun d hd => ?_
  rw [List.mem_singleton.mp hd]
  simp [hg]

omit [Runtime] in
/-- Nor has one that did nothing. -/
theorem RoomDone.rest (room : Str) (w : World) : RoomDone room w w :=
  .quiet rfl [] (List.append_nil _).symm nofun

/-- Telling the room ends well whatever the memberships were before. -/
theorem RoomDone.broadcast {w₁ : World} (henc : room.encodable = true) (hr : room ∈ w₁.rooms) (ds : List Delivery)
    (hothers : ∀ r, r ≠ room → memberNames w₁ r = memberNames w r) (hs : w₁.sent = w.sent ++ ds)
    (hq : ∀ d ∈ ds, d.frame.type ≠ .roomState) : RoomDone room w ((broadcastRoomState room).exec w₁).2 := by
  obtain ⟨g, hkind, hlists, hrun⟩ := broadcastRoomState_exec henc w₁
  rw [hrun]
  refine .told hr hothers (ds ++ toMembers w₁ (Str.sorted (memberNames w₁ room)) g) ?_ (fun d hd ht => ?_)
    fun u hu t hget => ?_
  · show w₁.sent ++ _ = _
    rw [hs, List.append_assoc]
  · rcases List.mem_append.mp hd with hd | hd
    · exact (hq d hd ht).elim
    · obtain ⟨name, -, hname⟩ := List.mem_filterMap.mp hd
      obtain ⟨t, -, rfl⟩ := Option.map_eq_some_iff.mp hname
      exact ⟨hkind, hlists⟩
  · refine ⟨⟨t, w₁.username t, g⟩, List.mem_append_right _ (List.mem_filterMap.mpr ⟨u, ?_, ?_⟩), rfl, hkind⟩
    · exact Str.mem_sorted.mpr hu
    · rw [show SessionRegistry.get w₁ (.str u) = some t from hget]
      rfl

/-- A handler that needs the name of a room. -/
theorem roomName_done {k : Option Str → RouterM Unit} (hnone : k none = Prog.pure ())
    (hk : ∀ room, roomProblem (f.get "room") = .ok room → ∃ r, RoomDone r w ((k (some room)).exec w).2) :
    ∃ r, RoomDone r w ((roomName s f >>= k).exec w).2 := by
  unfold roomName
  cases hr : roomProblem (f.get "room") with
  | error message =>
    refine ⟨[], ?_⟩
    have hdone := RoomDone.turnedDown [] w s "BAD_ROOM" message
    dsimp only
    rw [bind_assoc', RouterM.exec_bind]
    generalize (refuse s "BAD_ROOM" message).exec w = res at hdone
    obtain ⟨e | u, w'⟩ := res
    · exact hdone
    · dsimp only
      rw [show (Pure.pure none : RouterM (Option Str)) >>= k = k none from rfl, hnone]
      exact hdone
  | ok room => exact hk room hr

omit [Runtime] in
theorem exists_ok {b : Bool} (h : SqliteRooms.exists' w room = .ok b) :
    room.encodable = true ∧ (b = true → room ∈ w.rooms) := by
  unfold SqliteRooms.exists' at h
  simp only [Bind.bind, Except.bind, Pure.pure, Except.pure] at h
  split at h
  · cases h
  next r hr =>
    obtain ⟨henc, rfl⟩ := Sql.str_ok.mp hr
    cases h
    exact ⟨henc, fun hb => by simpa using hb⟩

/-- Joining or leaving, and then telling the room. -/
theorem RoomDone.changed {w₁ : World} (henc : room.encodable = true) (hr : room ∈ w₁.rooms)
    (hothers : ∀ r, r ≠ room → memberNames w₁ r = memberNames w r) (hs : w₁.sent = w.sent) :
    RoomDone room w ((broadcastRoomState room).exec w₁).2 :=
  .broadcast henc hr [] hothers (hs.trans (List.append_nil _).symm) nofun

/-- **JOIN**. -/
theorem join_done (s : Sid) (me : Json) (f : Frame) (w : World) :
    ∃ r, RoomDone r w ((join s me f).exec w).2 := by
  unfold join
  refine roomName_done rfl fun room _ => ⟨room, ?_⟩
  dsimp only
  rw [RouterM.exec_bind, RouterM.exec_call]
  simp only [exec]
  cases he : SqliteRooms.exists' w room with
  | error e => exact .rest room w
  | ok b =>
    obtain ⟨henc, -⟩ := exists_ok he
    cases b with
    | false => exact .turnedDown room w s _ _
    | true =>
      simp only [Bool.not_true, Bool.false_eq_true, if_false]
      rw [RouterM.exec_bind, RouterM.exec_call]
      simp only [exec]
      cases hj : SqliteRooms.join w room me with
      | error e => exact .rest room w
      | ok w₁ =>
        have hin : room ∈ addOnce w.rooms room := mem_addOnce.mpr (.inr rfl)
        obtain ⟨-, ⟨-, rfl⟩ | ⟨name, -, rfl⟩⟩ := SqliteRooms.join_cases hj
        · exact .changed henc hin (fun r _ => rfl) rfl
        · exact .changed henc hin (fun r hne => memberNames_addOnce hne) rfl

/-- **LEAVE**, of a room that exists if anybody is in it. -/
theorem leave_done (s : Sid) (me : Json) (f : Frame) (w : World) (hknown : ∀ m ∈ w.memberships, m.1 ∈ w.rooms) :
    ∃ r, RoomDone r w ((leave s me f).exec w).2 := by
  unfold leave
  refine roomName_done rfl fun room _ => ⟨room, ?_⟩
  dsimp only
  by_cases henc : room.encodable = true
  case neg =>
    rw [RouterM.exec_bind, RouterM.exec_call]
    simp only [exec, SqliteRooms.members, Sql.str, henc, Bind.bind, Except.bind]
    exact .rest room w
  rw [RouterM.exec_bind, roomsMembers_exec henc]
  dsimp only
  by_cases hin : ((memberNames w room).map Json.str).contains me = true
  case neg =>
    simp only [hin]
    exact .turnedDown room w s _ _
  simp only [hin, Bool.not_true, Bool.false_eq_true, if_false]
  rw [RouterM.exec_bind, RouterM.exec_call]
  simp only [exec]
  cases hl : SqliteRooms.leave w room me with
  | error e => exact .rest room w
  | ok w₁ =>
    obtain ⟨-, name, -, rfl⟩ := SqliteRooms.leave_cases hl
    generalize hw₁ : ({ w with memberships := w.memberships.filter fun m => !(m.1 == room && some m.2 == name) } :
      World) = w₁
    -- no other room loses anybody
    have hothers : ∀ r, r ≠ room → memberNames w₁ r = memberNames w r := by
      intro r hne
      rw [← hw₁]
      unfold memberNames
      rw [List.filter_filter]
      refine congrArg _ (List.filter_congr fun m _ => ?_)
      by_cases hm : m.1 = r
      · simp [hm, hne]
      · simp [hm]
    have hs : w₁.sent = w.sent := by rw [← hw₁]
    -- the room stays, also when its last member has gone
    have hroom : room ∈ w₁.rooms := by
      obtain ⟨n, hn, -⟩ := List.mem_map.mp (List.contains_iff_mem.mp hin)
      obtain ⟨m, hm, -⟩ := List.mem_map.mp hn
      obtain ⟨hmem, hmr⟩ := List.mem_filter.mp hm
      rw [← hw₁, ← beq_iff_eq.mp hmr]
      exact hknown m hmem
    obtain ⟨g, hkind, hlists, hrun⟩ := broadcastRoomState_exec henc w₁
    obtain ⟨g', hrun', hkind', hlists'⟩ := roomState_exec henc
      { w₁.dated with sent := w₁.sent ++ toMembers w₁ (Str.sorted (memberNames w₁ room)) g }
    dsimp only [commit']
    rw [RouterM.exec_bind, hrun]
    dsimp only
    rw [RouterM.exec_bind, hrun']
    -- the room is told, and then whoever left
    refine .told hroom hothers (toMembers w₁ (Str.sorted (memberNames w₁ room)) g ++ [⟨s, w₁.username s, g'⟩]) ?_
      (fun d hd _ => ?_) fun u hu t hget => ?_
    · show (w₁.sent ++ _) ++ _ = _
      rw [hs, List.append_assoc]
      rfl
    · rcases List.mem_append.mp hd with hd | hd
      · obtain ⟨n, -, hn⟩ := List.mem_filterMap.mp hd
        obtain ⟨t, -, rfl⟩ := Option.map_eq_some_iff.mp hn
        exact ⟨hkind, hlists⟩
      · rw [List.mem_singleton.mp hd]
        exact ⟨hkind', hlists'⟩
    · refine ⟨⟨t, w₁.username t, g⟩, List.mem_append_left _ (List.mem_filterMap.mpr ⟨u, ?_, ?_⟩), rfl, hkind⟩
      · exact Str.mem_sorted.mpr hu
      · rw [show SessionRegistry.get w₁ (.str u) = some t from hget]
        rfl

/-- The people a request names: the first 64, if it names any. -/
def namesIn (f : Frame) : List Json :=
  match f.get "members" with
  | .list names => names.take 64
  | _ => []

omit [Runtime] in
theorem addMembers_eq [Runtime] (room : Str) (f : Frame) : addMembers room (f.get "members") = joinAll room (namesIn f) := by
  unfold addMembers namesIn
  cases f.get "members" <;> rfl

/-- **CREATE_ROOM**. -/
theorem createRoom_done (s : Sid) (me : Json) (f : Frame) (w : World) :
    ∃ r, RoomDone r w ((createRoom s me f).exec w).2 := by
  unfold createRoom
  refine roomName_done rfl fun room _ => ⟨room, ?_⟩
  dsimp only
  rw [RouterM.exec_bind, RouterM.exec_call]
  simp only [exec]
  cases hc : SqliteRooms.create w room with
  | error e => exact .rest room w
  | ok r =>
    obtain ⟨b, w₁⟩ := r
    obtain ⟨henc, ⟨rfl, rfl, -⟩ | ⟨rfl, hnew, rfl⟩⟩ := SqliteRooms.create_cases hc
    · exact .turnedDown room w₁ s _ _
    simp only [commit, Bool.not_true, Bool.false_eq_true, if_false]
    rw [RouterM.exec_bind, RouterM.exec_call]
    simp only [exec]
    cases hj : SqliteRooms.join { w with rooms := w.rooms ++ [room] } room me with
    | error e => exact .fresh hnew (fun r _ => rfl) [] (List.append_nil _).symm (List.forall_mem_nil _)
    | ok w₂ =>
      have hjoined : (∀ r, r ≠ room → memberNames w₂ r = memberNames w r) ∧ w₂.sent = w.sent ∧ room ∈ w₂.rooms := by
        have hin : room ∈ addOnce (w.rooms ++ [room]) room := mem_addOnce.mpr (.inr rfl)
        obtain ⟨-, ⟨-, rfl⟩ | ⟨name, -, rfl⟩⟩ := SqliteRooms.join_cases hj
        · exact ⟨fun r _ => rfl, rfl, hin⟩
        · exact ⟨fun r hne => memberNames_addOnce hne, rfl, hin⟩
      obtain ⟨hothers, hs, hroom⟩ := hjoined
      dsimp only [commit']
      rw [addMembers_eq, RouterM.exec_bind]
      have hadd := joinAll_exec henc (namesIn f) hroom
      generalize (joinAll room (namesIn f)).exec w₂ = res at hadd
      obtain ⟨res, w₃⟩ := res
      have hothers' : ∀ r, r ≠ room → memberNames w₃ r = memberNames w r :=
        fun r hne => (hadd.others r hne).trans (hothers r hne)
      obtain ⟨ms, hms⟩ := hadd.same
      have hs' : w₃.sent = w.sent := by
        rw [show w₃ = _ from hms]
        exact hs
      have hroom' : room ∈ w₃.rooms := by
        rw [show w₃ = _ from hms]
        exact hroom
      cases res with
      | error e => exact .fresh hnew hothers' [] (hs'.trans (List.append_nil _).symm) (List.forall_mem_nil _)
      | ok added => exact .changed henc hroom' hothers' hs'

/-- The names that are missing are those neither added nor members. -/
theorem missingNames_eq (henc : room.encodable = true) (added : List Str) (names : List Json) (w : World) :
    (missingNames room added names).exec w =
      (.ok ((names.map Json.pyStr).filter fun n => !(added.contains n || (memberNames w room).contains n)), w) := by
  induction names with
  | nil => rfl
  | cons v rest ih =>
    unfold missingNames
    rw [List.map_cons, List.filter_cons]
    by_cases ha : added.contains v.pyStr = true
    · rw [if_pos ha, ih, ha]
      rfl
    · rw [if_neg ha, RouterM.exec_bind, roomsMembers_exec henc]
      dsimp only
      by_cases hm : (memberNames w room).contains v.pyStr = true
      · rw [if_pos hm, ih, hm]
        simp
      · have hkeep : (!(added.contains v.pyStr || (memberNames w room).contains v.pyStr)) = true := by
          rw [Bool.not_eq_true] at ha hm
          rw [ha, hm]
          rfl
        rw [if_neg hm, RouterM.exec_bind, ih, if_pos hkeep]
        rfl

/-- Working out who is missing changes nothing. -/
theorem missingNames_bind {β : Type} {k : List Str → RouterM β} {Q : Except PyErr β × World → Prop}
    (henc : room.encodable = true) (added : List Str) (names : List Json) (w : World)
    (hk : ∀ missing, Q ((k missing).exec w)) : Q ((missingNames room added names >>= k).exec w) := by
  rw [RouterM.exec_bind, missingNames_eq henc]
  exact hk _

/-- Naming those who are missing changes nothing. -/
theorem reportMissing_exec (s : Sid) (missing : List Str) (w : World) :
    ∃ w' ds, (reportMissing s missing).exec w = (.ok (), w') ∧
      (∀ d ∈ (ds : List Delivery), d.frame.type ≠ .roomState) ∧ w'.sent = w.sent ++ ds ∧
      w'.memberships = w.memberships ∧ w'.rooms = w.rooms := by
  unfold reportMissing
  by_cases hnone : missing.isEmpty = true
  · rw [if_pos hnone]
    exact ⟨w, [], rfl, nofun, (List.append_nil _).symm, rfl, rfl⟩
  · rw [if_neg hnone]
    obtain ⟨g, hg, hrun⟩ := refuse_exec w s "NO_SUCH_USER"
      (fstr ["not registered: ", Str.join ", " (Str.sorted missing.dedup)])
    refine ⟨_, [⟨s, w.username s, g⟩], hrun, fun d hd => ?_, rfl, rfl, rfl⟩
    rw [List.mem_singleton.mp hd]
    simp [hg]

/-- An INVITE that a member may make, and that stops half-way. -/
def Interrupted (w : World) (i : Input) : Prop :=
  ∃ s f me room, i = .frame s f ∧ f.type = .invite ∧ w.username s = some me ∧
    roomProblem (f.get "room") = .ok room ∧ room ∈ w.rooms ∧ me ∈ (memberNames w room).map Json.str ∧
      HalfWay w room (namesIn f)

/-- **INVITE**, unless it stops half way. -/
theorem invite_done (s : Sid) (me : Json) (f : Frame) (w : World)
    (hwhole : ∀ room, roomProblem (f.get "room") = .ok room → room ∈ w.rooms →
      me ∈ (memberNames w room).map Json.str → ¬ HalfWay w room (namesIn f)) :
    ∃ r, RoomDone r w ((invite s me f).exec w).2 := by
  unfold invite
  refine roomName_done rfl fun room hroom => ⟨room, ?_⟩
  dsimp only
  rw [RouterM.exec_bind, RouterM.exec_call]
  simp only [exec]
  cases he : SqliteRooms.exists' w room with
  | error e => exact .rest room w
  | ok b =>
    obtain ⟨henc, hin⟩ := exists_ok he
    cases b with
    | false => exact .turnedDown room w s _ _
    | true =>
      simp only [Bool.not_true, Bool.false_eq_true, if_false]
      rw [RouterM.exec_bind, roomsMembers_exec henc]
      dsimp only
      by_cases hme : ((memberNames w room).map Json.str).contains me = true
      case neg =>
        simp only [hme]
        exact .turnedDown room w s _ _
      simp only [hme, Bool.not_true, Bool.false_eq_true, if_false]
      -- members are joined one after the other; an exception in between is the case left out
      have hno := hwhole room hroom (hin rfl) (by simpa using hme)
      rw [addMembers_eq, RouterM.exec_bind]
      have hadd := joinAll_exec henc (namesIn f) (hin rfl)
      generalize (joinAll room (namesIn f)).exec w = res at hadd
      obtain ⟨res, w₁⟩ := res
      obtain ⟨ms, hms⟩ := hadd.same
      have hs : w₁.sent = w.sent := by rw [show w₁ = _ from hms]
      cases res with
      | error e =>
        -- it raised before anybody was joined
        obtain rfl : w₁ = w := (hadd.raised e rfl).2.resolve_right hno
        exact .rest room w₁
      | ok added =>
        dsimp only
        refine missingNames_bind (Q := fun r => RoomDone room w r.2) henc _ _ _ fun missing => ?_
        obtain ⟨w₂, ds, hreport, hq, hsent, hm, hrooms⟩ := reportMissing_exec s missing w₁
        rw [RouterM.exec_bind, hreport]
        dsimp only
        cases added with
        | nil =>
          obtain rfl : w₁ = w := hadd.nobody rfl
          exact .quiet hm ds hsent hq
        | cons name added =>
          have hroom' : room ∈ w₂.rooms := by
            rw [hrooms, show w₁ = _ from hms]
            exact hin rfl
          refine .broadcast henc hroom' ds (fun r hne => ?_) (hsent.trans (congrArg (· ++ ds) hs)) hq
          rw [← hadd.others r hne]
          unfold memberNames
          rw [hm]

/-! ## Steps -/

variable {cfg : Config} {tr : List Step} {i : Input}

/-- What changes nobody's membership and sends no ROOM_STATE does nothing about any room. -/
theorem roomDone_of_type {t : MessageType} (hf : f.type = t) (hm : Field.memberships ∉ t.fields)
    (hy : MessageType.roomState ∉ MessageType.error :: t.yields) (w : World) :
    RoomDone [] w (Step.of cfg w (.frame s f)).after := by
  subst hf
  refine .quiet (handle_same cfg s f w (x := .memberships) (by simp) hm) _ (Step.sent_of cfg w _) fun d hd ht => ?_
  rw [← ht] at hy
  exact hy (Step.out_type hd)

/-- **Every step** leaves the lists as they were, or tells the room, or is an INVITE
that stops half-way. -/
theorem step_roomDone (cfg : Config) (hknown : ∀ m ∈ w.memberships, m.1 ∈ w.rooms) (hi : ¬ Interrupted w i) :
    ∃ room, RoomDone room w (Step.of cfg w i).after := by
  cases i with
  | hangup s =>
    refine ⟨[], .quiet (onDisconnect_same s w (x := .memberships) (by simp) (by simp) (by simp)) _
      (Step.sent_of cfg w _) fun d hd ht => ?_⟩
    rw [Step.out_hangup hd] at ht
    cases ht
  | frame s f =>
    -- the four requests about rooms, from somebody logged in
    have hroom : f.type = .createRoom ∨ f.type = .invite ∨ f.type = .join ∨ f.type = .leave →
        ∃ room, RoomDone room w (Step.of cfg w (.frame s f)).after := by
      intro ht
      have hp : f.type ≠ .ping ∧ f.type ≠ .register ∧ f.type ≠ .login := by
        rcases ht with ht | ht | ht | ht <;> simp [ht]
      obtain ⟨hp, hr, hl⟩ := hp
      cases hu : w.username s with
      | none =>
        have hrun : (Step.of cfg w (.frame s f)).after = _ := congrArg Prod.snd (handle_nobody cfg s hp hr hl hu)
        rw [hrun]
        exact ⟨[], .turnedDown [] w s _ _⟩
      | some me =>
        have hrun : (Step.of cfg w (.frame s f)).after = ((dispatch cfg s me f).exec w).2 :=
          congrArg Prod.snd (handle_dispatch cfg s hp hr hl hu)
        rw [hrun]
        unfold dispatch
        rcases ht with ht | ht | ht | ht <;> rw [ht]
        · exact createRoom_done s me f w
        · refine invite_done s me f w fun room hroom hin hme hhalf => hi ?_
          exact ⟨s, f, me, room, rfl, ht, hu, hroom, hin, hme, hhalf⟩
        · exact join_done s me f w
        · exact leave_done s me f w hknown
    cases ht : f.type with
    | createRoom => exact hroom (.inl ht)
    | invite => exact hroom (.inr (.inl ht))
    | join => exact hroom (.inr (.inr (.inl ht)))
    | leave => exact hroom (.inr (.inr (.inr ht)))
    | _ => exact ⟨[], roomDone_of_type ht (by simp [MessageType.fields]) (by simp [MessageType.yields]) w⟩

/-! ## Runs -/

/-- Every room that somebody is in exists. -/
def Housed (w : World) : Prop := ∀ m ∈ w.memberships, m.1 ∈ w.rooms

/-- Rooms stay, and nobody is in one that does not exist. -/
theorem exec_housed (o : Op) (w : World) (h : Housed w) :
    Housed (exec o w).2 ∧ ∀ room ∈ w.rooms, room ∈ (exec o w).2.rooms := by
  by_cases hx : Field.memberships ∈ o.writesTo ∨ Field.rooms ∈ o.writesTo
  · cases o with
    | roomsCreate room =>
      show Housed (commit w (SqliteRooms.create w room)).2 ∧ _
      simp only [exec]
      cases hc : SqliteRooms.create w room with
      | error e => exact ⟨h, fun r hr => hr⟩
      | ok res =>
        obtain ⟨b, w'⟩ := res
        obtain ⟨-, ⟨-, rfl, -⟩ | ⟨-, -, rfl⟩⟩ := SqliteRooms.create_cases hc
        · exact ⟨h, fun r hr => hr⟩
        · exact ⟨fun m hm => List.mem_append_left _ (h m hm), fun r hr => List.mem_append_left _ hr⟩
    | roomsJoin room u =>
      show Housed (commit' w (SqliteRooms.join w room u)).2 ∧ _
      simp only [exec]
      cases hj : SqliteRooms.join w room u with
      | error e => exact ⟨h, fun r hr => hr⟩
      | ok w' =>
        have hgrow : ∀ r ∈ w.rooms, r ∈ addOnce w.rooms room := fun r hr => mem_addOnce.mpr (.inl hr)
        obtain ⟨-, ⟨-, rfl⟩ | ⟨name, -, rfl⟩⟩ := SqliteRooms.join_cases hj
        · exact ⟨fun m hm => hgrow _ (h m hm), hgrow⟩
        · refine ⟨fun m hm => ?_, hgrow⟩
          rcases mem_addOnce.mp hm with hm | rfl
          · exact hgrow _ (h m hm)
          · exact mem_addOnce.mpr (.inr rfl)
    | roomsLeave room u =>
      show Housed (commit' w (SqliteRooms.leave w room u)).2 ∧ _
      simp only [exec]
      cases hl : SqliteRooms.leave w room u with
      | error e => exact ⟨h, fun r hr => hr⟩
      | ok w' =>
        obtain ⟨-, name, -, rfl⟩ := SqliteRooms.leave_cases hl
        exact ⟨fun m hm => h m (List.mem_of_mem_filter hm), fun r hr => hr⟩
    | _ => simp [Op.writesTo] at hx
  · simp only [not_or] at hx
    have hm : (exec o w).2.memberships = w.memberships := exec_same o w hx.1
    have hr : (exec o w).2.rooms = w.rooms := exec_same o w hx.2
    unfold Housed
    rw [hm, hr]
    exact ⟨h, fun r hr => hr⟩

/-- Every step keeps the rooms there are, and nobody is in a room that does not exist. -/
theorem step_housed (cfg : Config) (i : Input) (h : Housed w) :
    Housed (Step.of cfg w i).after ∧ ∀ room ∈ w.rooms, room ∈ (Step.of cfg w i).after.rooms := by
  refine (Uses.keeps (I := fun w' => Housed w' ∧ ∀ room ∈ w.rooms, room ∈ w'.rooms) (uses_any (i.prog cfg)) ?_ w
    ⟨h, fun r hr => hr⟩).1
  intro o _ w' hw'
  obtain ⟨hhoused, hgrow⟩ := exec_housed o w' hw'.1
  exact ⟨hhoused, fun r hr => hgrow r (hw'.2 r hr)⟩

/-- There has been a ROOM_STATE only for rooms that exist. -/
def Founded (w : World) : Prop := ∀ d ∈ w.sent, ∀ room, isRoomState room d.frame = true → room ∈ w.rooms

omit [Runtime] in
theorem isRoomState_iff {g : Frame} : isRoomState room g = true ↔ g.type = .roomState ∧ g.get "room" = .str room := by
  simp [isRoomState]

/-- Every step that is not interrupted keeps it. -/
theorem step_founded (h : Founded w) (hhoused : Housed w) (hi : ¬ Interrupted w i) :
    Founded (Step.of cfg w i).after := by
  obtain ⟨-, hgrow⟩ := step_housed cfg i hhoused
  obtain ⟨r, hdone⟩ := step_roomDone cfg hhoused hi
  intro d hd room hroom
  have hold : d ∈ w.sent → room ∈ (Step.of cfg w i).after.rooms := fun hin => hgrow room (h d hin room hroom)
  cases hdone with
  | quiet _ ds hs hq | fresh _ _ ds hs hq =>
    rw [hs] at hd
    rcases List.mem_append.mp hd with hd | hd
    · exact hold hd
    · exact (hq d hd (isRoomState_iff.mp hroom).1).elim
  | told hr _ ds hs hq _ =>
    rw [hs] at hd
    rcases List.mem_append.mp hd with hd | hd
    · exact hold hd
    · have hget := (isRoomState_iff.mp (hq d hd (isRoomState_iff.mp hroom).1).1).2
      obtain rfl := Json.str.inj (hget.symm.trans (isRoomState_iff.mp hroom).2)
      exact hr

/-- The list of somebody who is in the room. -/
def ListsFor (u room : Str) (w : World) (g : Frame) : Prop := u ∈ memberNames w room → Lists room w g

/-- **One step** keeps everybody's lists. -/
theorem step_listed {w₀ : World} {u : Str} (h : Run cfg w₀ tr w) (hw : Wired w) (hhoused : Housed w)
    (hfounded : Founded w) (hi : ¬ Interrupted w i) (hup : UpToDate (isRoomState room) (ListsFor u room) u tr w) :
    UpToDate (isRoomState room) (ListsFor u room) u (tr ++ [Step.of cfg w i]) (Step.of cfg w i).after := by
  obtain ⟨r, hdone⟩ := step_roomDone cfg hhoused hi
  have hout : ∀ ds, (Step.of cfg w i).after.sent = w.sent ++ ds → (Step.of cfg w i).out = ds := fun ds hs =>
    List.append_cancel_left ((Step.sent_of cfg w i).symm.trans hs)
  -- nobody else's room: no frame for it, and the same members
  have hother : (∀ d ∈ (Step.of cfg w i).out, isRoomState room d.frame = false) →
      memberNames (Step.of cfg w i).after room = memberNames w room → ∀ t,
        Silent (isRoomState room) (Step.of cfg w i) t ∧
          ((∀ g, ListsFor u room w g → ListsFor u room (Step.of cfg w i).after g) ∨
            ∀ d ∈ heardOn t tr, isRoomState room d.frame = false) := by
    intro hq hsame t
    refine ⟨fun d hd _ => hq d hd, .inl fun g hg hu => ?_⟩
    rw [hsame] at hu
    unfold Lists
    rw [hsame]
    exact hg hu
  have hfalse : ∀ ds : List Delivery, (∀ d ∈ ds, d.frame.type ≠ .roomState) → ∀ d ∈ ds, isRoomState room d.frame = false :=
    fun ds hq d hd => by simp [isRoomState, hq d hd]
  refine upToDate_step h hw hup fun t hget => ?_
  cases hdone with
  | quiet hm ds hs hq =>
    refine .inr (hother ?_ (by unfold memberNames; rw [hm]) t)
    rw [hout ds hs]
    exact hfalse ds hq
  | fresh hr hm ds hs hq =>
    have hsilent : ∀ d ∈ (Step.of cfg w i).out, isRoomState room d.frame = false := by
      rw [hout ds hs]
      exact hfalse ds hq
    by_cases hroom : room = r
    · -- of a new room nothing has been heard
      subst hroom
      refine .inr ⟨fun d hd _ => hsilent d hd, .inr fun d hd => ?_⟩
      by_contra hk
      exact hr (hfounded d (h.heard_sent hd).1 room (by simpa using hk))
    · exact .inr (hother hsilent (hm room hroom) t)
  | told hr hm ds hs hq hall =>
    rw [← hout ds hs] at hq hall
    by_cases hroom : room = r
    · subst hroom
      have hlists : ∀ d ∈ (Step.of cfg w i).out, d.session = t → isRoomState room d.frame = true →
          ListsFor u room (Step.of cfg w i).after d.frame :=
        fun d hd _ hk _ => (hq d hd (isRoomState_iff.mp hk).1).2
      by_cases hsome : ∃ d ∈ (Step.of cfg w i).out, d.session = t ∧ isRoomState room d.frame = true
      · exact .inl (informs_of_all hsome hlists)
      · -- only somebody who is not in the room is not told
        have hnot : u ∉ memberNames (Step.of cfg w i).after room := fun hu => hsome (hall u hu t hget)
        refine .inr ⟨fun d hd ht => ?_, .inl fun g _ hu => (hnot hu).elim⟩
        by_contra hk
        exact hsome ⟨d, hd, ht, by simpa using hk⟩
    · refine .inr (hother (fun d hd => ?_) (hm room hroom) t)
      by_contra hk
      have hk : isRoomState room d.frame = true := by simpa using hk
      have hget' := (isRoomState_iff.mp (hq d hd (isRoomState_iff.mp hk).1).1).2
      exact hroom (Json.str.inj ((isRoomState_iff.mp hk).2.symm.trans hget'))

/-- **Member lists without polling**: in every run in which no INVITE stops half-way,
the last ROOM_STATE for a room that a member online has been sent since they logged
in, if there is one, lists the sorted members of the room. -/
theorem Run.listed {uuid : Nat → Str} {clock : Nat → Int} {salt : Nat → List UInt8}
    (h : Run cfg (World.start uuid clock salt) tr w) (hi : ∀ st ∈ tr, ¬ Interrupted st.before st.input)
    (room u : Str) (hu : u ∈ memberNames w room) (t : Sid) (ht : SessionRegistry.get w (.str u) = some t)
    (d : Delivery) (hd : latest (fun d : Delivery => isRoomState room d.frame) (heardOn t tr) = some d) :
    d.frame.get "members" = .list ((Str.sorted (memberNames w room)).map .str) := by
  have hall : Housed w ∧ Founded w ∧ UpToDate (isRoomState room) (ListsFor u room) u tr w := by
    clear hu ht hd
    induction h with
    | nil => exact ⟨fun m hm => (by cases hm), fun d hd => (by cases hd), fun t _ d hd => (by cases hd)⟩
    | @snoc tr w h i ih =>
      obtain ⟨hhoused, hfounded, hup⟩ := ih fun st hst => hi st (List.mem_append_left _ hst)
      have hi : ¬ Interrupted w i := hi _ (List.mem_append_right _ (List.mem_singleton.mpr rfl))
      exact ⟨(step_housed cfg i hhoused).1, step_founded hfounded hhoused hi,
        step_listed h (h.wired (wired_start uuid clock salt)) hhoused hfounded hi hup⟩
  exact hall.2.2 t ht d hd hu

end Rooms

namespace Sample

/-- `a` and `b` are connected, and `a` opens a room for both. -/
def convened : List Input :=
  [register "a", register "b", register "c", login 0 "a", login 1 "b",
    .frame 0 (ask .createRoom [("room", .str "#r"), ("members", .list [.str "b"])])]

/-- `a` invites these people to it. -/
def inviting (names : List Str) : Input :=
  .frame 0 (ask .invite [("room", .str "#r"), ("members", .list (names.map .str))])

end Sample

section Concrete

open Sample

attribute [local instance] sampleRuntime

/-- `c` is joined before the lone surrogate raises, and `b` is not told. -/
theorem inviting_unheard :
    ∃ tr w d, Run chatServer fresh tr w ∧ ("b" : Str) ∈ memberNames w "#r" ∧
      SessionRegistry.get w (.str "b") = some 1 ∧
      latest (fun d : Delivery => isRoomState "#r" d.frame) (heardOn 1 tr) = some d ∧
      d.frame.get "members" ≠ .list ((Str.sorted (memberNames w "#r")).map .str) := by
  have hlatest : (latest (fun d : Delivery => isRoomState "#r" d.frame)
      (heardOn 1 (trace chatServer fresh (convened ++ [inviting ["c", [0xd800]]])))).map
        (fun d => d.frame.get "members") = some (.list [.str "a", .str "b"]) := by decide +kernel
  obtain ⟨d, hd, hmembers⟩ := Option.map_eq_some_iff.mp hlatest
  refine ⟨_, _, d, Run.of_inputs chatServer fresh (convened ++ [inviting ["c", [0xd800]]]), ?_, ?_, hd, ?_⟩
  · decide +kernel
  · decide +kernel
  · rw [hmembers]
    decide +kernel

/-- Without it everybody in the room is told. -/
theorem inviting_listed :
    ∃ d, latest (fun d : Delivery => isRoomState "#r" d.frame)
        (heardOn 1 (trace chatServer fresh (convened ++ [inviting ["c"]]))) = some d ∧
      d.frame.get "members" =
        .list ((Str.sorted (memberNames (fresh.after chatServer (convened ++ [inviting ["c"]])) "#r")).map .str) := by
  have hsome : (latest (fun d : Delivery => isRoomState "#r" d.frame)
      (heardOn 1 (trace chatServer fresh (convened ++ [inviting ["c"]])))).isSome = true := by decide +kernel
  obtain ⟨d, hd⟩ := Option.isSome_iff_exists.mp hsome
  refine ⟨d, hd, Run.listed (Run.of_inputs chatServer fresh _) (fun st hst hint => ?_) "#r" "b" (by decide +kernel) 1
    (by decide +kernel) d hd⟩
  -- every name given can be encoded
  obtain ⟨s, f, me, room, hi, ht, -, -, -, -, pre, v, post, hb, -⟩ := hint
  have hv : v ∈ namesIn f := by
    rw [hb.split]
    exact List.mem_append_right _ (List.mem_cons_self ..)
  have hin := mem_trace hst
  rw [hi] at hin
  simp only [convened, List.cons_append, List.nil_append, List.mem_cons, List.not_mem_nil, or_false] at hin
  rcases hin with hin | hin | hin | hin | hin | hin | hin <;> obtain ⟨rfl, rfl⟩ := Input.frame.inj hin
  case inr.inr.inr.inr.inr.inr =>
    obtain rfl : v = .str "c" := List.mem_singleton.mp hv
    exact absurd hb.broken (by decide)
  all_goals cases ht

end Concrete

end Ciphertext
