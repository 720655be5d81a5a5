import Mathlib.Data.List.Dedup
import Ciphertext.Server.Integrity
import Ciphertext.Server.MemberLists

/-!
# What an INVITE reports

`_add_members` joins the first 64 names of the request that have an account;
the report then walks the whole request for names that were neither added nor
are members. What it needs of the world is that every member has an account,
whatever type of name they logged in under (`Enlisted`). Given that, the report is
right exactly when the names past the 64th that have an account are members
already or stand among the first 64, and no name that is looked up raises
(`Run.invite_reports_iff`).

The source's comment has everybody joined who has an account. What `_add_members` does
is to look at 64 names; so a request of 64 unknown names and a known one leaves the
known one out, and reports it as not registered (`crowded_misreported`).
-/

namespace Ciphertext

open Prog MessageRouter

/-! ## Members have accounts -/

/-- Every member has an account, and every room somebody is in exists and can be
looked up. -/
def Enlisted (accounts : List Account) (w : World) : Prop :=
  ∀ m ∈ w.memberships, m.1.encodable = true ∧ m.1 ∈ w.rooms ∧ HasAccount accounts m.2

section Requests

variable [Runtime]

/-- What a request may write while `accounts` are the accounts: nobody without one
becomes a member. -/
def enlist (accounts : List Account) : Terms routerSig where
  may
    | .roomsJoin _ u => ∀ name, Sql.text u = .ok (some name) → HasAccount accounts name
    | .usersRegister _ _ _ => False
    | _ => True
  answers
    | .usersExists u, r => r = true → HasAccount accounts u
    | _, _ => True

section Walk

variable {accounts : List Account} {s : Sid}

theorem enlist_str {room name : Str} (h : HasAccount accounts name) :
    (enlist accounts).may (.roomsJoin room (.str name)) := by
  intro name' hname
  rw [Option.some.inj (Sql.text_str_ok.mp hname).2]
  exact h

theorem enlist_quiet {o : Op} (h : o.quiet = true) : (enlist accounts).may o := by
  cases o with
  | roomsJoin | usersRegister => cases h
  | _ => trivial

/-- Handlers that join nobody. -/
theorem enlist_of_uses {α : Type} {F : Footprint} {p : RouterM α} (hp : p.Uses F.allows)
    (hw : ∀ o, F.writes o → (enlist accounts).may o) : p.Abides (enlist accounts) fun _ => True := by
  refine hp.abides fun o ho => ?_
  rcases ho with hq | hwr | ⟨t, g, rfl, -⟩
  · exact enlist_quiet hq
  · exact hw o hwr
  · trivial

/-- A name that has been found is joined. -/
theorem enlist_rooms (accounts : List Account) : RoomTerms (enlist accounts) where
  free o ho := by
    rcases ho with hq | hwr | ⟨t, g, rfl, -⟩
    · exact enlist_quiet hq
    · exact hwr.elim
    · trivial
  creates _ := trivial
  joins _ _ _ hfound := enlist_str (hfound rfl)

/-- Every request of somebody whose name, stored as text, is that of an account. -/
theorem dispatch_enlist (cfg : Config) {me : Json}
    (hme : ∀ name, Sql.text me = .ok (some name) → HasAccount accounts name) (f : Frame) :
    (dispatch cfg s me f).Abides (enlist accounts) fun _ => True := by
  cases ht : f.type with
  | createRoom => unfold dispatch; rw [ht]; exact createRoom_abides (enlist_rooms accounts) (fun _ _ => hme) f
  | join => unfold dispatch; rw [ht]; exact join_abides (enlist_rooms accounts) (fun _ _ => hme) f
  | invite => unfold dispatch; rw [ht]; exact invite_abides (enlist_rooms accounts) me f
  | register => unfold dispatch; rw [ht]; exact (enlist_rooms accounts).refuse ..
  | _ =>
    refine enlist_of_uses (dispatch_uses cfg s me f) fun o ho => ?_
    have ho : f.type.writes o = true := ho
    rw [ht] at ho
    cases o with
    | roomsJoin | usersRegister => cases ho
    | _ => trivial

end Walk

section Worlds

variable {cfg : Config} {w : World}

omit [Runtime] in
theorem HasAccount.mono {accounts accounts' : List Account} {name : Str} (h : HasAccount accounts name)
    (hsub : ∀ a ∈ accounts, a ∈ accounts') : HasAccount accounts' name := by
  obtain ⟨a, ha, hname⟩ := h
  exact ⟨a, hsub a ha, hname⟩

omit [Runtime] in
theorem usersExists_account {u : Str} (h : SqliteUsers.exists' w u = .ok true) : HasAccount w.accounts u := by
  simp only [SqliteUsers.exists', Bind.bind, Except.bind, Pure.pure, Except.pure] at h
  split at h
  · cases h
  next name hname =>
    obtain ⟨-, rfl⟩ := Sql.str_ok.mp hname
    obtain ⟨a, ha, hau⟩ := List.any_eq_true.mp (Except.ok.inj h)
    exact ⟨a, ha, beq_iff_eq.mp hau⟩

/-- A call on these terms keeps the members enlisted. -/
theorem Enlisted.exec {accounts : List Account} (h : Enlisted accounts w) {o : Op}
    (hmay : (enlist accounts).may o) : Enlisted accounts (Ciphertext.exec o w).2 := by
  by_cases hx : Field.memberships ∈ o.writesTo ∨ Field.rooms ∈ o.writesTo
  · cases o with
    | roomsCreate room =>
      show Enlisted accounts (commit w (SqliteRooms.create w room)).2
      cases hr : SqliteRooms.create w room with
      | error e => exact h
      | ok r =>
        obtain ⟨b, w'⟩ := r
        obtain ⟨-, ⟨-, rfl, -⟩ | ⟨-, -, rfl⟩⟩ := SqliteRooms.create_cases hr
        · exact h
        · exact fun m hm => ⟨(h m hm).1, List.mem_append_left _ (h m hm).2.1, (h m hm).2.2⟩
    | roomsJoin room u =>
      show Enlisted accounts (commit' w (SqliteRooms.join w room u)).2
      cases hr : SqliteRooms.join w room u with
      | error e => exact h
      | ok w' =>
        have hgrow : ∀ m ∈ w.memberships, m.1.encodable = true ∧ m.1 ∈ addOnce w.rooms room ∧ HasAccount accounts m.2 :=
          fun m hm => ⟨(h m hm).1, mem_addOnce.mpr (.inl (h m hm).2.1), (h m hm).2.2⟩
        obtain ⟨henc, ⟨-, rfl⟩ | ⟨name, hname, rfl⟩⟩ := SqliteRooms.join_cases hr
        · exact hgrow
        · intro m hm
          rcases mem_addOnce.mp hm with hm | rfl
          · exact hgrow m hm
          · exact ⟨henc, mem_addOnce.mpr (.inr rfl), hmay name hname⟩
    | roomsLeave room u =>
      show Enlisted accounts (commit' w (SqliteRooms.leave w room u)).2
      cases hr : SqliteRooms.leave w room u with
      | error e => exact h
      | ok w' =>
        obtain ⟨-, name, -, rfl⟩ := SqliteRooms.leave_cases hr
        exact fun m hm => h m (List.mem_of_mem_filter hm)
    | _ => simp [Op.writesTo] at hx
  · simp only [not_or] at hx
    have hm : (Ciphertext.exec o w).2.memberships = w.memberships := exec_same o w hx.1
    have hr : (Ciphertext.exec o w).2.rooms = w.rooms := exec_same o w hx.2
    unfold Enlisted
    rw [hm, hr]
    exact h

/-- A program on these terms does too, and leaves the accounts alone. -/
theorem Enlisted.run {p : RouterM Unit} (h : Enlisted w.accounts w)
    (hp : p.Abides (enlist w.accounts) fun _ => True) :
    (p.exec w).2.accounts = w.accounts ∧ Enlisted w.accounts (p.exec w).2 := by
  refine (hp.run (I := fun w' => w'.accounts = w.accounts ∧ Enlisted w.accounts w') (fun o w' hmay hw' => ?_)
    w ⟨rfl, h⟩).1
  obtain ⟨hacc, hen⟩ := hw'
  have hwrites : Field.accounts ∉ o.writesTo := by
    cases o <;> simp [Op.writesTo]
    exact hmay
  have hsame : (Ciphertext.exec o w').2.accounts = w'.accounts := exec_same o w' hwrites
  refine ⟨⟨hsame.trans hacc, hen.exec hmay⟩, fun r hr => ?_⟩
  cases o with
  | usersExists u =>
    intro hyes
    subst hyes
    exact hacc ▸ usersExists_account hr
  | _ => trivial

theorem step_enlisted (hw : Wired w) (h : Enlisted w.accounts w) (i : Input) :
    Enlisted (Step.of cfg w i).after.accounts (Step.of cfg w i).after := by
  have hsame : (Step.of cfg w i).after.memberships = w.memberships → (Step.of cfg w i).after.rooms = w.rooms →
      Enlisted (Step.of cfg w i).after.accounts (Step.of cfg w i).after := by
    intro hm hr m hmem
    rw [hm] at hmem
    rw [hr]
    exact ⟨(h m hmem).1, (h m hmem).2.1, (h m hmem).2.2.mono fun a => step_accounts_subset cfg w i⟩
  cases i with
  | hangup s =>
    exact hsame (onDisconnect_same s w (x := .memberships) (by simp) (by simp) (by simp))
      (onDisconnect_same s w (x := .rooms) (by simp) (by simp) (by simp))
  | frame s f =>
    by_cases hfree : f.type = .ping ∨ f.type = .register ∨ f.type = .login
    · refine hsame (handle_same cfg s f w (x := .memberships) (by simp) ?_)
        (handle_same cfg s f w (x := .rooms) (by simp) ?_) <;>
        rcases hfree with ht | ht | ht <;> simp [ht, MessageType.fields]
    · simp only [not_or] at hfree
      obtain ⟨hp, hr, hl⟩ := hfree
      cases hu : w.username s with
      | none =>
        have hrun : (Step.of cfg w (.frame s f)).after = _ := congrArg Prod.snd (handle_nobody cfg s hp hr hl hu)
        have hran := h.run ((enlist_rooms w.accounts).refuse (s := s) "NOT_LOGGED_IN" "log in before sending anything else")
        rw [← hrun] at hran
        rw [hran.1]
        exact hran.2
      | some me =>
        have hrun : (Step.of cfg w (.frame s f)).after = ((dispatch cfg s me f).exec w).2 :=
          congrArg Prod.snd (handle_dispatch cfg s hp hr hl hu)
        have hme : ∀ name, Sql.text me = .ok (some name) → HasAccount w.accounts name := by
          intro name hname
          obtain ⟨a, ha, ht⟩ := hw.account s me hu
          have heq : some a.username = some name := Except.ok.inj (ht.symm.trans hname)
          exact ⟨a, ha, Option.some.inj heq⟩
        have hran := h.run (dispatch_enlist cfg (s := s) hme f)
        rw [← hrun] at hran
        rw [hran.1]
        exact hran.2

/-- **Every member has an account**, over whole runs and whatever the frames hold. -/
theorem Run.enlisted {uuid : Nat → Str} {clock : Nat → Int} {salt : Nat → List UInt8} {tr : List Step}
    (h : Run cfg (World.start uuid clock salt) tr w) : Enlisted w.accounts w := by
  have hboth : Wired w ∧ Enlisted w.accounts w := by
    refine h.inv (fun w => Wired w ∧ Enlisted w.accounts w)
      ⟨wired_start uuid clock salt, fun m hm => ?_⟩ fun w i hw => ?_
    · cases hm
    · exact ⟨step_wired hw.1 cfg i, step_enlisted hw.1 hw.2 i⟩
  exact hboth.2

end Worlds

/-! ## Joining and reporting -/

section Invite

variable {w : World} {room : Str} {s : Sid} {me : Json} {f : Frame}

/-- Everybody who is looked up and has an account is joined, nobody else. -/
theorem joinAll_added (henc : room.encodable = true) (names : List Json) (hr : room ∈ w.rooms)
    (hfine : ∀ v ∈ names, Tried v → v.pyStr.encodable = true) :
    ∃ added ms, (joinAll room names).exec w = (.ok added, { w with memberships := ms }) ∧
      (∀ n, n ∈ added ↔ ∃ v ∈ names, Tried v ∧ HasAccount w.accounts v.pyStr ∧ v.pyStr = n) ∧
      ∀ n, (room, n) ∈ ms ↔ (room, n) ∈ w.memberships ∨ n ∈ added := by
  induction names generalizing w with
  | nil => exact ⟨[], w.memberships, rfl, by simp, by simp⟩
  | cons v rest ih =>
    have hrest : ∀ x ∈ rest, Tried x → x.pyStr.encodable = true := fun x hx => hfine x (List.mem_cons_of_mem _ hx)
    by_cases hv : Tried v
    case neg =>
      obtain ⟨added, ms, hrun, hadded, hms⟩ := ih hr hrest
      refine ⟨added, ms, by rw [joinAll_skip hv, hrun], fun n => ?_, hms⟩
      rw [hadded]
      simp [hv]
    have hn := hfine v (List.mem_cons_self ..) hv
    by_cases hacc : HasAccount w.accounts v.pyStr
    case neg =>
      obtain ⟨added, ms, hrun, hadded, hms⟩ := ih hr hrest
      refine ⟨added, ms, by rw [(joinAll_tried hv henc hr hn rest).2 hacc, hrun], fun n => ?_, hms⟩
      rw [hadded]
      simp [hacc]
    obtain ⟨added, ms, hrun, hadded, hms⟩ :=
      ih (w := { w with memberships := addOnce w.memberships (room, v.pyStr) }) hr hrest
    refine ⟨v.pyStr :: added, ms, ?_, fun n => ?_, fun n => ?_⟩
    · rw [(joinAll_tried hv henc hr hn rest).1 hacc, RouterM.exec_bind, hrun]
      rfl
    · rw [List.mem_cons, hadded, List.exists_mem_cons_iff]
      simp [hv, hacc, eq_comm]
    · rw [hms, mem_addOnce, List.mem_cons]
      simp only [Prod.mk.injEq, true_and]
      tauto

/-- A name that sqlite cannot take raises, and nothing has been sent. -/
theorem joinAll_raises (henc : room.encodable = true) (names : List Json) (hr : room ∈ w.rooms)
    (hbad : ∃ v ∈ names, Tried v ∧ v.pyStr.encodable = false) :
    ∃ e ms, (joinAll room names).exec w = (.error e, { w with memberships := ms }) := by
  induction names generalizing w with
  | nil =>
    obtain ⟨v, hv, -⟩ := hbad
    cases hv
  | cons v rest ih =>
    by_cases hv : Tried v
    case neg =>
      rw [joinAll_skip hv]
      refine ih hr ?_
      obtain ⟨x, hx, htried, hx'⟩ := hbad
      rcases List.mem_cons.mp hx with rfl | hx
      · exact (hv htried).elim
      · exact ⟨x, hx, htried, hx'⟩
    by_cases hn : v.pyStr.encodable = true
    case neg => exact ⟨.unicodeEncodeError, w.memberships, joinAll_breaks hv (by simpa using hn) room rest w⟩
    have hlater : ∃ x ∈ rest, Tried x ∧ x.pyStr.encodable = false := by
      obtain ⟨x, hx, htried, hx'⟩ := hbad
      rcases List.mem_cons.mp hx with rfl | hx
      · rw [hn] at hx'
        cases hx'
      · exact ⟨x, hx, htried, hx'⟩
    by_cases hacc : HasAccount w.accounts v.pyStr
    · obtain ⟨e, ms, hrun⟩ := ih (w := { w with memberships := addOnce w.memberships (room, v.pyStr) }) hr hlater
      refine ⟨e, ms, ?_⟩
      rw [(joinAll_tried hv henc hr hn rest).1 hacc, RouterM.exec_bind, hrun]
    · rw [(joinAll_tried hv henc hr hn rest).2 hacc]
      exact ih hr hlater

/-! ## The report -/

omit [Runtime] in
/-- The text of the error that names these people. -/
def notRegistered (named : List Str) : Json := .str (fstr ["not registered: ", Str.join ", " (Str.sorted named)])

omit [Runtime] in
/-- A NO_SUCH_USER error. -/
def isNoSuchUser (g : Frame) : Bool := g.type = .error && g.get "code" = .str "NO_SUCH_USER"

/-- The texts of the NO_SUCH_USER errors that a step sends on a connection. -/
def unknownOn (s : Sid) (st : Step) : List Json :=
  (st.out.filter fun d => d.session = s && isNoSuchUser d.frame).map fun d => d.frame.get "message"

/-- A step reports these people, and rightly: `named` are requested names, all without
an account; there is an error if somebody requested has none; everybody else is
a member afterwards. -/
structure InviteReport (s : Sid) (room : Str) (wanted : List Json) (named : List Str) (st : Step) : Prop where
  told : unknownOn s st = if named = [] then [] else [notRegistered named]
  requested : ∀ n ∈ named, ∃ v ∈ wanted, v.pyStr = n
  unknown : ∀ n ∈ named, ¬ HasAccount st.before.accounts n
  sent : ∀ v ∈ wanted, v.pyStr ≠ [] → ¬ HasAccount st.before.accounts v.pyStr → named ≠ []
  joined : ∀ v ∈ wanted, v.pyStr ∉ named → v.pyStr ∈ memberNames st.after room

/-- The names that are looked up do not raise, and those past the 64th that have an
account are members, or are among the first 64. -/
structure WithinReach (w : World) (room : Str) (wanted : List Json) : Prop where
  spelled : ∀ v ∈ wanted.take 64, Tried v → v.pyStr.encodable = true
  beyond : ∀ v ∈ wanted.drop 64, HasAccount w.accounts v.pyStr →
    v.pyStr ∈ memberNames w room ∨ ∃ x ∈ wanted.take 64, x.pyStr = v.pyStr

/-- The name of an account is one that is looked up. -/
theorem Wired.tried (hw : Wired w) {v : Json} (h : HasAccount w.accounts v.pyStr) :
    Tried v ∧ v.pyStr.encodable = true := by
  obtain ⟨a, ha, hname⟩ := h
  obtain ⟨henc, hne, hroom⟩ := hw.names a ha
  rw [hname] at henc hne hroom
  exact ⟨⟨by simpa using hne, hroom⟩, henc⟩

/-- What a member's INVITE does once the room has been looked up. -/
theorem invite_exec {wanted : List Json} (hroom : roomProblem (f.get "room") = .ok room) (henc : room.encodable = true)
    (hr : room ∈ w.rooms) (hin : me ∈ (memberNames w room).map Json.str) (hwanted : f.get "members" = .list wanted) :
    (invite s me f).exec w = (do
      let added ← joinAll room (wanted.take 64)
      let missing ← missingNames room added wanted
      reportMissing s missing
      if !added.isEmpty then
        broadcastRoomState room : RouterM Unit).exec w := by
  have hknown : SqliteRooms.exists' w room = .ok true := by
    simp [SqliteRooms.exists', Sql.str, henc, hr, Bind.bind, Except.bind, Pure.pure, Except.pure]
  have hmember : ((memberNames w room).map Json.str).contains me = true := by simpa using hin
  unfold invite roomName
  rw [hroom]
  dsimp only
  rw [RouterM.exec_bind, show (Pure.pure (some room) : RouterM (Option Str)).exec w = (.ok (some room), w) from rfl]
  dsimp only
  rw [RouterM.exec_bind, RouterM.exec_call]
  simp only [exec, hknown, Bool.not_true, Bool.false_eq_true, if_false]
  rw [RouterM.exec_bind, roomsMembers_exec henc]
  simp only [hmember, Bool.not_true, Bool.false_eq_true, if_false]
  rw [hwanted]
  rfl

theorem refuse_sends (w : World) (s : Sid) (code message : Str) : ∃ g : Frame, g.type = .error ∧
    g.get "code" = .str code ∧ g.get "message" = .str message ∧
      (refuse s code message).exec w = (.ok (), { w.dated with sent := w.sent ++ [⟨s, w.username s, g⟩] }) :=
  ⟨_, rfl, rfl, rfl, rfl⟩

/-- One error names those who are missing, if anybody is. -/
theorem reportMissing_eq (s : Sid) (missing : List Str) (w : World) :
    ∃ w' ds, (reportMissing s missing).exec w = (.ok (), w') ∧ w'.memberships = w.memberships ∧ w'.sent = w.sent ++ ds ∧
      (ds.filter fun d => d.session = s && isNoSuchUser d.frame).map (fun d => d.frame.get "message") =
        if missing.dedup = [] then [] else [notRegistered missing.dedup] := by
  unfold reportMissing
  by_cases hnone : missing = []
  · subst hnone
    exact ⟨w, [], rfl, rfl, (List.append_nil _).symm, rfl⟩
  · obtain ⟨g, htype, hcode, hmessage, hrun⟩ := refuse_sends w s "NO_SUCH_USER"
      (fstr ["not registered: ", Str.join ", " (Str.sorted missing.dedup)])
    have hdedup : missing.dedup ≠ [] := fun hd => hnone ((List.dedup_eq_nil missing).mp hd)
    rw [if_neg (by simpa using hnone)]
    refine ⟨_, _, hrun, rfl, rfl, ?_⟩
    rw [if_neg hdedup]
    simp [isNoSuchUser, htype, hcode, hmessage, notRegistered]

/-- The room is told nothing of that kind, and its members stay. -/
theorem tellRoom_quiet (henc : room.encodable = true) (added : List Str) (s : Sid) (w : World) :
    ∃ w' ds, (if !added.isEmpty then broadcastRoomState room else Pure.pure () : RouterM Unit).exec w = (.ok (), w') ∧
      w'.memberships = w.memberships ∧ w'.sent = w.sent ++ ds ∧
      (ds.filter fun d => d.session = s && isNoSuchUser d.frame) = [] := by
  by_cases hnone : added.isEmpty = true
  · rw [hnone]
    exact ⟨w, [], rfl, rfl, (List.append_nil _).symm, rfl⟩
  · obtain ⟨g, hkind, -, hrun⟩ := broadcastRoomState_exec henc w
    simp only [hnone, Bool.not_false, if_true]
    refine ⟨_, _, hrun, rfl, rfl, ?_⟩
    rw [List.filter_eq_nil_iff]
    intro d hd hno
    obtain ⟨name, -, hname⟩ := List.mem_filterMap.mp hd
    obtain ⟨t, -, rfl⟩ := Option.map_eq_some_iff.mp hname
    simp [isNoSuchUser, (isRoomState_iff.mp hkind).1] at hno

/-- **What a member's INVITE leaves**, if no name that is looked up raises: those joined,
the report, and the members. -/
theorem invite_outcome {wanted : List Json} (hroom : roomProblem (f.get "room") = .ok room) (henc : room.encodable = true)
    (hr : room ∈ w.rooms) (hin : me ∈ (memberNames w room).map Json.str) (hwanted : f.get "members" = .list wanted)
    (hfine : ∀ v ∈ wanted.take 64, Tried v → v.pyStr.encodable = true) :
    ∃ (w' : World) (ds : List Delivery) (added named : List Str), (invite s me f).exec w = (.ok (), w') ∧ w'.sent = w.sent ++ ds ∧
      (ds.filter fun d => d.session = s && isNoSuchUser d.frame).map (fun d => d.frame.get "message") =
        (if named = [] then [] else [notRegistered named]) ∧
      (∀ n, n ∈ added ↔ ∃ v ∈ wanted.take 64, Tried v ∧ HasAccount w.accounts v.pyStr ∧ v.pyStr = n) ∧
      (∀ n, n ∈ memberNames w' room ↔ n ∈ memberNames w room ∨ n ∈ added) ∧
      ∀ n, n ∈ named ↔ (∃ v ∈ wanted, v.pyStr = n) ∧ n ∉ added ∧ n ∉ memberNames w' room := by
  obtain ⟨added, ms, hjoin, hadded, hms⟩ := joinAll_added henc (wanted.take 64) hr hfine
  set w₁ : World := { w with memberships := ms } with hw₁
  set missing := (wanted.map Json.pyStr).filter fun n => !(added.contains n || (memberNames w₁ room).contains n)
    with hmissing
  obtain ⟨w₂, ds, hreport, hm, hsent, hds⟩ := reportMissing_eq s missing w₁
  obtain ⟨w₃, ds', htell, hm', hsent', hds'⟩ := tellRoom_quiet henc added s w₂
  have hmembers : ∀ n, n ∈ memberNames w₃ room ↔ n ∈ memberNames w room ∨ n ∈ added := by
    intro n
    rw [mem_memberNames, hm', hm, mem_memberNames]
    exact hms n
  refine ⟨w₃, ds ++ ds', added, missing.dedup, ?_, ?_, ?_, hadded, hmembers, fun n => ?_⟩
  · rw [invite_exec hroom henc hr hin hwanted, RouterM.exec_bind, hjoin]
    dsimp only
    rw [RouterM.exec_bind, missingNames_eq henc]
    dsimp only
    rw [RouterM.exec_bind, hreport]
    exact htell
  · rw [hsent', hsent, List.append_assoc]
  · rw [List.filter_append, hds', List.append_nil, hds]
  · have hsame : n ∈ memberNames w₃ room ↔ n ∈ memberNames w₁ room := by
      rw [mem_memberNames, hm', hm, ← mem_memberNames]
    rw [List.mem_dedup, hmissing, List.mem_filter, List.mem_map, hsame]
    simp

/-- A name that raises stops the INVITE before anybody is told anything. -/
theorem invite_raises {wanted : List Json} (hroom : roomProblem (f.get "room") = .ok room) (henc : room.encodable = true)
    (hr : room ∈ w.rooms) (hin : me ∈ (memberNames w room).map Json.str) (hwanted : f.get "members" = .list wanted)
    (hbad : ∃ v ∈ wanted.take 64, Tried v ∧ v.pyStr.encodable = false) :
    ((invite s me f).exec w).2.sent = w.sent := by
  obtain ⟨e, ms, hjoin⟩ := joinAll_raises henc (wanted.take 64) hr hbad
  rw [invite_exec hroom henc hr hin hwanted, RouterM.exec_bind, hjoin]

/-- What an INVITE has come to: who was joined, who is a member, and who is named. -/
structure Invited (s : Sid) (room : Str) (wanted : List Json) (st : Step) (added named : List Str) : Prop where
  told : unknownOn s st = if named = [] then [] else [notRegistered named]
  joins : ∀ n, n ∈ added ↔ ∃ v ∈ wanted.take 64, Tried v ∧ HasAccount st.before.accounts v.pyStr ∧ v.pyStr = n
  members : ∀ n, n ∈ memberNames st.after room ↔ n ∈ memberNames st.before room ∨ n ∈ added
  names : ∀ n, n ∈ named ↔ (∃ v ∈ wanted, v.pyStr = n) ∧ n ∉ added ∧ n ∉ memberNames st.after room

section Invited

variable {wanted : List Json} {st : Step} {added named : List Str}

theorem Invited.joined (h : Invited s room wanted st added named) (hw : Wired st.before) {v : Json} (hv : v ∈ wanted.take 64)
    (hacc : HasAccount st.before.accounts v.pyStr) : v.pyStr ∈ added :=
  (h.joins _).mpr ⟨v, hv, (hw.tried hacc).1, hacc, rfl⟩

/-- Who is a member afterwards has an account. -/
theorem Invited.known (h : Invited s room wanted st added named) (hen : Enlisted st.before.accounts st.before) {n : Str}
    (hn : n ∈ memberNames st.after room) : HasAccount st.before.accounts n := by
  rcases (h.members n).mp hn with hn | hn
  · exact (hen _ (mem_memberNames.mp hn)).2.2
  · obtain ⟨v, -, -, hacc, rfl⟩ := (h.joins n).mp hn
    exact hacc

/-- Who has an account is not reported, and so is a member. -/
theorem Invited.beyond (h : Invited s room wanted st added named) {named' : List Str}
    (hreport : InviteReport s room wanted named' st) {v : Json} (hv : v ∈ wanted.drop 64)
    (hacc : HasAccount st.before.accounts v.pyStr) :
    v.pyStr ∈ memberNames st.before room ∨ ∃ x ∈ wanted.take 64, x.pyStr = v.pyStr := by
  have hnot : v.pyStr ∉ named' := fun hn => hreport.unknown _ hn hacc
  have hmember := hreport.joined v (List.mem_of_mem_drop hv) hnot
  refine ((h.members _).mp hmember).imp_right fun hn => ?_
  obtain ⟨x, hx, -, -, hname⟩ := (h.joins _).mp hn
  exact ⟨x, hx, hname⟩

/-- Everybody with an account has been reached. -/
theorem Invited.reached (h : Invited s room wanted st added named) (hw : Wired st.before)
    (hreach : WithinReach st.before room wanted) {v : Json} (hv : v ∈ wanted) (hacc : HasAccount st.before.accounts v.pyStr) :
    v.pyStr ∈ memberNames st.after room := by
  rw [← List.take_append_drop 64 wanted] at hv
  rcases List.mem_append.mp hv with hv | hv
  · exact (h.members _).mpr (.inr (h.joined hw hv hacc))
  · rcases hreach.beyond v hv hacc with hm | ⟨x, hx, hname⟩
    · exact (h.members _).mpr (.inl hm)
    · rw [← hname] at hacc ⊢
      exact (h.members _).mpr (.inr (h.joined hw hx hacc))

theorem Invited.report (h : Invited s room wanted st added named) (hw : Wired st.before)
    (hen : Enlisted st.before.accounts st.before) (hreach : WithinReach st.before room wanted) :
    InviteReport s room wanted named st where
  told := h.told
  requested n hn := ((h.names n).mp hn).1
  unknown n hn hacc := by
    obtain ⟨⟨v, hv, rfl⟩, -, hmem⟩ := (h.names n).mp hn
    exact hmem (h.reached hw hreach hv hacc)
  sent v hv _ hacc hnone := by
    have hmem : v.pyStr ∉ memberNames st.after room := fun hmem => hacc (h.known hen hmem)
    have hin : v.pyStr ∈ named :=
      (h.names _).mpr ⟨⟨v, hv, rfl⟩, fun hadd => hmem ((h.members _).mpr (.inr hadd)), hmem⟩
    rw [hnone] at hin
    cases hin
  joined v hv hno := by
    by_contra hmem
    exact hno ((h.names _).mpr ⟨⟨v, hv, rfl⟩, fun hadd => hmem ((h.members _).mpr (.inr hadd)), hmem⟩)

end Invited

/-- A report that says nothing is wrong where a name raises, which nobody has. -/
theorem not_report_of_quiet {cfg : Config} {wanted : List Json} (hw : Wired w)
    (hquiet : (Step.of cfg w (.frame s f)).out = []) (hbad : ∃ v ∈ wanted.take 64, Tried v ∧ v.pyStr.encodable = false)
    (named : List Str) : ¬ InviteReport s room wanted named (Step.of cfg w (.frame s f)) := by
  intro hreport
  obtain ⟨v, hv, htried, hn⟩ := hbad
  have hnone : ¬ HasAccount w.accounts v.pyStr := by
    intro hacc
    rw [(hw.tried hacc).2] at hn
    cases hn
  have hne := hreport.sent v (List.mem_of_mem_take hv) (by simpa using htried.1) hnone
  have htold := hreport.told
  rw [unknownOn, hquiet, if_neg hne] at htold
  cases htold

/-- **One INVITE** of a member reports rightly exactly when everybody with an account is
within reach. -/
theorem invite_rightly_iff {cfg : Config} {wanted : List Json} (hw : Wired w) (hen : Enlisted w.accounts w)
    (hf : f.type = .invite) (hu : w.username s = some me) (hroom : roomProblem (f.get "room") = .ok room)
    (hin : me ∈ (memberNames w room).map Json.str) (hwanted : f.get "members" = .list wanted) :
    (∃ named, InviteReport s room wanted named (Step.of cfg w (.frame s f))) ↔ WithinReach w room wanted := by
  obtain ⟨u, hu', -⟩ := List.mem_map.mp hin
  obtain ⟨henc, hr, -⟩ := hen _ (mem_memberNames.mp hu')
  have hrun : (handle cfg s f).exec w = (invite s me f).exec w := by
    rw [handle_dispatch cfg s (by simp [hf]) (by simp [hf]) (by simp [hf]) hu]
    unfold dispatch
    rw [hf]
  have hafter : (Step.of cfg w (.frame s f)).after = ((invite s me f).exec w).2 := congrArg Prod.snd hrun
  have hsent := Step.sent_of cfg w (.frame s f)
  by_cases hfine : ∀ v ∈ wanted.take 64, Tried v → v.pyStr.encodable = true
  · obtain ⟨w', ds, added, named, hinvite, hds, htold, hadded, hmembers, hnamed⟩ :=
      invite_outcome (s := s) hroom henc hr hin hwanted hfine
    have hafter : (Step.of cfg w (.frame s f)).after = w' := by rw [hafter, hinvite]
    have hout : (Step.of cfg w (.frame s f)).out = ds := by
      rw [hafter, hds] at hsent
      exact (List.append_cancel_left hsent).symm
    have hinvited : Invited s room wanted (Step.of cfg w (.frame s f)) added named := by
      refine ⟨by rw [unknownOn, hout, htold], hadded, fun n => ?_, fun n => ?_⟩
      · rw [hafter]
        exact hmembers n
      · rw [hafter]
        exact hnamed n
    constructor
    · intro hreport
      obtain ⟨named', hreport⟩ := hreport
      exact ⟨hfine, fun v hv hacc => hinvited.beyond hreport hv hacc⟩
    · exact fun hreach => ⟨named, hinvited.report hw hen hreach⟩
  · -- nothing is sent, though the name that raises has no account
    have hbad : ∃ v ∈ wanted.take 64, Tried v ∧ v.pyStr.encodable = false := by
      push Not at hfine
      obtain ⟨v, hv, htried, hn⟩ := hfine
      exact ⟨v, hv, htried, by simpa using hn⟩
    have hquiet : (Step.of cfg w (.frame s f)).out = [] := by
      rw [hafter, invite_raises hroom henc hr hin hwanted hbad] at hsent
      exact List.self_eq_append_right.mp hsent
    refine iff_of_false (fun hreport => ?_) fun hreach => hfine hreach.spelled
    obtain ⟨named, hreport⟩ := hreport
    exact not_report_of_quiet hw hquiet hbad named hreport

/-- **INVITE reports exactly the names without an account**, in every reachable state
and whatever names a member gives, exactly when everybody with an account is within
reach. -/
theorem Run.invite_reports_iff {cfg : Config} {uuid : Nat → Str} {clock : Nat → Int} {salt : Nat → List UInt8}
    {tr : List Step} {wanted : List Json} (h : Run cfg (World.start uuid clock salt) tr w) (hf : f.type = .invite)
    (hu : w.username s = some me) (hroom : roomProblem (f.get "room") = .ok room)
    (hin : me ∈ (memberNames w room).map Json.str) (hwanted : f.get "members" = .list wanted) :
    (∃ named, InviteReport s room wanted named (Step.of cfg w (.frame s f))) ↔ WithinReach w room wanted :=
  invite_rightly_iff (h.wired (wired_start uuid clock salt)) h.enlisted hf hu hroom hin hwanted

end Invite

end Requests

section Concrete

open Sample

attribute [local instance] sampleRuntime

/-- The same name 64 times over, and then somebody else. -/
def crowded : List Str := List.replicate 64 "z" ++ ["c"]

/-- `c` has an account, is the 65th name, and is said not to be registered. -/
theorem crowded_misreported :
    ∃ w f wanted, Run chatServer fresh (trace chatServer fresh convened) w ∧ f.type = .invite ∧
      w.username 0 = some (.str "a") ∧ roomProblem (f.get "room") = .ok "#r" ∧
      .str "a" ∈ (memberNames w "#r").map Json.str ∧ f.get "members" = .list wanted ∧
      ¬ ∃ named, InviteReport 0 "#r" wanted named (Step.of chatServer w (.frame 0 f)) := by
  refine ⟨_, ask .invite [("room", .str "#r"), ("members", .list (crowded.map .str))], crowded.map .str,
    Run.of_inputs chatServer fresh convened, rfl, by decide +kernel, by decide +kernel, by decide +kernel, rfl, ?_⟩
  intro hreport
  obtain ⟨named, hreport⟩ := hreport
  have hc : HasAccount (fresh.after chatServer convened).accounts "c" := any_account.mp (by decide +kernel)
  have hmember := hreport.joined (.str "c") (by decide +kernel) fun hn => hreport.unknown _ hn hc
  exact absurd hmember (by decide +kernel)

/-- Two names, one of them nobody's: the other is joined and the error is right. -/
theorem pair_reported : ∃ named, InviteReport 0 "#r" [.str "c", .str "ghost"] named
    (Step.of chatServer (fresh.after chatServer convened)
      (.frame 0 (ask .invite [("room", .str "#r"), ("members", .list [.str "c", .str "ghost"])]))) := by
  have hu : (fresh.after chatServer convened).username 0 = some (.str "a") := by decide +kernel
  have hspelled : ∀ v ∈ [Json.str "c", .str "ghost"], v.pyStr.encodable = true := by decide +kernel
  exact (Run.invite_reports_iff (Run.of_inputs chatServer fresh convened) rfl hu (by decide +kernel)
    (by decide +kernel) rfl).mpr ⟨fun v hv _ => hspelled v (List.mem_of_mem_take hv), nofun⟩

end Concrete

end Ciphertext
