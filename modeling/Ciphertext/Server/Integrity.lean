import Ciphertext.Prog.Terms
import Ciphertext.Server.Origin
import Ciphertext.Server.Presence

/-!
# The tables fit together

The schema declares no foreign keys. That a membership, a queued name, a sender
or a contact is the name of an account, and that a membership's room and a queued
id exist, is the doing of the handlers: each of them writes a name only when it
is the asker's own, or when `users.exists` or the registry has just vouched for it.
`lawful` says so call by call; `Integrity` is what it comes to over a whole run.

`Run.integrity` is the result, for every run from an empty database in which whoever
logs in is named by a string (`Spelled`); of the frames' other fields nothing is asked.
Over one request the terms are `Lawful`: the accounts are fixed, and every name that is
written is vouched for by an answer of that request (`dispatch_lawful`, request by
request). REGISTER only adds to the accounts, and LOGIN and hangups write no table, so
the steps between are short.
-/

namespace Ciphertext

open Prog MessageRouter

/-! ## What may be written -/

/-- Somebody registered under this name, and it is not a room's. -/
def Registered (accounts : List Account) (name : Str) : Prop :=
  (∃ a ∈ accounts, a.username = name) ∧ name.startsWith roomPrefix = false

/-- A JSON value that is the name of an account. -/
def NamesAccount (accounts : List Account) (v : Json) : Prop :=
  ∃ name, v = .str name ∧ Registered accounts name

/-- What a request of somebody logged in may write while `accounts` are the
accounts: memberships and contacts of people who have one, memberships of rooms
that can exist. -/
def lawful (accounts : List Account) : Terms routerSig where
  may
    | .roomsJoin room u => roomProblem (.str room) = .ok room ∧ NamesAccount accounts u
    | .contactsAdd owner contact => NamesAccount accounts owner ∧ NamesAccount accounts contact
    | .usersRegister _ _ _ => False
    | .sessionsLogin _ _ => False
    | .sessionsLogout _ => False
    | _ => True
  answers
    | .usersExists u, r => r = true → Registered accounts u
    | .sessionsGet v, r => r.isSome = true → ∀ u, v = .str u → Registered accounts u
    | _, _ => True

/-- A handler that writes nothing else. -/
abbrev Lawful {α : Type} (accounts : List Account) (p : RouterM α) (Q : α → Prop) : Prop :=
  p.Abides (lawful accounts) Q

/-- A room name is the value it was read from. -/
theorem roomProblem_eq {v : Json} {room : Str} (h : roomProblem v = .ok room) : v = .str room := by
  unfold roomProblem at h
  split at h
  next name =>
    split at h
    · cases h
    · split at h
      · cases h
      · split at h
        · cases h
        · rw [Except.ok.inj h]
  next => cases h

section Walk

variable {accounts : List Account} {s : Sid}

/-- A quiet operation is lawful. -/
theorem lawful_quiet {o : Op} (h : o.quiet = true) : (lawful accounts).may o := by
  cases o with
  | roomsJoin | contactsAdd | usersRegister | sessionsLogin | sessionsLogout => cases h
  | _ => trivial

/-- Handlers whose writes are lawful whatever was answered. -/
theorem lawful_of_uses {α : Type} {F : Footprint} {p : RouterM α} (hp : p.Uses F.allows)
    (hw : ∀ o, F.writes o → (lawful accounts).may o) : Lawful accounts p fun _ => True := by
  refine hp.abides fun o ho => ?_
  rcases ho with hq | hwr | ⟨t, g, rfl, -⟩
  · exact lawful_quiet hq
  · exact hw o hwr
  · trivial

/-- Handlers that write nothing, whatever they send. -/
theorem lawful_of_reads {α : Type} {p : RouterM α}
    (hp : p.Uses (Footprint.allows { sends := fun _ _ => True })) : Lawful accounts p fun _ => True :=
  lawful_of_uses hp fun _ ho => ho.elim

theorem refuse_lawful (code message : Str) : Lawful accounts (refuse s code message) fun _ => True :=
  lawful_of_reads (Footprint.refuse fun _ _ => trivial)

/-! ### Contacts -/

/-- Two accounts may become contacts. -/
theorem noteContact_lawful (cfg : Config) {owner other : Json} (ho : NamesAccount accounts owner)
    (hc : NamesAccount accounts other) :
    Lawful accounts (noteContact cfg owner other) fun _ => True := by
  unfold noteContact
  split
  · exact abides_pure trivial
  · split
    · split
      · exact abides_pure trivial
      · refine abides_call ⟨ho, hc⟩ fun added _ => ?_
        split
        · exact abides_pure trivial
        · refine abides_call trivial fun theirs _ => ?_
          cases theirs with
          | none => exact abides_pure trivial
          | some theirs =>
            exact lawful_of_reads (sendContacts_uses cfg fun _ _ => trivial)
    · exact abides_raise _

/-- A direct message goes to somebody who is connected or has an account. -/
theorem reachable_lawful (cfg : Config) {recipient : Option Sid} {target : Str}
    (h : recipient.isSome = true → Registered accounts target) :
    Lawful accounts (reachable cfg recipient target) fun ok => ok = true → Registered accounts target := by
  unfold reachable
  split
  next hr => exact abides_pure fun _ => h hr
  next =>
    split
    · exact abides_pure nofun
    · exact abides_call (f := .pure) trivial fun known hknown => abides_pure hknown

/-- **A message to a user** touches the contacts of accounts only. -/
theorem toUser_lawful (cfg : Config) {me : Json} (hme : NamesAccount accounts me) (target : Str)
    (g : Frame) : Lawful accounts (toUser cfg s me target g) fun _ => True := by
  unfold toUser
  refine abides_call trivial fun recipient hrecipient => ?_
  refine (reachable_lawful cfg fun hr => hrecipient hr target rfl).bind fun ok hok => ?_
  cases ok with
  | false =>
    exact (refuse_lawful ..).bind fun _ _ => abides_pure trivial
  | true =>
    obtain ⟨name, rfl, hname⟩ := hme
    have htarget : NamesAccount accounts (.str target) := ⟨target, rfl, hok rfl⟩
    have hsender : NamesAccount accounts (orEmpty (.str name)) := ⟨name, orEmpty_str name, hname⟩
    refine Abides.bind (Q := fun _ => True) ?_ fun conversation _ => ?_
    · cases directConversation (orEmpty (.str name)) (.str target) with
      | ok c => exact abides_pure trivial
      | error e => exact abides_raise e
    refine Abides.bind (Q := fun _ => True) ?_ fun _ _ => ?_
    · unfold record
      split
      · exact abides_pure trivial
      · exact abides_call (f := .pure) trivial fun _ _ => abides_pure trivial
    refine (noteContact_lawful cfg hsender htarget).bind fun _ _ => ?_
    refine (noteContact_lawful cfg htarget hsender).bind fun _ _ => ?_
    refine Abides.bind (Q := fun _ => True) ?_ fun _ _ => abides_pure trivial
    cases recipient with
    | none => exact abides_call (f := .pure) trivial fun _ _ => abides_pure trivial
    | some t => exact abides_call (f := .pure) trivial fun _ _ => abides_pure trivial

/-- Only somebody with an account is added. -/
theorem addContact_lawful (cfg : Config) {me : Json} (hme : NamesAccount accounts me) (f : Frame) :
    Lawful accounts (addContact cfg s me f) fun _ => True := by
  unfold addContact
  split
  · exact refuse_lawful ..
  · split
    next name _ =>
      split
      · exact refuse_lawful ..
      · split
        · exact refuse_lawful ..
        · split
          · exact refuse_lawful ..
          · refine abides_call trivial fun known hknown => ?_
            cases known with
            | false => exact refuse_lawful ..
            | true =>
              obtain ⟨mine, rfl, hmine⟩ := hme
              refine abides_call ⟨⟨mine, orEmpty_str mine, hmine⟩, ⟨name, rfl, hknown rfl⟩⟩ fun _ _ => ?_
              exact lawful_of_reads (sendContacts_uses cfg fun _ _ => trivial)
    next => exact refuse_lawful ..

variable [Runtime]

/-- A message to a room is lawful whoever sends it. -/
theorem toRoom_lawful (cfg : Config) (me : Json) (room : Str) (f : Frame) (env : Option Dict) :
    Lawful accounts (toRoom cfg s me room (outgoing me f) env) fun _ => True := by
  unfold toRoom
  refine abides_call trivial fun known _ => ?_
  split
  · exact (refuse_lawful ..).bind fun _ _ => abides_pure trivial
  · refine abides_call trivial fun members _ => ?_
    split
    · exact (refuse_lawful ..).bind fun _ _ => abides_pure trivial
    · refine Abides.bind (Q := fun _ => True) ?_ fun _ _ => ?_
      · unfold recordRoom recordEnvelopes record
        split
        · split
          · exact abides_pure trivial
          · exact abides_call (f := .pure) trivial fun _ _ => abides_pure trivial
        · split
          · exact abides_pure trivial
          · exact abides_call (f := .pure) trivial fun _ _ => abides_pure trivial
      · refine (abides_forEach fun name _ => ?_).bind fun _ _ => abides_pure trivial
        unfold deliverTo
        split
        · exact abides_pure trivial
        · refine abides_call trivial fun member _ => ?_
          split
          · exact abides_pure trivial
          · split
            · exact abides_pure trivial
            · cases member with
              | none => exact abides_call (f := .pure) trivial fun _ _ => abides_pure trivial
              | some t => exact abides_call (f := .pure) trivial fun _ _ => abides_pure trivial

theorem message_lawful (cfg : Config) {me : Json} (hme : NamesAccount accounts me) (f : Frame) :
    Lawful accounts (message cfg s me f) fun _ => True := by
  unfold message
  split
  · exact refuse_lawful ..
  · split
    next target _ =>
      refine Abides.bind (Q := fun _ => True) ?_ fun ok _ => ?_
      · unfold deliver
        split
        · exact toRoom_lawful ..
        · exact toUser_lawful cfg hme target _
      · split
        · exact lawful_of_reads (Footprint.send_frame fun _ _ => trivial)
        · exact abides_pure trivial
    next => exact abides_raise _

/-! ### Rooms -/

section Rooms

variable {T : Terms routerSig}

/-- On these terms requests about rooms can be made: reading and sending are free, and
somebody who has been found may be joined. -/
structure RoomTerms (T : Terms routerSig) : Prop where
  free : ∀ o, Footprint.allows { sends := fun _ _ => True } o → T.may o
  creates : ∀ room, T.may (.roomsCreate room)
  joins : ∀ room name, roomProblem (.str room) = .ok room → T.answers (.usersExists name) true →
    T.may (.roomsJoin room (.str name))

omit [Runtime] in
theorem RoomTerms.reads {α : Type} {p : RouterM α} (hT : RoomTerms T)
    (hp : p.Uses (Footprint.allows { sends := fun _ _ => True })) : p.Abides T fun _ => True :=
  hp.abides hT.free

omit [Runtime] in
theorem RoomTerms.refuse (hT : RoomTerms T) (code message : Str) :
    (MessageRouter.refuse s code message).Abides T fun _ => True :=
  hT.reads (Footprint.refuse fun _ _ => trivial)

/-- A name is joined once it has been found. -/
theorem joinAll_abides (hT : RoomTerms T) {room : Str} (hroom : roomProblem (.str room) = .ok room) (names : List Json) :
    (joinAll room names).Abides T fun _ => True := by
  induction names with
  | nil => exact abides_pure trivial
  | cons v rest ih =>
    unfold joinAll
    dsimp only
    split
    · refine abides_call (hT.free (.usersExists v.pyStr) (.inl rfl)) fun known hknown => ?_
      cases known with
      | false => exact ih
      | true =>
        refine abides_call (hT.joins room v.pyStr hroom hknown) fun _ _ => ?_
        exact ih.bind fun _ _ => abides_pure trivial
    · exact ih

theorem addMembers_abides (hT : RoomTerms T) {room : Str} (hroom : roomProblem (.str room) = .ok room) (members : Json) :
    (addMembers room members).Abides T fun _ => True := by
  unfold addMembers
  split
  · exact joinAll_abides hT hroom _
  · exact abides_pure trivial

omit [Runtime] in
/-- A handler goes on with a room only if its name is one a room can have. -/
theorem roomName_abides (hT : RoomTerms T) (f : Frame) : (roomName s f).Abides T
    fun r => ∀ room, r = some room → roomProblem (.str room) = .ok room := by
  unfold roomName
  split
  · exact (hT.refuse ..).bind fun _ _ => abides_pure nofun
  next room hroom =>
    refine abides_pure fun room' he => ?_
    rw [← Option.some.inj he, ← roomProblem_eq hroom]
    exact hroom

omit [Runtime] in
theorem broadcastRoomState_abides (hT : RoomTerms T) (room : Str) :
    (broadcastRoomState room).Abides T fun _ => True :=
  hT.reads (broadcastRoomState_uses room fun _ _ _ => trivial)

/-- CREATE_ROOM joins whoever asks and the accounts it names, in a checked room. -/
theorem createRoom_abides (hT : RoomTerms T) {me : Json}
    (hme : ∀ room, roomProblem (.str room) = .ok room → T.may (.roomsJoin room me)) (f : Frame) :
    (createRoom s me f).Abides T fun _ => True := by
  unfold createRoom
  refine (roomName_abides hT f).bind fun r hr => ?_
  cases r with
  | none => exact abides_pure trivial
  | some room =>
    refine abides_call (hT.creates room) fun created _ => ?_
    split
    · exact hT.refuse ..
    · refine abides_call (hme room (hr room rfl)) fun _ _ => ?_
      exact (addMembers_abides hT (hr room rfl) _).bind fun _ _ => broadcastRoomState_abides hT room

omit [Runtime] in
/-- JOIN joins whoever asks. -/
theorem join_abides (hT : RoomTerms T) {me : Json}
    (hme : ∀ room, roomProblem (.str room) = .ok room → T.may (.roomsJoin room me)) (f : Frame) :
    (join s me f).Abides T fun _ => True := by
  unfold join
  refine (roomName_abides hT f).bind fun r hr => ?_
  cases r with
  | none => exact abides_pure trivial
  | some room =>
    refine abides_call (hT.free (.roomsExists room) (.inl rfl)) fun known _ => ?_
    split
    · exact hT.refuse ..
    · exact abides_call (hme room (hr room rfl)) fun _ _ => broadcastRoomState_abides hT room

/-- INVITE joins the accounts it names. -/
theorem invite_abides (hT : RoomTerms T) (me : Json) (f : Frame) : (invite s me f).Abides T fun _ => True := by
  unfold invite
  refine (roomName_abides hT f).bind fun r hr => ?_
  cases r with
  | none => exact abides_pure trivial
  | some room =>
    refine abides_call (hT.free (.roomsExists room) (.inl rfl)) fun known _ => ?_
    split
    · exact hT.refuse ..
    · refine abides_call (hT.free (.roomsMembers room) (.inl rfl)) fun members _ => ?_
      split
      · exact hT.refuse ..
      · refine (addMembers_abides hT (hr room rfl) _).bind fun added _ => ?_
        refine Abides.bind (Q := fun _ => True) (hT.reads (missingNames_uses room added _)) fun missing _ => ?_
        refine Abides.bind (Q := fun _ => True) (hT.reads (reportMissing_uses s missing fun _ _ => trivial)) fun _ _ => ?_
        split
        · exact broadcastRoomState_abides hT room
        · exact abides_pure trivial

omit [Runtime] in
/-- Everybody who is joined has an account. -/
theorem lawful_rooms (accounts : List Account) : RoomTerms (lawful accounts) where
  free o ho := by
    rcases ho with hq | hwr | ⟨t, g, rfl, -⟩
    · exact lawful_quiet hq
    · exact hwr.elim
    · trivial
  creates _ := trivial
  joins _ name hroom hfound := ⟨hroom, name, rfl, hfound rfl⟩

end Rooms

/-- **Every request of somebody with an account.** -/
theorem dispatch_lawful (cfg : Config) {me : Json} (hme : NamesAccount accounts me) (f : Frame) :
    Lawful accounts (dispatch cfg s me f) fun _ => True := by
  cases ht : f.type with
  | msg => unfold dispatch; rw [ht]; exact message_lawful cfg hme f
  | createRoom => unfold dispatch; rw [ht]; exact createRoom_abides (lawful_rooms accounts) (fun _ hroom => ⟨hroom, hme⟩) f
  | join => unfold dispatch; rw [ht]; exact join_abides (lawful_rooms accounts) (fun _ hroom => ⟨hroom, hme⟩) f
  | invite => unfold dispatch; rw [ht]; exact invite_abides (lawful_rooms accounts) me f
  | addContact => unfold dispatch; rw [ht]; exact addContact_lawful cfg hme f
  | register => unfold dispatch; rw [ht]; exact refuse_lawful ..
  | login => unfold dispatch; rw [ht]; exact refuse_lawful ..
  | _ =>
    refine lawful_of_uses (dispatch_uses cfg s me f) fun o ho => ?_
    have ho : f.type.writes o = true := ho
    rw [ht] at ho
    cases o with
    | roomsJoin | contactsAdd | usersRegister | sessionsLogin | sessionsLogout => cases ho
    | _ => trivial

end Walk

/-! ## The tables during a request -/

/-- Memberships and contacts of people with an account. -/
structure Peopled (accounts : List Account) (w : World) : Prop where
  members : ∀ m ∈ w.memberships, Registered accounts m.2
  rooms : ∀ m ∈ w.memberships, m.1 ∈ w.rooms ∧ roomProblem (.str m.1) = .ok m.1
  contacts : ∀ c ∈ w.contacts, Registered accounts c.1 ∧ Registered accounts c.2
  apart : ∀ c ∈ w.contacts, c.1 ≠ c.2

/-- More accounts do no harm. -/
theorem Registered.mono {accounts accounts' : List Account} {name : Str} (h : Registered accounts name)
    (hsub : ∀ a ∈ accounts, a ∈ accounts') : Registered accounts' name := by
  obtain ⟨⟨a, ha, hname⟩, hroom⟩ := h
  exact ⟨⟨a, hsub a ha, hname⟩, hroom⟩

/-- More accounts do no harm. -/
theorem Peopled.mono {accounts accounts' : List Account} {w w' : World} (h : Peopled accounts w)
    (hsub : ∀ a ∈ accounts, a ∈ accounts') (hm : w'.memberships = w.memberships)
    (hr : w'.rooms = w.rooms) (hc : w'.contacts = w.contacts) : Peopled accounts' w' := by
  refine ⟨?_, ?_, ?_, ?_⟩
  · rw [hm]
    exact fun m hmem => (h.members m hmem).mono hsub
  · rw [hm, hr]
    exact h.rooms
  · rw [hc]
    exact fun c hmem => ⟨(h.contacts c hmem).1.mono hsub, (h.contacts c hmem).2.mono hsub⟩
  · rw [hc]
    exact h.apart

section Worlds

variable [Runtime]

/-- What sqlite makes of such a value is the name of the account. -/
theorem NamesAccount.text {accounts : List Account} {v : Json} (h : NamesAccount accounts v)
    {t : Option Str} (ht : Sql.text v = .ok t) : ∃ name, v = .str name ∧ t = some name ∧ Registered accounts name := by
  obtain ⟨name, rfl, hname⟩ := h
  exact ⟨name, rfl, (Sql.text_str_ok.mp ht).2, hname⟩

/-- A lawful call keeps the tables. -/
theorem Peopled.exec {accounts : List Account} {w : World} (h : Peopled accounts w) {o : Op}
    (hmay : (lawful accounts).may o) : Peopled accounts (Ciphertext.exec o w).2 := by
  have hother : Field.memberships ∉ o.writesTo → Field.rooms ∉ o.writesTo →
      Field.contacts ∉ o.writesTo → Peopled accounts (Ciphertext.exec o w).2 := by
    intro hm hr hc
    exact h.mono (fun _ ha => ha) (exec_same o w hm) (exec_same o w hr) (exec_same o w hc)
  cases o with
  | roomsCreate room =>
    show Peopled accounts (commit w (SqliteRooms.create w room)).2
    cases hr : SqliteRooms.create w room with
    | error e => exact h
    | ok r =>
      obtain ⟨b, w'⟩ := r
      obtain ⟨-, ⟨-, rfl, -⟩ | ⟨-, -, rfl⟩⟩ := SqliteRooms.create_cases hr
      · exact h
      · refine ⟨h.members, fun m hm => ?_, h.contacts, h.apart⟩
        exact ⟨List.mem_append_left _ (h.rooms m hm).1, (h.rooms m hm).2⟩
  | roomsJoin room u =>
    obtain ⟨hroom, hu⟩ : roomProblem (.str room) = .ok room ∧ NamesAccount accounts u := hmay
    show Peopled accounts (commit' w (SqliteRooms.join w room u)).2
    cases hr : SqliteRooms.join w room u with
    | error e => exact h
    | ok w' =>
      obtain ⟨-, ⟨ht, -⟩ | ⟨name, ht, rfl⟩⟩ := SqliteRooms.join_cases hr
      · obtain ⟨name, -, hnone, -⟩ := hu.text ht
        cases hnone
      · obtain ⟨name', -, hname, hreg⟩ := hu.text ht
        obtain rfl := Option.some.inj hname
        refine ⟨fun m hm => ?_, fun m hm => ?_, h.contacts, h.apart⟩
        · rcases mem_addOnce.mp hm with hm | rfl
          · exact h.members m hm
          · exact hreg
        · rcases mem_addOnce.mp hm with hm | rfl
          · exact ⟨mem_addOnce.mpr (.inl (h.rooms m hm).1), (h.rooms m hm).2⟩
          · exact ⟨mem_addOnce.mpr (.inr rfl), hroom⟩
  | roomsLeave room u =>
    show Peopled accounts (commit' w (SqliteRooms.leave w room u)).2
    cases hr : SqliteRooms.leave w room u with
    | error e => exact h
    | ok w' =>
      obtain ⟨-, name, -, rfl⟩ := SqliteRooms.leave_cases hr
      exact ⟨fun m hm => h.members m (List.mem_of_mem_filter hm),
        fun m hm => h.rooms m (List.mem_of_mem_filter hm), h.contacts, h.apart⟩
  | contactsAdd owner contact =>
    obtain ⟨ho, hc⟩ : NamesAccount accounts owner ∧ NamesAccount accounts contact := hmay
    show Peopled accounts (commit w (SqliteContacts.add w owner contact)).2
    cases hr : SqliteContacts.add w owner contact with
    | error e => exact h
    | ok r =>
      obtain ⟨b, w'⟩ := r
      rcases SqliteContacts.add_cases hr with ⟨-, rfl⟩ | ⟨a, c, ha, hc', hne, -, -, rfl⟩
      · exact h
      obtain ⟨a', rfl, ha', hrega⟩ := ho.text ha
      obtain ⟨c', rfl, hc', hregc⟩ := hc.text hc'
      obtain rfl := Option.some.inj ha'
      obtain rfl := Option.some.inj hc'
      refine ⟨h.members, h.rooms, fun x hx => ?_, fun x hx => ?_⟩
      · rcases List.mem_append.mp hx with hx | hx
        · exact h.contacts x hx
        · rw [List.mem_singleton.mp hx]
          exact ⟨hrega, hregc⟩
      · rcases List.mem_append.mp hx with hx | hx
        · exact h.apart x hx
        · -- `add` has compared the two
          rw [List.mem_singleton.mp hx]
          intro hac
          have hac : a = c := hac
          rw [hac, Json.pyEq_refl] at hne
          cases hne
  | contactsRemove owner contact =>
    show Peopled accounts (commit' w (SqliteContacts.remove w owner contact)).2
    cases hr : SqliteContacts.remove w owner contact with
    | error e => exact h
    | ok w' =>
      obtain ⟨a, c, -, -, rfl⟩ := SqliteContacts.remove_cases hr
      exact ⟨h.members, h.rooms, fun x hx => h.contacts x (List.mem_of_mem_filter hx),
        fun x hx => h.apart x (List.mem_of_mem_filter hx)⟩
  | _ => exact hother (by simp [Op.writesTo]) (by simp [Op.writesTo]) (by simp [Op.writesTo])

/-- The world during a request that changes neither the accounts nor who is online. -/
structure Vouched (w₀ w : World) : Prop where
  accounts : w.accounts = w₀.accounts
  online : w.online = w₀.online
  kept : Peopled w₀.accounts w

/-- Everybody online under a string has an account. -/
theorem Wired.registered {w : World} (h : Wired w) {s : Sid} {name : Str}
    (hs : w.username s = some (.str name)) : Registered w.accounts name := by
  obtain ⟨a, ha, ht⟩ := h.account s _ hs
  obtain rfl := Option.some.inj (Sql.text_str_ok.mp ht).2
  exact ⟨⟨a, ha, rfl⟩, (h.names a ha).2.2⟩

/-- A connected name, and one that `users.exists` knows, has an account. -/
theorem Vouched.answers {w₀ w : World} (h : Vouched w₀ w) (hw : Wired w₀) (o : Op) (r : Op.Ret o)
    (hr : (Ciphertext.exec o w).1 = .ok r) : (lawful w₀.accounts).answers o r := by
  cases o with
  | usersExists u =>
    rintro rfl
    have hex : SqliteUsers.exists' w u = .ok true := hr
    simp only [SqliteUsers.exists', Bind.bind, Except.bind, Pure.pure, Except.pure] at hex
    split at hex
    · cases hex
    next name hname =>
      obtain ⟨-, rfl⟩ := Sql.str_ok.mp hname
      obtain ⟨a, ha, hau⟩ := List.any_eq_true.mp (Except.ok.inj hex)
      rw [h.accounts] at ha
      have hau := beq_iff_eq.mp hau
      exact ⟨⟨a, ha, hau⟩, hau ▸ (hw.names a ha).2.2⟩
  | sessionsGet v =>
    intro hsome u hv
    subst hv
    obtain ⟨t, ht⟩ := Option.isSome_iff_exists.mp hsome
    have hget : SessionRegistry.get w (.str u) = some t := (Except.ok.inj hr).trans ht
    rw [SessionRegistry.get, h.online, ← SessionRegistry.get] at hget
    exact hw.registered (hw.get_eq hget)
  | _ => trivial

/-- What is lawful keeps the contacts and memberships those of accounts. -/
theorem Vouched.exec {w₀ w : World} (h : Vouched w₀ w) {o : Op} (hmay : (lawful w₀.accounts).may o) :
    Vouched w₀ (Ciphertext.exec o w).2 := by
  have haccounts : Field.accounts ∉ o.writesTo := by
    cases o <;> simp [Op.writesTo]
    exact hmay
  have honline : Field.online ∉ o.writesTo := by
    cases o <;> simp [Op.writesTo] <;> exact hmay
  have hsame : (Ciphertext.exec o w).2.accounts = w.accounts := exec_same o w haccounts
  have hsame' : (Ciphertext.exec o w).2.online = w.online := exec_same o w honline
  exact ⟨hsame.trans h.accounts, hsame'.trans h.online, h.kept.exec hmay⟩

/-- A lawful program keeps the tables. -/
theorem Peopled.run {w : World} (h : Peopled w.accounts w) (hw : Wired w) {p : RouterM Unit}
    (hp : Lawful w.accounts p fun _ => True) : Vouched w (p.exec w).2 := by
  have hcall : ∀ o w', (lawful w.accounts).may o → Vouched w w' →
      Vouched w (Ciphertext.exec o w').2 ∧
        ∀ r, (Ciphertext.exec o w').1 = .ok r → (lawful w.accounts).answers o r :=
    fun o w' hmay hv => ⟨hv.exec hmay, fun r hr => hv.answers hw o r hr⟩
  exact (hp.run hcall w ⟨rfl, rfl, h⟩).1

/-! ## Whole runs -/

/-- **The tables fit together.** -/
structure Integrity (w : World) : Prop where
  sessions : ∀ s u, w.username s = some u → NamesAccount w.accounts u
  members : ∀ m ∈ w.memberships, Registered w.accounts m.2
  rooms : ∀ m ∈ w.memberships, m.1 ∈ w.rooms ∧ roomProblem (.str m.1) = .ok m.1
  pending : ∀ p ∈ w.pending, Registered w.accounts p.2
  stored : PendingStored w
  senders : ∀ r ∈ w.messages, Registered w.accounts r.sender
  contacts : ∀ c ∈ w.contacts, Registered w.accounts c.1 ∧ Registered w.accounts c.2
  apart : ∀ c ∈ w.contacts, c.1 ≠ c.2

omit [Runtime] in
theorem Integrity.peopled {w : World} (h : Integrity w) : Peopled w.accounts w :=
  ⟨h.members, h.rooms, h.contacts, h.apart⟩

variable {cfg : Config} {w : World} {i : Input}

/-- A connection that is logged in under a string still is, or has just logged in
under one. -/
theorem step_sessions (h : Integrity w) (hw : Wired w) (hs : Spelled i) :
    ∀ s u, (Step.of cfg w i).after.username s = some u → NamesAccount (Step.of cfg w i).after.accounts u := by
  intro s u hu
  have hafter : Wired (Step.of cfg w i).after := step_wired hw cfg i
  have hstr : ∃ name, u = .str name := by
    rcases step_username cfg w i hu with hold | ⟨f, rfl, -, hin, rfl⟩
    · obtain ⟨name, hname, -⟩ := h.sessions s u hold
      exact ⟨name, hname⟩
    · exact hs hin.named
  obtain ⟨name, rfl⟩ := hstr
  exact ⟨name, rfl, hafter.registered hu⟩

/-- Memberships and contacts are written only by requests of somebody logged in. -/
theorem step_kept (h : Integrity w) (hw : Wired w) : Peopled (Step.of cfg w i).after.accounts (Step.of cfg w i).after := by
  have hsub : ∀ a ∈ w.accounts, a ∈ (Step.of cfg w i).after.accounts :=
    fun a => step_accounts_subset cfg w i
  cases i with
  | hangup s =>
    exact h.peopled.mono hsub (onDisconnect_same s w (x := .memberships) (by simp) (by simp) (by simp))
      (onDisconnect_same s w (x := .rooms) (by simp) (by simp) (by simp))
      (onDisconnect_same s w (x := .contacts) (by simp) (by simp) (by simp))
  | frame s f =>
    by_cases hfree : f.type = .ping ∨ f.type = .register ∨ f.type = .login
    · have hsame : ∀ x : Field, x ≠ .sent → x ∉ f.type.fields → x.Same w (Step.of cfg w (.frame s f)).after :=
        fun x hx hf => handle_same cfg s f w hx hf
      refine h.peopled.mono hsub (hsame .memberships (by simp) ?_) (hsame .rooms (by simp) ?_)
          (hsame .contacts (by simp) ?_) <;>
        rcases hfree with ht | ht | ht <;> simp [ht, MessageType.fields]
    · simp only [not_or] at hfree
      obtain ⟨hp, hr, hl⟩ := hfree
      cases hu : w.username s with
      | none =>
        have hrun : (Step.of cfg w (.frame s f)).after = _ := congrArg Prod.snd (handle_nobody cfg s hp hr hl hu)
        have hvouched := h.peopled.run hw
          (refuse_lawful (s := s) "NOT_LOGGED_IN" "log in before sending anything else")
        rw [← hrun] at hvouched
        rw [hvouched.accounts]
        exact hvouched.kept
      | some me =>
        have hrun : (Step.of cfg w (.frame s f)).after = ((dispatch cfg s me f).exec w).2 :=
          congrArg Prod.snd (handle_dispatch cfg s hp hr hl hu)
        have hvouched := h.peopled.run hw (dispatch_lawful cfg (s := s) (h.sessions s me hu) f)
        rw [← hrun] at hvouched
        rw [hvouched.accounts]
        exact hvouched.kept

/-- Whoever is queued for has an account: a member of the room, or the person the
message was to, who is known because they are not connected. -/
theorem step_queued (h : Integrity w) {p : Str × Str} (hq : Queueing cfg (Step.of cfg w i) p.1 p.2) :
    Registered w.accounts p.2 := by
  obtain ⟨s, f, me, target, g, -, -, -, hacc, -, hcopy, -⟩ := hq.origin
  have haway : SessionRegistry.get w (.str p.2) = none := hq.away
  have hadm := hacc.2.2
  have hcopy : (p.2, g) ∈ copies w me f target := hcopy
  unfold Admitted at hadm
  unfold copies at hcopy
  split at hcopy
  next hroom =>
    obtain ⟨name, hname, hc⟩ := List.mem_filterMap.mp hcopy
    have hmember : p.2 ∈ memberNames w target := by
      rw [← (copyFor_msg hc).1] at hname
      exact Str.mem_sorted.mp hname
    obtain ⟨m, hm, hmp⟩ := List.mem_map.mp hmember
    rw [← hmp]
    exact h.members m (List.mem_of_mem_filter hm)
  next hroom =>
    have htarget : p.2 = target := congrArg Prod.fst (List.mem_singleton.mp hcopy)
    rw [if_neg hroom] at hadm
    rcases hadm with hon | ⟨-, a, ha, hname⟩
    · have haway' : SessionRegistry.get w (.str target) = none := htarget ▸ haway
      have hon : (SessionRegistry.get w (.str target)).isSome = true := hon
      rw [haway'] at hon
      cases hon
    · rw [htarget]
      exact ⟨⟨a, ha, hname⟩, by simpa using hroom⟩

/-- **One step keeps the integrity.** -/
theorem step_integrity (h : Integrity w) (hw : Wired w) (hs : Spelled i) :
    Integrity (Step.of cfg w i).after := by
  have hsub : ∀ a ∈ w.accounts, a ∈ (Step.of cfg w i).after.accounts :=
    fun a => step_accounts_subset cfg w i
  have hkept : Peopled (Step.of cfg w i).after.accounts (Step.of cfg w i).after := step_kept h hw
  refine ⟨step_sessions h hw hs, hkept.members, hkept.rooms, ?_, step_pendingStored h.stored hw cfg i, ?_,
    hkept.contacts, hkept.apart⟩
  · intro p hp
    rcases step_pending cfg w i hp with hold | hq
    · exact (h.pending p hold).mono hsub
    · exact (step_queued h hq).mono hsub
  · intro r hr
    rcases step_messages cfg w i with hsame | ⟨row, hrec⟩ | ⟨id, state, now, hmark⟩
    · exact (h.senders r (hsame ▸ hr)).mono hsub
    · rw [hrec.after] at hr
      rcases List.mem_append.mp hr with hold | hnew
      · exact (h.senders r hold).mono hsub
      · obtain rfl := List.mem_singleton.mp hnew
        obtain ⟨s, f, me, -, -, hu, hacc, hstores⟩ := hrec.origin
        obtain rfl : me = .str r.sender := hstores.sender_eq (hw.named s me hu) hacc.2.2
        exact (hw.registered hu).mono hsub
    · rw [hmark] at hr
      obtain ⟨r₀, hr₀, heq⟩ := mem_markAll hr
      have hsender : r.sender = r₀.sender := by
        show r.unmarked.sender = r₀.unmarked.sender
        rw [heq]
      rw [hsender]
      exact (h.senders r₀ hr₀).mono hsub

/-- **Referential integrity over whole runs.** The only fields whose type matters
are the names people log in under. -/
theorem Run.integrity {cfg : Config} {w : World} {tr : List Step} {uuid : Nat → Str} {clock : Nat → Int}
    {salt : Nat → List UInt8} (h : Run cfg (World.start uuid clock salt) tr w)
    (hs : ∀ st ∈ tr, Spelled st.input) : Integrity w := by
  have hboth : Wired w ∧ Integrity w := by
    induction h with
    | nil => exact ⟨wired_start uuid clock salt, by constructor <;> simp [World.start, PendingStored]⟩
    | @snoc tr w _ i ih =>
      obtain ⟨hw, hint⟩ := ih fun st hst => hs st (List.mem_append_left _ hst)
      have hi : Spelled i := hs _ (List.mem_append_right _ (List.mem_singleton.mpr rfl))
      exact ⟨step_wired hw cfg i, step_integrity hint hw hi⟩
  exact hboth.2

end Worlds

section Concrete

open Sample

attribute [local instance] sampleRuntime

/-- Two accounts, a message that waits for one of them, and a room. -/
theorem ordinary_integrity : Integrity (fresh.after chatServer
    [register "a", register "b", login 0 "a", msg 0 "b" "i",
      .frame 0 (ask .createRoom [("room", .str "#r"), ("members", .list [.str "b"])])]) := by
  refine Run.integrity (Run.of_inputs chatServer fresh _) fun st hst => ?_
  have hmem := mem_trace hst
  simp only [List.mem_cons, List.not_mem_nil, or_false] at hmem
  rcases hmem with he | he | he | he | he <;> rw [he]
  · exact fun _ => ⟨"a", by decide⟩
  · exact fun _ => ⟨"b", by decide⟩
  · exact fun _ => ⟨"a", by decide⟩
  · exact fun h => absurd h (by decide)
  · exact fun h => absurd h (by decide)

end Concrete

end Ciphertext
