import Ciphertext.Server.Heard

/-!
# Contact lists on screen

A list is shown by a LOGIN_OK and by every CONTACTS after it, and changes in three
ways: somebody adds or removes a contact, or writes to somebody. Each of them looks
the owner up under the name the row is stored for, so it finds everybody who logged
in under that name, as a string. A LOGIN that names the number `1` is let in as the
account `1` and owns its rows, but `sessions.get("1")` does not find it.

Within a request the invariant is `Abreast`: whose list has changed has been shown it,
with nothing in between that could change it again. `handle_updates` has it for every
request but LOGIN, `step_serves` for every step, and `Run.contacts_shown` is the run:
where whoever is let in is named by a string (`ByString`), the last LOGIN_OK or CONTACTS
that somebody online was sent shows the list as it is stored. `numbered` is a run with
the number `1`.
-/

namespace Ciphertext

open Prog MessageRouter

section Contacts

/-! ## The frames -/

/-- A frame that shows a list of contacts. -/
def isContacts (g : Frame) : Bool := g.type = .contacts || g.type = .loginOk

/-- It shows these, each with whether they are online. -/
def ShowsContacts (names : List Str) (g : Frame) : Prop :=
  ∃ online : Str → Bool, g.get "contacts" =
    .list (names.map fun name => .dict [("user", .str name), ("online", .bool (online name))])

/-- The contacts stored for a name, alphabetically. -/
def contactsFor (w : World) (u : Str) : List Str :=
  Str.sorted ((w.contacts.filter fun c => c.1 == u).map Prod.snd)

/-- The request shows `u` their list as it is then, or leaves it as it was. -/
def Posted (w₀ w : World) (ds : List Delivery) (t : Sid) (u : Str) : Prop :=
  (∃ d, latest (fun d : Delivery => isContacts d.frame) (ds.filter fun d => d.session = t) = some d ∧
      ShowsContacts (contactsFor w u) d.frame) ∨
    (∀ d ∈ ds, d.session = t → isContacts d.frame = false) ∧ contactsFor w u = contactsFor w₀ u

/-- How far a request has got: everybody whose list has changed has been shown it. -/
structure Abreast (w₀ w : World) : Prop where
  online : w.online = w₀.online
  username : w.username = w₀.username
  sent : ∃ ds, w.sent = w₀.sent ++ ds ∧ ∀ t u, w₀.username t = some (.str u) → Posted w₀ w ds t u

variable {w₀ w w' : World} {ds : List Delivery} {t : Sid} {u : Str}

theorem isContacts_error {g : Frame} (h : g.type = .error) : isContacts g = false := by
  simp [isContacts, h]

theorem Abreast.refl (w : World) : Abreast w w :=
  ⟨rfl, rfl, [], (List.append_nil _).symm, fun _ _ _ => .inr ⟨nofun, rfl⟩⟩

/-- Something else is sent, and the list stays. -/
theorem Posted.other {d : Delivery} (h : Posted w₀ w ds t u) (hd : d.session = t → isContacts d.frame = false)
    (hsame : contactsFor w' u = contactsFor w u) : Posted w₀ w' (ds ++ [d]) t u := by
  have hone : ∀ x ∈ [d].filter fun d => d.session = t, isContacts x.frame = false := by
    intro x hx
    obtain ⟨hx, hs⟩ := List.mem_filter.mp hx
    obtain rfl := List.mem_singleton.mp hx
    exact hd (by simpa using hs)
  rcases h with ⟨d₀, hlatest, hshows⟩ | ⟨hnone, hkept⟩
  · refine .inl ⟨d₀, ?_, hsame ▸ hshows⟩
    rw [List.filter_append, latest_append_of_none hone]
    exact hlatest
  · refine .inr ⟨fun x hx hs => ?_, hsame.trans hkept⟩
    rcases List.mem_append.mp hx with hx | hx
    · exact hnone x hx hs
    · obtain rfl := List.mem_singleton.mp hx
      exact hd hs

/-- The list is sent as it is now. -/
theorem told_of_shown {d : Delivery} (ds : List Delivery) (hs : d.session = t) (hk : isContacts d.frame = true)
    (hshows : ShowsContacts (contactsFor w u) d.frame) : Posted w₀ w (ds ++ [d]) t u := by
  have hone : [d].filter (fun d => d.session = t) = [d] := by simp [hs]
  refine .inl ⟨d, ?_, hshows⟩
  rw [List.filter_append, hone, latest_append_of_mem ⟨d, List.mem_singleton.mpr rfl, hk⟩]
  simp [latest, hk]

/-- Nothing is sent, and the lists of those who are here stay. -/
theorem Abreast.same (h : Abreast w₀ w) (ho : w'.online = w.online) (hu : w'.username = w.username)
    (hs : w'.sent = w.sent) (hc : ∀ t u, w₀.username t = some (.str u) → contactsFor w' u = contactsFor w u) :
    Abreast w₀ w' := by
  obtain ⟨ds, hds, htold⟩ := h.sent
  refine ⟨ho.trans h.online, hu.trans h.username, ds, hs.trans hds, fun t u ht => ?_⟩
  have hsame := hc t u ht
  rcases htold t u ht with ⟨d, hlatest, hshows⟩ | ⟨hnone, hkept⟩
  · exact .inl ⟨d, hlatest, hsame ▸ hshows⟩
  · exact .inr ⟨hnone, hsame.trans hkept⟩

/-! ## Calls that have to do with no list -/

/-- Such calls. -/
def hush : Footprint where
  sends _ g := isContacts g = false
  writes o := ∀ x ∈ [Field.contacts, .online, .username, .sent], x ∉ o.writesTo

variable [Runtime]

theorem Abreast.exec {o : Op} (h : Abreast w₀ w) (ho : hush.allows o) : Abreast w₀ (exec o w).2 := by
  have hquiet : (∀ x ∈ [Field.contacts, .online, .username, .sent], x ∉ o.writesTo) →
      Abreast w₀ (Ciphertext.exec o w).2 := by
    intro hx
    have hsame : ∀ x ∈ [Field.contacts, .online, .username, .sent], x.Same w (Ciphertext.exec o w).2 :=
      fun x hm => exec_same o w (hx x hm)
    have hcontacts : (Ciphertext.exec o w).2.contacts = w.contacts := hsame .contacts (by simp)
    refine h.same (hsame .online (by simp)) (hsame .username (by simp)) (hsame .sent (by simp)) fun _ _ _ => ?_
    unfold contactsFor
    rw [hcontacts]
  rcases ho with hq | hw | ⟨t, g, rfl, hg⟩
  · refine hquiet fun x hx => ?_
    cases o <;> simp [Op.quiet] at hq <;> simp [Op.writesTo]
  · exact hquiet hw
  · obtain ⟨ds, hds, htold⟩ := h.sent
    refine ⟨h.online, h.username, ds ++ [⟨t, w.username t, g⟩], ?_, fun t' u ht' => ?_⟩
    · show w.sent ++ [_] = _
      rw [hds, List.append_assoc]
    · exact (htold t' u ht').other (fun _ => hg) rfl

/-- A piece of a handler that keeps everybody abreast. -/
abbrev Updates (w₀ : World) {α : Type} (p : RouterM α) : Prop := Keeps exec (Abreast w₀) p fun _ => True

theorem updates_of_uses {α : Type} {p : RouterM α} (h : p.Uses hush.allows) : Updates w₀ p :=
  h.keeps fun _ ho _ hw => hw.exec ho

/-! ## Showing a list -/

omit [Runtime] in
/-- Everybody online goes by a string. -/
def Strung (w : World) : Prop := ∀ t u, w.username t = some u → ∃ name, u = .str name

omit [Runtime] in
theorem Strung.usernames (h : Strung w) (ho : ∀ e ∈ w.online, w.username e.2 = some e.1) :
    ∃ names, SessionRegistry.usernames w = .ok names := by
  have hstr : (w.online.map Prod.fst).all (fun v => v.asStr.isSome) = true := by
    rw [List.all_eq_true]
    intro v hv
    obtain ⟨e, he, rfl⟩ := List.mem_map.mp hv
    obtain ⟨name, hname⟩ := h _ _ (ho e he)
    rw [hname]
    rfl
  unfold SessionRegistry.usernames Json.sortedNames
  rw [if_pos hstr]
  split <;> exact ⟨_, rfl⟩

/-- The stored list is read back. -/
theorem contactsOf_eq (henc : u.encodable = true) (w : World) :
    SqliteContacts.of w (.str u) = .ok (contactsFor w u) := by
  have htext : Sql.text (.str u) = .ok (some u) := Sql.text_of_encodable henc
  simp [SqliteContacts.of, contactsFor, htext, Bind.bind, Except.bind, Pure.pure, Except.pure]

variable {cfg : Config}

theorem contactStates_exec (hc : cfg.contacts = true) (henc : u.encodable = true) {names : List Json}
    (hnames : SessionRegistry.usernames w = .ok names) :
    (contactStates cfg (.str u)).exec w = (.ok ((contactsFor w u).map fun name =>
      .dict [("user", .str name), ("online", .bool (names.contains (.str name)))]), w) := by
  unfold contactStates
  rw [hc]
  simp only [Bool.not_true, Bool.false_eq_true, if_false]
  rw [RouterM.exec_bind, RouterM.exec_call]
  simp only [exec, hnames]
  rw [RouterM.exec_bind, RouterM.exec_call]
  simp only [exec, contactsOf_eq henc]
  rfl

/-- A new frame for one connection. -/
theorem send_frame_exec (t : Sid) (type : MessageType) (sender target : Json) (data : Dict) (w : World) :
    ∃ g : Frame, g.type = type ∧ g.data = data ∧
      RouterM.exec (frame type sender target data >>= fun g => send t g) w =
        (.ok (), { w with uuids := w.uuids + 1, reads := w.reads + 1,
                          sent := w.sent ++ [⟨t, w.username t, g⟩] }) :=
  ⟨_, rfl, rfl, rfl⟩

/-- CONTACTS for a connection whose user is here. -/
theorem sendContacts_exec (hc : cfg.contacts = true) (henc : u.encodable = true)
    (ht : w.username t = some (.str u)) {names : List Json} (hnames : SessionRegistry.usernames w = .ok names) :
    ∃ g, isContacts g = true ∧ ShowsContacts (contactsFor w u) g ∧ (sendContacts cfg t).exec w =
      (.ok (), { w with uuids := w.uuids + 1, reads := w.reads + 1,
                        sent := w.sent ++ [⟨t, w.username t, g⟩] }) := by
  have hlist := contactStates_exec hc henc hnames
  generalize hstates : (contactsFor w u).map (fun name =>
    Json.dict [("user", .str name), ("online", .bool (names.contains (.str name)))]) = states at hlist
  obtain ⟨g, hg, hdata, hsend⟩ := send_frame_exec t .contacts .null (.str u) [("contacts", .list states)] w
  refine ⟨g, by simp [isContacts, hg], ⟨fun name => names.contains (.str name), ?_⟩, ?_⟩
  · rw [hstates, Frame.get, hdata]
    rfl
  · have hname : RouterM.exec (getUsername t) w = (.ok (some (.str u)), w) := by
      rw [RouterM.exec_call]
      simp only [exec, ht]
    unfold sendContacts
    rw [RouterM.exec_bind, hname]
    dsimp only
    rw [RouterM.exec_bind, hname]
    dsimp only
    rw [Option.getD_some, orEmpty_str, RouterM.exec_bind, hlist]
    exact hsend

/-! ## A list that changes -/

/-- What a request is handled in. -/
structure Setting (cfg : Config) (w₀ : World) : Prop where
  stored : cfg.contacts = true
  wired : Wired w₀
  strung : Strung w₀

variable {o c : Str} {cs : List (Str × Str)}

/-- The names people go by can be stored. -/
theorem Setting.encodable (hset : Setting cfg w) (ht : w.username t = some (.str u)) : u.encodable = true := by
  obtain ⟨a, -, htext⟩ := hset.wired.account t _ ht
  exact (Sql.text_str_ok.mp htext).1

omit [Runtime] in
/-- Other people's lists have nothing to do with a row. -/
theorem contactsFor_add (hne : u ≠ o) :
    contactsFor { w with contacts := w.contacts ++ [(o, c)] } u = contactsFor w u := by
  unfold contactsFor
  dsimp only
  rw [List.filter_append]
  simp [Ne.symm hne]

omit [Runtime] in
theorem contactsFor_remove (hne : u ≠ o) :
    contactsFor { w with contacts := w.contacts.filter fun x => !(some x.1 == some o && some x.2 == some c) } u =
      contactsFor w u := by
  unfold contactsFor
  dsimp only
  rw [List.filter_filter]
  congr 2
  refine List.filter_congr fun x _ => ?_
  by_cases hx : x.1 = u
  · simp [hx, hne]
  · simp [hx]

/-- The owner is here, and is shown the new list. -/
theorem Abreast.shown (h : Abreast w₀ w) (hset : Setting cfg w₀) (ht : w.username t = some (.str o))
    (hcs : ∀ u, u ≠ o → contactsFor { w with contacts := cs } u = contactsFor w u) :
    Abreast w₀ ((sendContacts cfg t).exec { w with contacts := cs }).2 := by
  have ht₀ : w₀.username t = some (.str o) := h.username ▸ ht
  obtain ⟨names, hnames⟩ := hset.strung.usernames hset.wired.online
  have hnames : SessionRegistry.usernames { w with contacts := cs } = .ok names := by
    unfold SessionRegistry.usernames at hnames ⊢
    dsimp only
    rw [h.online, hnames]
  have henc := hset.encodable ht₀
  obtain ⟨g, hkind, hshows, hrun⟩ := sendContacts_exec hset.stored henc (t := t) (w := { w with contacts := cs }) ht hnames
  obtain ⟨ds, hds, htold⟩ := h.sent
  rw [hrun]
  refine ⟨h.online, h.username, ds ++ [⟨t, w.username t, g⟩], ?_, fun t' u ht' => ?_⟩
  · show w.sent ++ [_] = _
    rw [hds, List.append_assoc]
  · by_cases hu : u = o
    · subst hu
      -- nobody else goes by this name
      have hsame : t' = t := Option.some.inj
        ((hset.wired.get_of_username ht').symm.trans (hset.wired.get_of_username ht₀))
      exact told_of_shown ds hsame.symm hkind hshows
    · refine (htold t' u ht').other (fun hs => absurd ?_ hu) (hcs u hu)
      obtain rfl : t = t' := hs
      exact Json.str.inj (Option.some.inj (ht'.symm.trans ht₀))

omit [Runtime] in
/-- The owner is away. -/
theorem Abreast.unseen (h : Abreast w₀ w) (haway : ∀ t, w₀.username t ≠ some (.str o))
    (hcs : ∀ u, u ≠ o → contactsFor { w with contacts := cs } u = contactsFor w u) :
    Abreast w₀ { w with contacts := cs } :=
  h.same rfl rfl rfl fun t u ht => hcs u fun hu => haway t (hu ▸ ht)

/-- Writing to somebody. -/
theorem noteContact_updates (hset : Setting cfg w₀) (o c : Str) :
    Updates w₀ (noteContact cfg (.str o) (.str c)) := by
  intro w h
  refine ⟨?_, fun _ _ => trivial⟩
  unfold noteContact
  rw [hset.stored]
  split
  · exact h
  dsimp only
  split
  · exact h
  show Abreast w₀ (RouterM.exec _ w).2
  rw [RouterM.exec_bind, RouterM.exec_call]
  simp only [exec]
  cases hadd : SqliteContacts.add w (.str o) (.str c) with
  | error e => exact h
  | ok res =>
    obtain ⟨b, w₁⟩ := res
    simp only [commit]
    rcases SqliteContacts.add_cases hadd with ⟨rfl, rfl⟩ | ⟨o', c', ho, hc, -, -, rfl, rfl⟩
    · exact h
    · obtain rfl := Option.some.inj (Sql.text_str_ok.mp ho).2
      have hcs : ∀ u, u ≠ o' → contactsFor { w with contacts := w.contacts ++ [(o', c')] } u = contactsFor w u :=
        fun u hu => contactsFor_add hu
      simp only [Bool.not_true, Bool.false_eq_true, if_false]
      rw [RouterM.exec_bind, RouterM.exec_call]
      simp only [exec]
      have hget : SessionRegistry.get { w with contacts := w.contacts ++ [(o', c')] } (.str o') =
          SessionRegistry.get w₀ (.str o') := by
        unfold SessionRegistry.get
        dsimp only
        rw [h.online]
      rw [hget]
      cases hs : SessionRegistry.get w₀ (.str o') with
      | none =>
        refine h.unseen (fun t ht => ?_) hcs
        rw [hset.wired.get_of_username ht] at hs
        cases hs
      | some t => exact h.shown hset (h.username ▸ hset.wired.get_eq hs) hcs

/-- Adding somebody. -/
theorem addContact_updates (hset : Setting cfg w₀) {s : Sid} {me : Str} (hme : w₀.username s = some (.str me))
    (f : Frame) : Updates w₀ (addContact cfg s (.str me) f) := by
  have hrefuse : ∀ code message, Updates w₀ (refuse s code message) := fun _ _ =>
    updates_of_uses (Footprint.refuse fun g hg => isContacts_error hg)
  unfold addContact
  rw [hset.stored]
  simp only [Bool.not_true, Bool.false_eq_true, if_false]
  split
  · split
    · exact hrefuse _ _
    · split
      · exact hrefuse _ _
      · split
        · exact hrefuse _ _
        · refine Keeps.bind (updates_of_uses (Footprint.quiet_bind rfl fun _ => trivial)) fun known _ => ?_
          split
          · exact hrefuse _ _
          next name _ _ _ _ _ _ =>
            intro w h
            refine ⟨?_, fun _ _ => trivial⟩
            rw [orEmpty_str]
            show Abreast w₀ (RouterM.exec _ w).2
            rw [RouterM.exec_bind, RouterM.exec_call]
            simp only [exec]
            have hme' : w.username s = some (.str me) := h.username ▸ hme
            cases hadd : SqliteContacts.add w (.str me) (.str name) with
            | error e => exact h
            | ok res =>
              obtain ⟨b, w₁⟩ := res
              simp only [commit]
              rcases SqliteContacts.add_cases hadd with ⟨-, rfl⟩ | ⟨o, c, ho, -, -, -, -, rfl⟩
              · exact h.shown hset hme' fun _ _ => rfl
              · obtain rfl := Option.some.inj (Sql.text_str_ok.mp ho).2
                exact h.shown hset hme' fun u hu => contactsFor_add hu
  · exact hrefuse _ _

/-- Removing somebody. -/
theorem removeContact_updates (hset : Setting cfg w₀) {s : Sid} {me : Str} (hme : w₀.username s = some (.str me))
    (f : Frame) : Updates w₀ (removeContact cfg s (.str me) f) := by
  intro w h
  refine ⟨?_, fun _ _ => trivial⟩
  have hme' : w.username s = some (.str me) := h.username ▸ hme
  have hsame : Abreast w₀ ((sendContacts cfg s).exec w).2 := h.shown hset hme' fun _ _ => rfl
  unfold removeContact
  rw [hset.stored]
  simp only [Bool.not_true, Bool.false_eq_true, if_false]
  unfold forgetContact
  split
  next name _ =>
    split
    · exact hsame
    · rw [orEmpty_str]
      show Abreast w₀ (RouterM.exec _ w).2
      rw [RouterM.exec_bind, RouterM.exec_call]
      simp only [exec]
      cases hremove : SqliteContacts.remove w (.str me) (.str name) with
      | error e => exact h
      | ok w₁ =>
        obtain ⟨o, c, ho, hc, rfl⟩ := SqliteContacts.remove_cases hremove
        obtain rfl := (Sql.text_str_ok.mp ho).2
        obtain rfl := (Sql.text_str_ok.mp hc).2
        exact h.shown hset hme' fun u hu => contactsFor_remove hu
  · exact hsame

/-! ## Requests -/

theorem refuse_updates (s : Sid) (code message : Str) : Updates w₀ (refuse s code message) :=
  updates_of_uses (Footprint.refuse fun _ hg => isContacts_error hg)

/-- What a message does besides: it stores, queues and hands over. -/
theorem recorded_hush {me : Json} {f : Frame} {o : Op} (h : Recorded me f o) : hush.writes o := by
  cases h <;> simp [hush, Op.writesTo]

omit [Runtime] in
theorem relayed_hush {me : Json} {f g : Frame} (h : Relayed me f g) : isContacts g = false := by
  simp [isContacts, h.type]

omit [Runtime] in
theorem queued_hush (name : Str) (id : Json) : hush.writes (.messagesQueueFor name id) := by
  simp [hush, Op.writesTo]

theorem toUser_updates (hset : Setting cfg w₀) (s : Sid) (me target : Str) {f : Frame} (ht : f.target = .str target) :
    Updates w₀ (toUser cfg s (.str me) target (outgoing (.str me) f)) := by
  unfold toUser
  refine Keeps.bind (updates_of_uses (Footprint.quiet_bind rfl fun _ => trivial)) fun recipient _ => ?_
  refine Keeps.bind (Φ := fun _ => True) ?_ fun ok _ => ?_
  · unfold reachable
    refine updates_of_uses ?_
    split
    · trivial
    · split
      · trivial
      · exact Footprint.quiet_bind rfl fun _ => trivial
  split
  · exact Keeps.bind (refuse_updates _ _ _) fun _ _ => keeps_pure trivial
  rw [orEmpty_str]
  refine Keeps.bind (updates_of_uses Footprint.lift) fun conversation _ => ?_
  refine Keeps.bind (Φ := fun _ => True) ?_ fun _ _ => ?_
  · unfold record
    refine updates_of_uses ?_
    split
    · trivial
    · have hwrite := @Recorded.plain _ (.str me) f conversation _ ht
      exact ⟨Footprint.write (recorded_hush hwrite), fun _ => trivial⟩
  refine Keeps.bind (noteContact_updates hset me target) fun _ _ => ?_
  refine Keeps.bind (noteContact_updates hset target me) fun _ _ => ?_
  refine Keeps.bind (updates_of_uses ?_) fun _ _ => keeps_pure trivial
  have hcopy : Relayed (.str me) f (outgoing (.str me) f) := ⟨rfl, rfl, rfl, rfl, rfl⟩
  exact handOver_uses recipient target _ (fun _ => relayed_hush hcopy) (queued_hush target _)

theorem message_updates (hset : Setting cfg w₀) (s : Sid) (me : Str) (f : Frame) :
    Updates w₀ (message cfg s (.str me) f) := by
  unfold message
  split
  · exact refuse_updates _ _ _
  split
  next target ht =>
    refine Keeps.bind (Φ := fun _ => True) ?_ fun ok _ => updates_of_uses ?_
    · unfold deliver
      split
      next hroom =>
        exact updates_of_uses (toRoom_uses cfg s (.str me) f ht hroom (fun _ hg => isContacts_error hg)
          (fun _ _ h => relayed_hush h) (fun _ h => recorded_hush h) fun name => queued_hush name _)
      · exact toUser_updates hset s me target ht
    · split
      · exact Footprint.send_frame fun _ _ => rfl
      · trivial
  · exact keeps_raise _

/-- **Every request but a LOGIN.** -/
theorem handle_updates (hset : Setting cfg w₀) (s : Sid) {f : Frame} (hl : f.type ≠ .login) :
    Updates w₀ (handle cfg s f) := by
  -- the types whose footprint has nothing to do with contacts
  have hother : (∀ o, f.type.writes o = true → hush.writes o) →
      (∀ t ∈ MessageType.error :: f.type.yields, t ≠ .contacts ∧ t ≠ .loginOk) → Updates w₀ (handle cfg s f) := by
    intro hw hy
    refine updates_of_uses (Footprint.weaken (handle_uses cfg s f) (fun t g hg => ?_) hw)
    simpa [hush, isContacts] using hy _ hg
  -- the requests that may change a list, from somebody logged in
  have hname : f.type = .msg ∨ f.type = .addContact ∨ f.type = .removeContact →
      (∀ me, w₀.username s = some (.str me) → Updates w₀ (dispatch cfg s (.str me) f)) → Updates w₀ (handle cfg s f) := by
    intro ht hd w h
    have hp : f.type ≠ .ping ∧ f.type ≠ .register := by
      rcases ht with ht | ht | ht <;> simp [ht]
    refine ⟨?_, fun _ _ => trivial⟩
    show Abreast w₀ ((handle cfg s f).exec w).2
    cases hu : w.username s with
    | none =>
      rw [handle_nobody cfg s hp.1 hp.2 hl hu]
      exact (refuse_updates _ _ _ w h).1
    | some me =>
      rw [handle_dispatch cfg s hp.1 hp.2 hl hu]
      have hme : w₀.username s = some me := h.username ▸ hu
      obtain ⟨name, rfl⟩ := hset.strung s me hme
      exact (hd name hme w h).1
  cases ht : f.type with
  | msg =>
    refine hname (.inl ht) fun me _ => ?_
    unfold dispatch
    rw [ht]
    exact message_updates hset s me f
  | addContact =>
    refine hname (.inr (.inl ht)) fun me hme => ?_
    unfold dispatch
    rw [ht]
    exact addContact_updates hset hme f
  | removeContact =>
    refine hname (.inr (.inr ht)) fun me hme => ?_
    unfold dispatch
    rw [ht]
    exact removeContact_updates hset hme f
  | login => exact absurd ht hl
  | _ =>
    refine hother (fun o ho => ?_) (by rw [ht]; decide)
    rw [ht] at ho
    cases o <;> simp [MessageType.writes] at ho <;> simp [hush, Op.writesTo]

/-! ## Logging in -/

/-- The LOGIN_OK. -/
theorem greet_exec (s : Sid) (henc : u.encodable = true) {names states : List Json}
    (hnames : SessionRegistry.usernames w = .ok names) (hlist : (contactStates cfg (.str u)).exec w = (.ok states, w)) :
    ∃ (g : Frame) (rooms : List Str), g.type = .loginOk ∧
      g.data = ([("user", .str u), ("roster", .list (names.filter fun v => !v.pyEq (.str u))),
        ("contacts", .list states), ("rooms", .list (rooms.map .str))] : Dict) ∧
      (greet cfg s (.str u)).exec w =
        (.ok (), { w with uuids := w.uuids + 1, reads := w.reads + 1,
                          sent := w.sent ++ [⟨s, w.username s, g⟩] }) := by
  have hrooms : ∃ rooms, RouterM.exec (roomsOf (.str u)) w = (.ok rooms, w) := by
    have htext : Sql.text (.str u) = .ok (some u) := Sql.text_of_encodable henc
    rw [RouterM.exec_call]
    simp [exec, SqliteRooms.roomsOf, htext, Bind.bind, Except.bind, Pure.pure, Except.pure]
  obtain ⟨rooms, hrooms⟩ := hrooms
  obtain ⟨g, hg, hdata, hsend⟩ := send_frame_exec s .loginOk .null (.str u)
    [("user", .str u), ("roster", .list (names.filter fun v => !v.pyEq (.str u))),
      ("contacts", .list states), ("rooms", .list (rooms.map .str))] w
  refine ⟨g, rooms, hg, hdata, ?_⟩
  unfold greet
  rw [RouterM.exec_bind, RouterM.exec_call]
  simp only [exec, hnames]
  rw [RouterM.exec_bind, hlist]
  dsimp only
  rw [RouterM.exec_bind, hrooms]
  exact hsend

/-- What a LOGIN that is let in sends. -/
theorem login_shows (hset : Setting cfg w) {s : Sid} {f : Frame} (hin : LetIn w s f) (hname : f.get "user" = .str u) :
    ∃ d ds, ((login cfg s f).exec w).2.sent = w.sent ++ d :: ds ∧ d.session = s ∧ isContacts d.frame = true ∧
      ShowsContacts (contactsFor w u) d.frame ∧ ∀ x ∈ ds, isContacts x.frame = false := by
  -- the world in which the user is here
  let w₁ : World := { w with online := w.online ++ [(.str u, s)],
                             username := Function.update w.username s (some (.str u)) }
  have hwired : Wired w₁ := hset.wired.login hin (by rw [hname]) (by rw [hname]) rfl
  have hstrung : Strung w₁ := by
    intro t v ht
    rcases update_some ht with ⟨-, hv⟩ | ⟨-, hv⟩
    · exact ⟨u, (Option.some.inj hv).symm⟩
    · exact hset.strung t v hv
  have hs : w₁.username s = some (.str u) := Function.update_self ..
  have henc : u.encodable = true := (⟨hset.stored, hwired, hstrung⟩ : Setting cfg w₁).encodable hs
  obtain ⟨names, hnames⟩ := hstrung.usernames hwired.online
  obtain ⟨g, rooms, hg, hdata, hgreet⟩ := greet_exec s henc hnames (contactStates_exec hset.stored henc hnames)
  have hkind : isContacts g = true := by simp [isContacts, hg]
  have hshows : ShowsContacts (contactsFor w u) g := by
    refine ⟨fun name => names.contains (.str name), ?_⟩
    rw [Frame.get, hdata]
    rfl
  have hrest : (announce (.str u) "ONLINE" >>= fun _ => flushPending cfg s (.str u)).Uses hush.allows := by
    refine Uses.bind (announce_uses fun t g hg => by simp [hush, isContacts, hg]) fun _ => ?_
    refine flushPending_uses cfg s _ (fun g hg => by simp [hush, isContacts, hg]) ?_
    simp [hush, Op.writesTo]
  have hsent : ∀ o, hush.writes o → Field.sent ∉ o.writesTo := fun o ho => ho .sent (by simp)
  obtain ⟨ds, hds, hall⟩ := exec_sends hrest hsent
    { w₁ with uuids := w.uuids + 1, reads := w.reads + 1, sent := w.sent ++ [⟨s, w₁.username s, g⟩] }
  obtain ⟨-, hrun⟩ := (login_exec cfg s f w).resolve_left fun h => h.1 hin
  refine ⟨⟨s, w₁.username s, g⟩, ds, ?_, rfl, hkind, hshows, fun x hx => hall x hx⟩
  rw [hrun, hname]
  unfold welcome
  rw [RouterM.exec_bind, RouterM.exec_call]
  show (RouterM.exec (greet cfg s (.str u) >>= fun _ => announce (.str u) "ONLINE" >>= fun _ =>
    flushPending cfg s (.str u)) w₁).2.sent = _
  rw [RouterM.exec_bind, hgreet]
  refine hds.trans ?_
  simp

/-! ## Steps -/

variable {i : Input} {tr : List Step} {s : Sid} {f : Frame}

/-- If the input is a LOGIN that is let in, it names its user by a string. -/
def ByString (w : World) (i : Input) : Prop :=
  ∀ s f, i = .frame s f → f.type = .login → LetIn w s f → ∃ name, f.get "user" = .str name

theorem step_strung (h : Strung w) (hi : ByString w i) : Strung (Step.of cfg w i).after := by
  intro t v ht
  rcases step_username cfg w i ht with hold | ⟨f, rfl, hlog, hin, rfl⟩
  · exact h t v hold
  · exact hi t f rfl hlog hin

/-- What the step does for somebody who is here after it. -/
def Serves (st : Step) (t : Sid) (u : Str) : Prop :=
  Informs isContacts (fun w g => ShowsContacts (contactsFor w u) g) st t ∨
    st.before.username t ≠ none ∧ Silent isContacts st t ∧ contactsFor st.after u = contactsFor st.before u

/-- A LOGIN that does not get in is answered by an ERROR at most. -/
theorem login_turnedAway (hlog : f.type = .login) (hnot : ¬ LetIn w s f) :
    ∀ d ∈ (Step.of cfg w (.frame s f)).out, d.frame.type = .error := by
  have hafter : (Step.of cfg w (.frame s f)).after = ((login cfg s f).exec w).2 :=
    congrArg (fun q => (RouterM.exec q w).2) (handle_login cfg s hlog)
  obtain ⟨-, hrun⟩ := (login_exec cfg s f w).resolve_right fun h => hnot h.1
  have hprog : ∃ p : RouterM Unit, p.Uses (Footprint.allows { sends := fun _ g => g.type = .error }) ∧
      ((login cfg s f).exec w).2 = (p.exec w).2 := by
    rcases hrun with ⟨e, hrun⟩ | ⟨code, message, hrun⟩
    · exact ⟨.pure (), trivial, by rw [hrun]; rfl⟩
    · exact ⟨refuse s code message, Footprint.refuse fun _ hg => hg, by rw [hrun]⟩
  obtain ⟨p, hp, hsame⟩ := hprog
  exact @Step.out_of_uses _ cfg w (.frame s f) _ _ (hafter.trans hsame) hp nofun

/-- A LOGIN shows its user their list, and nobody else anything. -/
theorem login_serves (hset : Setting cfg w) (hi : ByString w (.frame s f)) (hlog : f.type = .login)
    (ht : (Step.of cfg w (.frame s f)).after.username t = some (.str u)) :
    Serves (Step.of cfg w (.frame s f)) t u := by
  have hafter : (Step.of cfg w (.frame s f)).after = ((login cfg s f).exec w).2 :=
    congrArg (fun q => (RouterM.exec q w).2) (handle_login cfg s hlog)
  have hcontacts : (Step.of cfg w (.frame s f)).after.contacts = w.contacts :=
    handle_same cfg s f w (x := .contacts) (by simp) (by simp [hlog, MessageType.fields])
  have hkept : contactsFor (Step.of cfg w (.frame s f)).after u = contactsFor w u := by
    unfold contactsFor
    rw [hcontacts]
  have hbefore : w.username t = some (.str u) ∨ t = s ∧ LetIn w s f ∧ .str u = f.get "user" := by
    rcases step_username cfg w _ ht with hold | ⟨f', hf, -, hin, hu⟩
    · exact .inl hold
    · obtain ⟨rfl, rfl⟩ := Input.frame.inj hf
      exact .inr ⟨rfl, hin, hu⟩
  rcases login_exec cfg s f w with ⟨hnot, -⟩ | ⟨hin, -⟩
  · have herror := @login_turnedAway w _ cfg s f hlog hnot
    refine .inr ⟨?_, fun d hd _ => isContacts_error (herror d hd), hkept⟩
    have hhere := hbefore.resolve_right fun h => hnot h.2.1
    simp [Step.of, hhere]
  · obtain ⟨name, hname⟩ := hi s f rfl hlog hin
    obtain ⟨d, ds, hsent, hs, hkind, hshows, hrest⟩ := login_shows hset hin hname
    have hout : (Step.of cfg w (.frame s f)).out = d :: ds := by
      refine List.append_cancel_left ((Step.sent_of cfg w (.frame s f)).symm.trans ?_)
      rw [hafter]
      exact hsent
    by_cases hts : t = s
    · -- the one who logs in
      subst hts
      refine .inl (informs_of_all ⟨d, by rw [hout]; exact List.mem_cons_self .., hs, hkind⟩ fun x hx _ hxk => ?_)
      rw [hout] at hx
      rcases List.mem_cons.mp hx with rfl | hx
      · have hu : name = u := by
          rcases hbefore with hold | ⟨-, -, hu⟩
          · rw [hin.nobody] at hold
            cases hold
          · exact Json.str.inj (hname.symm.trans hu.symm)
        show ShowsContacts (contactsFor (Step.of cfg w (.frame t f)).after u) x.frame
        rw [hkept, ← hu]
        exact hshows
      · rw [hrest x hx] at hxk
        cases hxk
    · have hhere := hbefore.resolve_right fun h => hts h.1
      refine .inr ⟨by simp [Step.of, hhere], fun x hx hxs => ?_, hkept⟩
      rw [hout] at hx
      rcases List.mem_cons.mp hx with rfl | hx
      · exact absurd (hxs.symm.trans hs) hts
      · exact hrest x hx

/-- **Every step** keeps everybody abreast of their list. -/
theorem step_serves (hset : Setting cfg w) (hi : ByString w i)
    (ht : (Step.of cfg w i).after.username t = some (.str u)) : Serves (Step.of cfg w i) t u := by
  cases i with
  | hangup s =>
    have hcontacts : (Step.of cfg w (.hangup s)).after.contacts = w.contacts :=
      onDisconnect_same s w (x := .contacts) (by simp) (by simp) (by simp)
    refine .inr ⟨?_, fun d hd _ => ?_, ?_⟩
    · rcases step_username cfg w _ ht with hold | ⟨f, hf, -⟩
      · simp [Step.of, hold]
      · cases hf
    · simp [isContacts, Step.out_hangup hd]
    · show contactsFor (Step.of cfg w (.hangup s)).after u = contactsFor w u
      unfold contactsFor
      rw [hcontacts]
  | frame s f =>
    by_cases hlog : f.type = .login
    · exact login_serves hset hi hlog ht
    · have hhere : w.username t = some (.str u) := by
        rcases step_username cfg w _ ht with hold | ⟨f', hf, hlog', -⟩
        · exact hold
        · obtain ⟨-, rfl⟩ := Input.frame.inj hf
          exact absurd hlog' hlog
      have habreast : Abreast w (Step.of cfg w (.frame s f)).after := (handle_updates hset s hlog w (.refl w)).1
      obtain ⟨ds, hds, htold⟩ := habreast.sent
      obtain rfl : (Step.of cfg w (.frame s f)).out = ds :=
        List.append_cancel_left ((Step.sent_of cfg w _).symm.trans hds)
      rcases htold t u hhere with hshown | ⟨hnone, hkept⟩
      · exact .inl hshown
      · exact .inr ⟨by simp [Step.of, hhere], hnone, hkept⟩

/-- **Contact lists on screen match the stored ones**: in every run in which whoever
is let in is named by a string, everybody online has been sent a LOGIN_OK or a
CONTACTS since they logged in, and the last of them shows `contacts.of` their name. -/
theorem Run.contacts_shown {uuid : Nat → Str} {clock : Nat → Int} {salt : Nat → List UInt8}
    (hc : cfg.contacts = true) (h : Run cfg (World.start uuid clock salt) tr w)
    (hi : ∀ st ∈ tr, ByString st.before st.input) (v : Json) (t : Sid) (hv : (v, t) ∈ w.online) :
    ∃ d names, latest (fun d : Delivery => isContacts d.frame) (heardOn t tr) = some d ∧
      SqliteContacts.of w v = .ok names ∧ ShowsContacts names d.frame := by
  have hall : Strung w ∧ ∀ u, Informed isContacts u tr w ∧
      UpToDate isContacts (fun w g => ShowsContacts (contactsFor w u) g) u tr w := by
    clear hv
    -- Of every name: whoever is connected under it has been sent a list, and the last one is up to date.
    induction h with
    | nil => exact ⟨nofun, fun u => ⟨nofun, nofun⟩⟩
    | @snoc tr w h i ih =>
      have hstart := wired_start uuid clock salt
      obtain ⟨hstrung, hup⟩ := ih fun st hst => hi st (List.mem_append_left _ hst)
      have hi : ByString w i := hi _ (List.mem_append_right _ (List.mem_singleton.mpr rfl))
      have hset : Setting cfg w := ⟨hc, h.wired hstart, hstrung⟩
      have hserves : ∀ t u, SessionRegistry.get (Step.of cfg w i).after (.str u) = some t →
          Serves (Step.of cfg w i) t u :=
        fun t u hget => step_serves hset hi ((step_wired hset.wired cfg i).get_eq hget)
      refine ⟨step_strung hstrung hi, fun u => ⟨?_, ?_⟩⟩
      · exact informed_step hset.wired (hup u).1 fun t hget => (hserves t u hget).imp_right fun hs => hs.1
      · refine upToDate_step h hset.wired (hup u).2 fun t hget => (hserves t u hget).imp_right fun hs => ?_
        refine ⟨hs.2.1, .inl fun g hg => ?_⟩
        rw [hs.2.2]
        exact hg
  -- At the end, for the one who is asked about.
  obtain ⟨hstrung, hup⟩ := hall
  have hwired := h.wired (wired_start uuid clock salt)
  have hin := hwired.online _ hv
  obtain ⟨u, rfl⟩ := hstrung t v hin
  have hget := hwired.get_of_username hin
  obtain ⟨d, hd⟩ := (hup u).1 t hget
  have henc := (⟨hc, hwired, hstrung⟩ : Setting cfg w).encodable hin
  exact ⟨d, contactsFor w u, hd, contactsOf_eq henc w, (hup u).2 t hget d hd⟩

end Contacts

namespace Sample

/-- `a` is here and writes to `b`. -/
def acquainted : List Input := [register "a", register "b", login 0 "a", msg 0 "b" "m"]

/-- In between, somebody else logs in as the number 1. -/
def numbered : List Input :=
  [register "a", register "b", register "1", login 0 "a",
    .frame 1 (ask .login [("user", .int 1), ("pass_hash", .str "p")]), msg 0 "b" "m"]

end Sample

section Concrete

open Sample

attribute [local instance] sampleRuntime

/-- `sorted` raises in the presence of both, after `b` has become a contact of `a`. -/
theorem numbered_unshown :
    ∃ tr w v t, Run chatServer fresh tr w ∧ (v, t) ∈ w.online ∧
      ¬ ∃ d names, latest (fun d : Delivery => isContacts d.frame) (heardOn t tr) = some d ∧
        SqliteContacts.of w v = .ok names ∧ ShowsContacts names d.frame := by
  refine ⟨_, _, .str "a", 0, Run.of_inputs chatServer fresh numbered, by decide +kernel, fun h => ?_⟩
  obtain ⟨d, names, hd, hnames, online, hshows⟩ := h
  have hlatest : (latest (fun d : Delivery => isContacts d.frame) (heardOn 0 (trace chatServer fresh numbered))).map
      (fun d => d.frame.get "contacts") = some (.list []) := by decide +kernel
  have hstored : SqliteContacts.of (fresh.after chatServer numbered) (.str "a") = .ok ["b"] := by decide +kernel
  rw [hd] at hlatest
  obtain rfl := Except.ok.inj (hnames.symm.trans hstored)
  have hempty := hshows.symm.trans (Option.some.inj hlatest)
  cases hempty

/-- Without them `a` is shown the new contact. -/
theorem acquainted_shown :
    ∃ d names, latest (fun d : Delivery => isContacts d.frame) (heardOn 0 (trace chatServer fresh acquainted)) = some d ∧
      SqliteContacts.of (fresh.after chatServer acquainted) (.str "a") = .ok names ∧ ShowsContacts names d.frame := by
  refine Run.contacts_shown rfl (Run.of_inputs chatServer fresh acquainted) (fun st hst => ?_) (.str "a") 0
    (by decide +kernel)
  intro s f hi ht _
  have hin := mem_trace hst
  rw [hi] at hin
  simp only [acquainted, List.mem_cons, List.not_mem_nil, or_false] at hin
  rcases hin with hin | hin | hin | hin <;> obtain ⟨rfl, rfl⟩ := Input.frame.inj hin
  case inr.inr.inl => exact ⟨"a", rfl⟩
  all_goals cases ht

end Concrete

end Ciphertext
