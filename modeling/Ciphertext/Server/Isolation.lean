import Ciphertext.Server.Mirroring

/-!
# Nobody learns anything of other people's envelopes

Two runs on the same input, except that the envelope maps of messages differ in
the entries of people other than `r`, stay twins for `r` (`Server/Views.lean`)
from one call to the next. So `r` is sent the same frames in both (`Run.isolated`).

`Mirroring` has the handlers that look at no message. Here are the other three. What a
stored message amounts to for `r` is its `Glimpse`, and a page or a flush is the same
for `r` if the glimpses are (`entries_glimpses`, `forEach_handRow_mirrors`); for
anybody else it may differ, but then `r` does not see it (`Twin.hidden`). A MSG is
recorded with two maps that agree for `r`, and fanned out member by member
(`fanOut_twin`, `toRoom_twin`): the frame for `r` is the same, and another member may be
sent another one, or none.

Assumed of `json` is what the envelope maps need: the text of a map is not empty, can
be encoded and reads back as the map (`Renders`).
-/

namespace Ciphertext

open Prog MessageRouter

section Runs

variable [Runtime] {r : Str} {cfg : Config} {s : Sid} {me : Json}

/-! ## Reading messages -/

/-- A reader whose name is no string is looked up like nobody. -/
theorem contentFor_unnamed {u : Json} (h : u.asStr = none) (row : Row) :
    contentFor row u = contentFor row .null := by
  unfold contentFor
  simp only [h]
  rfl

/-- What a connection of `r` can be shown of a message is what `r` may read. -/
theorem historyEntry_glimpse {row row' : Row} (h : row.glimpse r = row'.glimpse r) {u : Json}
    (hu : isUser r u = true) : historyEntry row u = historyEntry row' u := by
  simp only [Row.glimpse, Glimpse.mk.injEq] at h
  obtain ⟨hid, -, hsender, hrec, hts, hdel, hread, hcontent, hunnamed⟩ := h
  have hcont : contentFor row u = contentFor row' u := by
    cases hs : u.asStr with
    | none => rw [contentFor_unnamed hs, contentFor_unnamed hs, hunnamed]
    | some n =>
      have hun : u = .str n := by
        cases u <;> simp_all [Json.asStr]
      subst hun
      have ht : Sql.text (.str n) = .ok (some r) := by
        cases he : Sql.text (.str n) with
        | error e => simp [isUser, he, Except.toOption] at hu
        | ok t => simpa [isUser, he, Except.toOption] using hu
      obtain ⟨-, hn⟩ := Sql.text_str_ok.mp ht
      rw [← Option.some.inj hn]
      exact hcontent
  have hany : ∀ o : Option Int, o.any (· ≠ 0) = (o.map fun x => decide (x ≠ 0)).any id := by
    intro o
    cases o <;> rfl
  have hentry : ∀ b n, entryOf row b n = entryOf row' b n := by
    intro b n
    unfold entryOf
    rw [hid, hsender, hrec, hts, hany row.readAt, hany row.deliveredAt, hread, hdel,
      ← hany row'.readAt, ← hany row'.deliveredAt]
  unfold historyEntry
  rw [hcont]
  simp only [hentry]

/-- Apart from its content, `r` is flushed the same frame. -/
theorem flushed_glimpse {row row' : Row} (h : row.glimpse r = row'.glimpse r) (entry : Dict) :
    flushed row entry = flushed row' entry := by
  simp only [Row.glimpse, Glimpse.mk.injEq] at h
  obtain ⟨hid, -, hsender, hrec, hts, -⟩ := h
  unfold flushed
  rw [hid, hsender, hrec, hts]

/-- Messages that look the same to `r` do so one by one. -/
theorem glimpses_cons {row : Row} {rows rows' : List Row}
    (h : glimpses r (row :: rows) = glimpses r rows') :
    ∃ row' rest, rows' = row' :: rest ∧ row.glimpse r = row'.glimpse r ∧
      glimpses r rows = glimpses r rest := by
  cases rows' with
  | nil => cases h
  | cons row' rest =>
    obtain ⟨h₀, hrest⟩ := List.cons.inj h
    exact ⟨row', rest, rfl, h₀, hrest⟩

/-- What waited for `r` is handed over in the same order, and what cannot be shown to `r`
stops it at the same row. -/
theorem forEach_handRow_mirrors {u : Json} (hu : isUser r u = true) {rows rows' : List Row}
    (h : glimpses r rows = glimpses r rows') :
    Mirrors r (fun _ _ => True) (forEach rows (handRow s u)) (forEach rows' (handRow s u)) := by
  induction rows generalizing rows' with
  | nil =>
    have hnil : rows' = [] := by simpa [glimpses] using h.symm
    subst hnil
    exact mirrors_pure trivial
  | cons row rows ih =>
    obtain ⟨row', rest, rfl, h₀, hrest⟩ := glimpses_cons h
    refine Mirrors.bind (A := fun _ _ => True) ?_ fun _ _ _ => ih hrest
    unfold handRow
    rw [historyEntry_glimpse h₀ hu]
    refine Mirrors.bind_eq mirrors_lift fun e => ?_
    cases e with
    | none => exact mirrors_pure trivial
    | some entry =>
      refine mirrors_send ?_
      rw [flushed_glimpse h₀]

/-- A page of such messages has the same entries for `r`. -/
theorem entries_glimpses {u : Json} (hu : isUser r u = true) {rows rows' : List Row}
    (h : glimpses r rows = glimpses r rows') : entries rows u = entries rows' u := by
  have hmap : rows.map (fun row => historyEntry row u) = rows'.map fun row => historyEntry row u := by
    induction rows generalizing rows' with
    | nil =>
      have hnil : rows' = [] := by simpa [glimpses] using h.symm
      rw [hnil]
    | cons row rows ih =>
      obtain ⟨row', rest, rfl, h₀, hrest⟩ := glimpses_cons h
      rw [List.map_cons, List.map_cons, historyEntry_glimpse h₀ hu, ih hrest]
  have hM : ∀ rows : List Row, rows.mapM (fun row => historyEntry row u) =
      (rows.map fun row => historyEntry row u).mapM id := by
    intro rows
    rw [List.mapM_map]
    rfl
  unfold entries
  rw [hM rows, hM rows', hmap]

/-! ## One side alone -/

/-- It does not matter which of the two is looked at first. -/
theorem Twin.symm {w w' : World} (h : Twin r w w') : Twin r w' w :=
  ⟨h.core.symm, h.messages.symm, fun id => (h.pending id).symm, h.view.symm, h.clock', h.clock⟩

/-- The same people are logged in. -/
theorem Twin.username {w w' : World} (h : Twin r w w') : w.username = w'.username :=
  congrArg Core.username h.core

omit [Runtime] in
/-- The calls that only say something to one connection. -/
def speaksTo (s : Sid) (o : Op) : Prop := o = .newId ∨ o = .nowMs ∨ ∃ g, o = .send s g

/-- What is said to a connection of somebody else does not concern `r`. -/
theorem Twin.hidden {α : Type} {w w' : World} (h : Twin r w w') {p : RouterM α}
    (hp : p.Uses (speaksTo s)) (hs : visible r (w.username s) = false) : Twin r (p.exec w).2 w' := by
  refine (Uses.keeps (I := fun w₁ => Twin r w₁ w' ∧ w₁.username = w.username) hp ?_ w ⟨h, rfl⟩).1.1
  intro o ho w₁ hw₁
  obtain ⟨hw₁, hu⟩ := hw₁
  rcases ho with rfl | rfl | ⟨g, rfl⟩
  · exact ⟨⟨hw₁.core, hw₁.messages, hw₁.pending, hw₁.view, hw₁.clock, hw₁.clock'⟩, hu⟩
  · exact ⟨⟨hw₁.core, hw₁.messages, hw₁.pending, hw₁.view, hw₁.clock, hw₁.clock'⟩, hu⟩
  · refine ⟨⟨hw₁.core, hw₁.messages, hw₁.pending, ?_, hw₁.clock, hw₁.clock'⟩, hu⟩
    refine Eq.trans ?_ hw₁.view
    simp [exec, Ciphertext.view, World.push, List.filter_append, hu, hs]

/-- The same on both sides. -/
theorem Twin.hidden_both {α β : Type} {w w' : World} (h : Twin r w w') {p : RouterM α} {q : RouterM β}
    (hp : p.Uses (speaksTo s)) (hq : q.Uses (speaksTo s)) (hs : visible r (w.username s) = false) :
    Twin r (p.exec w).2 (q.exec w').2 := by
  have hs' : visible r (w'.username s) = false := h.username ▸ hs
  have hright : Twin r w (q.exec w').2 := (h.symm.hidden hq hs').symm
  exact hright.hidden hp hs

omit [Runtime] in
/-- A frame is made and sent. -/
theorem speaksTo_frame {type : MessageType} {sender target : Json} {data : Dict} :
    (frame type sender target data >>= fun g => send s g).Uses (speaksTo s) :=
  ⟨.inl rfl, fun _ => ⟨.inr (.inl rfl), fun _ => ⟨.inr (.inr ⟨_, rfl⟩), fun _ => trivial⟩⟩⟩

omit [Runtime] in
/-- A computation that may raise, and what follows it. -/
theorem speaksTo_lift {α β : Type} {e : Except PyErr α} {k : α → RouterM β}
    (h : ∀ a, (k a).Uses (speaksTo s)) : (lift e >>= k).Uses (speaksTo s) := by
  cases e with
  | ok a => exact h a
  | error e => trivial

/-! ## Logging in -/

/-- What waited is handed over to `r` in both, or to somebody who is not `r`. -/
theorem flushPending_twin {w w' : World} (h : Twin r w w') {u : Json}
    (hu : w.username s = some u) :
    Twin r ((flushPending cfg s u).exec w).2 ((flushPending cfg s u).exec w').2 := by
  unfold flushPending
  split
  · exact h
  refine (Mirrors.run_bind (C := fun _ _ => True) (mirrors_flush u) h (fun _ _ => trivial) ?_).1
  intro rows rows' w₁ w₁' hrun _ hrows htwin
  refine ⟨?_, trivial⟩
  have hname : w₁.username = w.username := by
    have hsame : (exec (.messagesFlush u) w).2.username = w.username :=
      exec_same (x := .username) _ w (by simp [Op.writesTo])
    rw [RouterM.exec_call] at hrun
    rw [hrun] at hsame
    exact hsame
  by_cases hr : isUser r u = true
  · exact (forEach_handRow_mirrors (s := s) hr (hrows hr) w₁ w₁' htwin).1
  · have htells : ∀ rows : List Row, (forEach rows (handRow s u)).Uses (speaksTo s) := by
      intro rows
      refine uses_forEach fun row _ => ?_
      unfold handRow
      refine speaksTo_lift fun e => ?_
      cases e with
      | none => trivial
      | some entry => exact ⟨.inr (.inr ⟨_, rfl⟩), fun _ => trivial⟩
    refine htwin.hidden_both (htells rows) (htells rows') ?_
    rw [hname, hu]
    simpa [visible] using hr

/-- LOGIN_OK, the contacts, and what waited. -/
theorem welcome_twin {w w' : World} (h : Twin r w w') (u : Json) :
    Twin r ((welcome cfg s u).exec w).2 ((welcome cfg s u).exec w').2 := by
  have hprog : welcome cfg s u = setUsername s (some u) >>= fun _ =>
      (greet cfg s u >>= fun _ => announce u "ONLINE") >>= fun _ => flushPending cfg s u := by
    unfold welcome
    refine congrArg _ (funext fun _ => ?_)
    exact (bind_assoc' _ _ _).symm
  have hgreet : Mirrors r (fun _ _ => True) (greet cfg s u >>= fun _ => announce u "ONLINE")
      (greet cfg s u >>= fun _ => announce u "ONLINE") := by
    refine Mirrors.bind (A := fun _ _ => True) ?_ fun _ _ _ => announce_mirrors _ _
    unfold greet
    refine Mirrors.bind_eq (mirrors_core rfl) fun online => ?_
    refine Mirrors.bind_eq (mirrors_uses (contactStates_core _ _)) fun contacts => ?_
    refine Mirrors.bind_eq (mirrors_core rfl) fun rooms => ?_
    exact mirrors_say (by simp) _ _ _ _
  rw [hprog]
  refine (Mirrors.run_bind (C := fun _ _ => True) (mirrors_core rfl) h (fun _ _ => trivial) ?_).1
  intro _ _ w₁ w₁' hset _ _ htwin
  refine Mirrors.run_bind (C := fun _ _ => True) hgreet htwin (fun _ _ => trivial) ?_
  intro _ _ w₂ w₂' hrun _ _ htwin
  refine ⟨flushPending_twin htwin ?_, trivial⟩
  -- Neither the greeting nor the announcement touches the name that was set.
  have haside : Aside w₁ ((greet cfg s u >>= fun _ => announce u "ONLINE").exec w₁).2 :=
    aside_of_uses w₁ (Uses.bind (greet_uses cfg s u fun g hg => by simp [hg]) fun _ =>
      announce_uses fun _ g hg => by simp [hg])
  rw [hrun] at haside
  rw [haside.username]
  rw [RouterM.exec_call] at hset
  have hw₁ : w₁.username = Function.update w.username s (some u) :=
    (congrArg (fun x => x.2.username) hset).symm
  rw [hw₁, Function.update_self]

/-- A LOGIN is refused in both, or welcomed in both. -/
theorem login_twin (cfg : Config) (s : Sid) (f : Frame) :
    Sim exec (Twin r) (fun _ _ => True) (login cfg s f) (login cfg s f) := by
  have hloose : ∀ {p : RouterM Unit}, Mirrors r (fun _ _ => True) p p →
      Sim exec (Twin r) (fun _ _ => True) p p := fun hp w w' h => ⟨(hp w w' h).1, trivial⟩
  unfold login
  refine Sim.bind (mirrors_core rfl) (fun _ _ => trivial) fun u u' hu => ?_
  subst hu
  cases u with
  | some u => exact hloose (mirrors_refuse _ _ _)
  | none =>
    dsimp only
    split
    · exact hloose (mirrors_refuse _ _ _)
    refine Sim.bind (mirrors_core rfl) (fun _ _ => trivial) fun b b' hb => ?_
    subst hb
    split
    · exact hloose (mirrors_refuse _ _ _)
    refine Sim.bind (mirrors_core rfl) (fun _ _ => trivial) fun b b' hb => ?_
    subst hb
    split
    · exact hloose (mirrors_refuse _ _ _)
    · exact fun w w' h => ⟨welcome_twin h _, trivial⟩

/-! ## Scrollback -/

/-- Whose conversation a HISTORY asks for, and whether it may. -/
theorem conversationOf_mirrors (s : Sid) (me : Json) (target : Str) :
    Mirrors r (· = ·) (conversationOf s me target) (conversationOf s me target) := by
  unfold conversationOf
  split
  · refine Mirrors.bind_eq (mirrors_core rfl) fun members => ?_
    split
    · exact Mirrors.bind (mirrors_refuse _ _ _) fun _ _ _ => mirrors_pure rfl
    · exact mirrors_pure rfl
  · exact Mirrors.bind_eq mirrors_lift fun _ => mirrors_pure rfl

/-- The page is for `r`, and then both sides have the same; or it is for
somebody else, and then it does not matter. -/
theorem sendPage_twin {w w' : World} (h : Twin r w w') (hu : w.username s = some me)
    (htruthy : me.truthy = true) (f : Frame) (target conversation : Str) :
    Twin r ((sendPage s me f target conversation).exec w).2
      ((sendPage s me f target conversation).exec w').2 := by
  have hor : orEmpty me = me := if_pos htruthy
  unfold sendPage
  refine (Mirrors.run_bind (C := fun _ _ => True) mirrors_lift h (fun _ _ => trivial) ?_).1
  intro before before' w₁ w₁' hrun₁ _ hbefore h₁
  subst hbefore
  refine Mirrors.run_bind (C := fun _ _ => True) mirrors_lift h₁ (fun _ _ => trivial) ?_
  intro limit limit' w₂ w₂' hrun₂ _ hlimit h₂
  subst hlimit
  refine Mirrors.run_bind (C := fun _ _ => True) (mirrors_history _ _ _) h₂ (fun _ _ => trivial) ?_
  intro rows rows' w₃ w₃' hrun₃ _ hrows h₃
  refine ⟨?_, trivial⟩
  have hlift : ∀ {α : Type} {e : Except PyErr α} {a : α} {w w' : World},
      (lift e).exec w = (.ok a, w') → w' = w := by
    intro α e a w w' hrun
    cases e with
    | ok b => exact (congrArg Prod.snd hrun).symm
    | error e => cases hrun
  rw [RouterM.exec_call] at hrun₃
  have hw₃ : w₃ = w₂ := (congrArg Prod.snd hrun₃).symm
  have hw : w₃ = w := hw₃.trans ((hlift hrun₂).trans (hlift hrun₁))
  rw [hor]
  by_cases hr : isUser r me = true
  · rw [entries_glimpses hr hrows]
    have hsim : Mirrors r (fun _ _ => True) (lift (entries rows' me) >>= fun messages =>
        frame .historyResult .null (.str target) [("room", .str target),
          ("messages", .list (messages.map .dict))] >>= fun g => send s g)
        (lift (entries rows' me) >>= fun messages =>
          frame .historyResult .null (.str target) [("room", .str target),
            ("messages", .list (messages.map .dict))] >>= fun g => send s g) :=
      Mirrors.bind_eq mirrors_lift fun _ => mirrors_say (by simp) _ _ _ _
    exact (hsim w₃ w₃' h₃).1
  · refine h₃.hidden_both (speaksTo_lift fun _ => speaksTo_frame) (speaksTo_lift fun _ => speaksTo_frame) ?_
    rw [hw, hu]
    simpa [visible] using hr

/-- The page has the same entries if it is `r` who asks; otherwise `r` does not see it. -/
theorem history_twin {w w' : World} (h : Twin r w w') (hu : w.username s = some me)
    (htruthy : me.truthy = true) (f : Frame) :
    Twin r ((history cfg s me f).exec w).2 ((history cfg s me f).exec w').2 := by
  unfold history
  split
  · exact (mirrors_refuse _ _ _ w w' h).1
  split
  · exact (mirrors_refuse _ _ _ w w' h).1
  refine (Mirrors.run_bind (C := fun _ _ => True) (conversationOf_mirrors s me _) h
    (fun _ _ => trivial) ?_).1
  intro c c' w₁ w₁' hrun _ hc h₁
  subst hc
  refine ⟨?_, trivial⟩
  cases c with
  | none => exact h₁
  | some c =>
    refine sendPage_twin h₁ ?_ htruthy f _ _
    rcases conversationOf_exec s me (asked f).pyStr w with
      ⟨e, he⟩ | ⟨w₂, g, he, -⟩ | ⟨c', he, -⟩ <;> rw [hrun] at he
    · cases he
    · cases he
    · have hw₁ : w₁ = w := congrArg Prod.snd he
      rw [hw₁]
      exact hu

/-! ## Delivery -/

/-- A message goes to a connection or into a queue, -/
theorem handOver_mirrors (recipient : Option Sid) (name : Str) (g : Frame) :
    Mirrors r (fun _ _ => True) (handOver recipient name g) (handOver recipient name g) := by
  unfold handOver
  split
  · exact mirrors_send rfl
  · exact mirrors_queueFor _ _

/-- and is recorded with the same content, -/
theorem record_mirrors (cfg : Config) (g : Frame) (conversation recipient : Str) :
    Mirrors r (fun _ _ => True) (record cfg g conversation recipient)
      (record cfg g conversation recipient) := by
  unfold record
  split
  · exact mirrors_pure trivial
  · exact mirrors_record (sameBody_refl _ _ _)

/-- so one for a single user is the same in both. -/
theorem toUser_mirrors (cfg : Config) (s : Sid) (me : Json) (target : Str) (g : Frame) :
    Mirrors r (· = ·) (toUser cfg s me target g) (toUser cfg s me target g) := by
  unfold toUser
  refine Mirrors.bind_eq (mirrors_core rfl) fun recipient => ?_
  have hreach : (reachable cfg recipient target).Uses fun o : Op => o.isCore = true := by
    unfold reachable
    split
    · trivial
    · split
      · trivial
      · exact ⟨rfl, fun _ => trivial⟩
  refine Mirrors.bind_eq (mirrors_uses hreach) fun ok => ?_
  split
  · exact Mirrors.bind (mirrors_refuse _ _ _) fun _ _ _ => mirrors_pure rfl
  dsimp only
  refine Mirrors.bind_eq mirrors_lift fun conversation => ?_
  refine Mirrors.bind (record_mirrors _ _ _ _) fun _ _ _ => ?_
  refine Mirrors.bind (noteContact_mirrors _ _ _) fun _ _ _ => ?_
  refine Mirrors.bind (noteContact_mirrors _ _ _) fun _ _ _ => ?_
  exact Mirrors.bind (handOver_mirrors _ _ _) fun _ _ _ => mirrors_pure rfl

/-- Two maps, or none, that are the same for `r`. -/
inductive SameMap (r : Str) : Option Dict → Option Dict → Prop
  | same (env : Option Dict) : SameMap r env env
  | differ {env env' : Dict} (entry : env.lookup r = env'.lookup r) (renders : Renders env)
      (renders' : Renders env') : SameMap r (some env) (some env')

/-- The two maps make the same frame for `r`. -/
theorem SameMap.addressedTo {env env' : Option Dict} (h : SameMap r env env') (g : Frame) :
    addressedTo g env r = addressedTo g env' r := by
  cases h with
  | same => rfl
  | differ entry =>
    unfold MessageRouter.addressedTo
    dsimp only
    rw [entry]

/-- A row that is a map of envelopes has for a reader what the map has under their name. -/
theorem contentFor_congr {env env' : Dict} (h : Renders env) (h' : Renders env') (row : Row)
    (hn : row.nonce = some envelopes) {u : Json}
    (hu : (u.asStr.bind fun r => env.lookup r) = u.asStr.bind fun r => env'.lookup r) :
    contentFor { row with body := some (Runtime.dumps (.dict env)) } u =
      contentFor { row with body := some (Runtime.dumps (.dict env')) } u := by
  have hne : (Runtime.dumps (.dict env)).isEmpty = false := by simpa using h.nonempty
  have hne' : (Runtime.dumps (.dict env')).isEmpty = false := by simpa using h'.nonempty
  unfold contentFor
  simp only [hn, Option.getD_some, hne, hne', Bool.false_eq_true, if_false, if_true, h.reads, h'.reads, hu]

/-- The stored texts of two such maps are one message to `r`. -/
theorem sameBody_maps {env env' : Dict} (entry : env.lookup r = env'.lookup r) (h : Renders env)
    (h' : Renders env') :
    SameBody r (.str (Runtime.dumps (.dict env))) (.str (Runtime.dumps (.dict env')))
      (.str envelopes) := by
  have ht : ∀ {env : Dict}, Renders env →
      Sql.text (.str (Runtime.dumps (.dict env))) = .ok (some (Runtime.dumps (.dict env))) :=
    fun h => Sql.text_of_encodable h.encodable
  unfold SameBody
  rw [ht h, ht h']
  intro row hrow
  have hn : row.nonce = some envelopes := (Sql.text_str_ok.mp hrow).2
  simp only [Row.glimpse, Glimpse.mk.injEq, true_and]
  exact ⟨contentFor_congr h h' row hn (u := .str r) entry, contentFor_congr h h' row hn (u := .null) rfl⟩

/-- The message of the room is recorded, in both, with what each map amounts to. -/
theorem recordRoom_mirrors (cfg : Config) (g : Frame) (room : Str) {env env' : Option Dict}
    (h : SameMap r env env') :
    Mirrors r (fun _ _ => True) (recordRoom cfg g room env) (recordRoom cfg g room env') := by
  have hrec : ∀ env env' : Dict, SameBody r (.str (Runtime.dumps (.dict env)))
      (.str (Runtime.dumps (.dict env'))) (.str envelopes) →
      Mirrors r (fun _ _ => True) (recordEnvelopes cfg g room env) (recordEnvelopes cfg g room env') := by
    intro env env' hb
    unfold recordEnvelopes
    split
    · exact mirrors_pure trivial
    · exact mirrors_record hb
  cases h with
  | same =>
    cases env with
    | none => exact record_mirrors _ _ _ _
    | some env => exact hrec env env (sameBody_refl _ _ _)
  | differ entry renders renders' => exact hrec _ _ (sameBody_maps entry renders renders')

/-- A member's turn does not raise when the name and the id can be stored. -/
theorem deliverTo_ok (cfg : Config) (me : Json) (g : Frame) (env : Option Dict) {name : Str}
    (hn : name.encodable = true) (hid : cfg.messages = true → Sql.Binds g.id) (w : World) :
    ∃ w₁, (deliverTo cfg me g env name).exec w = (.ok (), w₁) := by
  unfold deliverTo
  split
  · exact ⟨w, rfl⟩
  rw [RouterM.exec_bind, RouterM.exec_call]
  simp only [exec]
  split
  · exact ⟨w, rfl⟩
  next h hg =>
  split
  · exact ⟨w, rfl⟩
  next hoff =>
  cases hget : SessionRegistry.get w (.str name) with
  | some t => exact ⟨_, rfl⟩
  | none =>
    obtain ⟨t, ht⟩ := hid (by simpa [hget] using hoff)
    have hrun : exec (.messagesQueueFor name h.id) w =
        (.ok (), { w with pending := queueAll t [name] w.pending }) := by
      rw [exec, MessageStore.queueFor_eq, addressedTo_id hg, ht, Sql.str_ok.mpr ⟨hn, rfl⟩]
      rfl
    exact ⟨_, (RouterM.exec_call _ w).trans hrun⟩

/-- Nobody but `r` is looked up by a string as `r`. -/
theorem isUser_str {name : Str} (h : name ≠ r) : isUser r (.str name) = false := by
  rw [Bool.eq_false_iff]
  intro hu
  cases ht : Sql.text (.str name) with
  | error e => simp [isUser, ht, Except.toOption] at hu
  | ok t =>
    have ht' : t = some r := by simpa [isUser, ht, Except.toOption] using hu
    obtain ⟨-, hs⟩ := Sql.text_str_ok.mp ht
    rw [ht'] at hs
    exact h (Option.some.inj hs).symm

/-- Settling the copies of other people. -/
theorem Twin.settled {w w' : World} (h : Twin r w w')
    (hw : ∀ name t, SessionRegistry.get w (.str name) = some t → w.username t = some (.str name))
    (id : Option Str) {done : List (Str × Frame)} (hd : ∀ c ∈ done, c.1 ≠ r) :
    Twin r (Ciphertext.settled w id done) w' := by
  refine ⟨h.core, h.messages, fun i => ?_, ?_, h.clock, h.clock'⟩
  · refine Iff.trans ?_ (h.pending i)
    show (i, r) ∈ queueAll id (away w done) w.pending ↔ _
    rw [mem_queueAll]
    refine ⟨fun hi => hi.elim (fun hi => hi) fun ⟨_, hr⟩ => ?_, .inl⟩
    obtain ⟨c, hc, hcr⟩ := List.mem_map.mp hr
    exact (hd c (List.mem_of_mem_filter hc) hcr).elim
  · refine Eq.trans ?_ h.view
    have hnone : (live w done).filter (fun d => visible r d.holder) = [] := by
      refine List.filter_eq_nil_iff.mpr fun d hdl => ?_
      obtain ⟨c, hc, hcd⟩ := List.mem_filterMap.mp hdl
      obtain ⟨t, ht, rfl⟩ := Option.map_eq_some_iff.mp hcd
      simp only [hw c.1 t ht, visible, isUser_str (hd c hc)]
      simp
    show ((w.sent ++ live w done).filter fun d => visible r d.holder).map _ = _
    rw [List.filter_append, hnone, List.append_nil]
    rfl

/-- The fan-out of a room message. -/
theorem fanOut_twin {w₀ : World} (me : Json) (hw : Wired w₀) {g : Frame} {env env' : Option Dict}
    (henv : SameMap r env env') (hid : cfg.messages = true → Sql.Binds g.id) {names : List Str}
    (hn : ∀ name ∈ names, name.encodable = true) :
    Sim exec (fun w w' => Twin r w w' ∧ w.online = w₀.online ∧ w.username = w₀.username)
      (OkRel fun _ _ => True) (forEach names (deliverTo cfg me g env))
      (forEach names (deliverTo cfg me g env')) := by
  refine sim_forEach (T := fun a b => a = b ∧ a ∈ names) ?_ ?_
  · rw [List.forall₂_same]
    exact fun name hname => ⟨rfl, hname⟩
  rintro name _ ⟨rfl, hname⟩ w w' ⟨h, ho, hu⟩
  have henc := hn name hname
  obtain ⟨w₁, hrun⟩ := deliverTo_ok cfg me g env henc hid w
  obtain ⟨w₁', hrun'⟩ := deliverTo_ok cfg me g env' henc hid w'
  -- What the turn did to each side.
  have hset : w₁ = settled w (queueId cfg g.id) (copyFor me g env name).toList := by
    rcases deliverTo_exec cfg w me g env name with he | ⟨e, he⟩ <;> rw [hrun] at he
    · exact congrArg Prod.snd he
    · cases he
  have hset' : w₁' = settled w' (queueId cfg g.id) (copyFor me g env' name).toList := by
    rcases deliverTo_exec cfg w' me g env' name with he | ⟨e, he⟩ <;> rw [hrun'] at he
    · exact congrArg Prod.snd he
    · cases he
  have hkeep : w₁.online = w₀.online ∧ w₁.username = w₀.username := by
    rw [hset]
    exact ⟨ho, hu⟩
  suffices htwin : Twin r w₁ w₁' by
    simp only [RouterM.exec] at hrun hrun'
    rw [hrun, hrun']
    exact ⟨⟨htwin, hkeep⟩, trivial⟩
  by_cases hr : name = r
  · subst hr
    have hprog : deliverTo cfg me g env name = deliverTo cfg me g env' name := by
      unfold deliverTo
      rw [henv.addressedTo]
    have hsim : Mirrors name (fun _ _ => True) (deliverTo cfg me g env name)
        (deliverTo cfg me g env name) := by
      unfold deliverTo
      split
      · exact mirrors_pure trivial
      refine Mirrors.bind_eq (mirrors_core rfl) fun member => ?_
      split
      · exact mirrors_pure trivial
      split
      · exact mirrors_pure trivial
      · exact handOver_mirrors _ _ _
    have := (hsim w w' h).1
    simp only [RouterM.exec] at hrun hrun'
    rw [hrun, hprog, hrun'] at this
    exact this
  · have hcopy : ∀ env : Option Dict, ∀ c ∈ (copyFor me g env name).toList, c.1 ≠ r := by
      intro env c hc
      unfold copyFor at hc
      split at hc
      · cases hc
      · cases ha : addressedTo g env name with
        | none => simp [ha] at hc
        | some x =>
          simp only [ha, Option.map_some, Option.toList_some, List.mem_singleton] at hc
          rw [hc]
          exact hr
    have hget : ∀ w : World, w.online = w₀.online → w.username = w₀.username → ∀ name t,
        SessionRegistry.get w (.str name) = some t → w.username t = some (.str name) := by
      intro w ho hu name t ht
      rw [hu]
      refine hw.get_eq ?_
      unfold SessionRegistry.get at ht ⊢
      rw [← ho]
      exact ht
    have ho' : w'.online = w₀.online := (congrArg Core.online h.core).symm.trans ho
    have hu' : w'.username = w₀.username := h.username.symm.trans hu
    rw [hset, hset']
    have hleft := h.settled (hget w ho hu) (queueId cfg g.id) (hcopy env)
    exact (hleft.symm.settled (hget w' ho' hu') (queueId cfg g.id) (hcopy env')).symm

/-- A room message stored without raising has an id that can be stored. -/
theorem recordRoom_binds {g : Frame} {room : Str} {env : Option Dict} {w w₁ : World}
    (h : (recordRoom cfg g room env).exec w = (.ok (), w₁)) (hm : cfg.messages = true) :
    Sql.Binds g.id := by
  have hrec : ∀ {conversation sender recipient body nonce ts},
      RouterM.exec (messagesRecord g.id conversation sender recipient body nonce ts) w =
        (.ok (), w₁) → Sql.Binds g.id := by
    intro conversation sender recipient body nonce ts hrun
    rw [RouterM.exec_call] at hrun
    cases ht : Sql.text g.id with
    | ok t => exact ⟨t, ht⟩
    | error e =>
      simp [exec, MessageStore.record, ht, Bind.bind, Except.bind, commit'] at hrun
  unfold recordRoom at h
  cases env with
  | none =>
    unfold record at h
    simp only [hm, Bool.not_true, Bool.false_eq_true, if_false] at h
    exact hrec h
  | some env =>
    dsimp only at h
    unfold recordEnvelopes at h
    simp only [hm, Bool.not_true, Bool.false_eq_true, if_false] at h
    exact hrec h

/-- Recording changes the messages and nothing else. -/
theorem recordRoom_keeps (cfg : Config) (g : Frame) (room : Str) (env : Option Dict) (w : World) {x : Field}
    (hx : x ≠ .messages) : x.Same w ((recordRoom cfg g room env).exec w).2 := by
  unfold recordRoom record recordEnvelopes
  split <;> split
  · exact x.same_refl w
  · rw [RouterM.exec_call]
    exact exec_same _ w (by simp [Op.writesTo, hx])
  · exact x.same_refl w
  · rw [RouterM.exec_call]
    exact exec_same _ w (by simp [Op.writesTo, hx])

/-- A room message: refused in both, or recorded and fanned out in both, with the same frame
for `r`. -/
theorem toRoom_twin {w w' : World} (h : Twin r w w') (hw : Wired w) (hen : Enrolled w) (room : Str)
    (g : Frame) {env env' : Option Dict} (henv : SameMap r env env') :
    Twin r ((toRoom cfg s me room g env).exec w).2 ((toRoom cfg s me room g env').exec w').2 ∧
      OkRel (· = ·) ((toRoom cfg s me room g env).exec w).1
        ((toRoom cfg s me room g env').exec w').1 := by
  have hrefuse : ∀ code message : Str, Mirrors r (· = ·)
      (refuse s code message >>= fun _ => (Prog.pure false : RouterM Bool))
      (refuse s code message >>= fun _ => (Prog.pure false : RouterM Bool)) :=
    fun _ _ => Mirrors.bind (mirrors_refuse _ _ _) fun _ _ _ => mirrors_pure rfl
  unfold toRoom
  refine Mirrors.run_bind (mirrors_core rfl) h (fun _ _ => trivial) ?_
  intro known known' w₁ w₁' hrun₁ _ hk h₁
  subst hk
  have hw₁ : w₁ = w := by
    rw [RouterM.exec_call] at hrun₁
    exact (congrArg Prod.snd hrun₁).symm
  subst hw₁
  split
  · exact hrefuse _ _ _ _ h₁
  refine Mirrors.run_bind (mirrors_core rfl) h₁ (fun _ _ => trivial) ?_
  intro members members' w₂ w₂' hrun₂ _ hm h₂
  subst hm
  rw [RouterM.exec_call] at hrun₂
  have hw₂ : w₂ = w₁ := (congrArg Prod.snd hrun₂).symm
  subst hw₂
  split
  · exact hrefuse _ _ _ _ h₂
  refine Mirrors.run_bind (recordRoom_mirrors cfg g room henv) h₂ (fun _ _ => trivial) ?_
  intro _ _ w₃ w₃' hrun₃ _ _ h₃
  -- The members are the table's, so their names can be stored.
  have hnames : ∀ name ∈ Str.sorted members, name.encodable = true := by
    intro name hname
    have hmem : SqliteRooms.members w₂ room = .ok members := congrArg Prod.fst hrun₂
    unfold SqliteRooms.members at hmem
    cases hs : Sql.str room with
    | error e => simp [hs, Bind.bind, Except.bind] at hmem
    | ok t =>
      simp only [hs, Bind.bind, Except.bind, Pure.pure, Except.pure, Except.ok.injEq] at hmem
      rw [Str.mem_sorted, ← hmem] at hname
      obtain ⟨m, hm, rfl⟩ := List.mem_map.mp hname
      exact hen m (List.mem_of_mem_filter hm)
  have hon : w₃.online = w₂.online := by
    have := recordRoom_keeps cfg g room env w₂ (x := .online) (by simp)
    rw [hrun₃] at this
    exact this
  have hun : w₃.username = w₂.username := by
    have := recordRoom_keeps cfg g room env w₂ (x := .username) (by simp)
    rw [hrun₃] at this
    exact this
  have hloop := fanOut_twin me hw henv (recordRoom_binds hrun₃) hnames w₃ w₃' ⟨h₃, hon, hun⟩
  rw [RouterM.exec_bind, RouterM.exec_bind]
  simp only [RouterM.exec]
  generalize run exec (forEach (Str.sorted members) (deliverTo cfg me g env)) w₃ = x at hloop
  generalize run exec (forEach (Str.sorted members) (deliverTo cfg me g env')) w₃' = x' at hloop
  obtain ⟨e | _, w₄⟩ := x <;> obtain ⟨e' | _, w₄'⟩ := x'
  · exact ⟨hloop.1.1, trivial⟩
  · exact hloop.2.elim
  · exact hloop.2.elim
  · exact ⟨hloop.1.1, rfl⟩

/-! ## Any input -/

/-- Frames that only differ in envelopes for people other than `r`. -/
structure OtherEnvelopes (r : Str) (f f' : Frame) : Prop where
  type : f.type = .msg
  fields : f' = { f with data := f'.data }
  data : ∀ key : Str, key ≠ "env" → f'.get key = f.get key
  maps : ∃ env env', f.get "env" = .dict env ∧ f'.get "env" = .dict env' ∧
    env.lookup r = env'.lookup r

/-- The same input, or a MSG with other envelopes for other people. -/
inductive Alike (r : Str) : Input → Input → Prop
  | same (i : Input) : Alike r i i
  | msg (s : Sid) {f f' : Frame} (h : OtherEnvelopes r f f') : Alike r (.frame s f) (.frame s f')

/-- A MSG, whose envelopes may differ for others; the sender gets the same answer. -/
theorem message_twin {w w' : World} (h : Twin r w w') (hw : Wired w) (hen : Enrolled w)
    {f f' : Frame} (ht : f'.target = f.target) (hid : f'.id = f.id)
    (hout : outgoing me f' = outgoing me f)
    (henv : SameMap r (f.get "env").asDict (f'.get "env").asDict) :
    Twin r ((message cfg s me f).exec w).2 ((message cfg s me f').exec w').2 := by
  unfold message
  rw [ht]
  split
  · exact (mirrors_refuse _ _ _ w w' h).1
  split
  next target _ =>
    have hdeliver : Twin r ((deliver cfg s me target f).exec w).2
          ((deliver cfg s me target f').exec w').2 ∧
        OkRel (· = ·) ((deliver cfg s me target f).exec w).1
          ((deliver cfg s me target f').exec w').1 := by
      unfold deliver
      rw [hout]
      split
      · exact toRoom_twin h hw hen target _ henv
      · exact toUser_mirrors cfg s me target _ w w' h
    rw [RouterM.exec_bind, RouterM.exec_bind, hid]
    generalize (deliver cfg s me target f).exec w = x at hdeliver
    generalize (deliver cfg s me target f').exec w' = x' at hdeliver
    obtain ⟨e | b, w₁⟩ := x <;> obtain ⟨e' | b', w₁'⟩ := x'
    · exact hdeliver.1
    · exact hdeliver.2.elim
    · exact hdeliver.2.elim
    · obtain ⟨htwin, hb⟩ := hdeliver
      have hb : b = b' := hb
      subst hb
      dsimp only
      split
      · exact (mirrors_say (by simp) _ _ _ _ w₁ w₁' htwin).1
      · exact htwin
  · exact h

/-- The frames of somebody logged in that are handled the same way on both
sides, whatever the stored messages are. -/
theorem dispatch_mirrors {f : Frame} (hm : f.type ≠ .msg) (hh : f.type ≠ .history) :
    Mirrors r (fun _ _ => True) (dispatch cfg s me f) (dispatch cfg s me f) := by
  unfold dispatch
  cases ht : f.type
  case msg => exact (hm ht).elim
  case history => exact (hh ht).elim
  case createRoom => exact createRoom_mirrors s me f
  case join => exact join_mirrors s me f
  case leave => exact leave_mirrors s me f
  case invite => exact invite_mirrors s me f
  case addContact => exact addContact_mirrors cfg s me f
  case removeContact => exact removeContact_mirrors cfg s me f
  case typing => exact typing_mirrors me f
  case receipt => exact receipt_mirrors cfg s me f
  case getKey => exact getKey_mirrors s f
  all_goals exact mirrors_refuse _ _ _

/-- **A frame of somebody logged in** leads from twins to twins. -/
theorem dispatch_twin {w w' : World} (h : Twin r w w') (hw : Wired w) (hen : Enrolled w) {f : Frame}
    (hu : w.username s = some me) :
    Twin r ((dispatch cfg s me f).exec w).2 ((dispatch cfg s me f).exec w').2 := by
  by_cases hm : f.type = .msg
  · have hprog : dispatch cfg s me f = message cfg s me f := by
      unfold dispatch
      rw [hm]
    rw [hprog]
    exact message_twin h hw hen rfl rfl rfl (.same _)
  by_cases hh : f.type = .history
  · have hprog : dispatch cfg s me f = history cfg s me f := by
      unfold dispatch
      rw [hh]
    rw [hprog]
    exact history_twin h hu (hw.named s me hu) f
  · exact (dispatch_mirrors hm hh w w' h).1

/-- And so does any frame. -/
theorem handle_twin {w w' : World} (h : Twin r w w') (hw : Wired w) (hen : Enrolled w) (s : Sid)
    (f : Frame) : Twin r ((handle cfg s f).exec w).2 ((handle cfg s f).exec w').2 := by
  unfold handle
  split
  · exact (mirrors_say (by simp) _ _ _ _ w w' h).1
  · exact (register_mirrors s f w w' h).1
  · exact (login_twin cfg s f w w' h).1
  · refine (Mirrors.run_bind (C := fun _ _ => True) (mirrors_core rfl) h (fun _ _ => trivial) ?_).1
    intro u u' w₁ w₁' hrun _ hu h₁
    subst hu
    refine ⟨?_, trivial⟩
    rw [RouterM.exec_call] at hrun
    have hw₁ : w₁ = w := (congrArg Prod.snd hrun).symm
    subst hw₁
    cases u with
    | none => exact (mirrors_refuse _ _ _ w₁ w₁' h₁).1
    | some me =>
      have hname : w₁.username s = some me := Except.ok.inj (congrArg Prod.fst hrun)
      exact dispatch_twin h₁ hw hen hname

/-- **One call.** -/
theorem step_twin {w w' : World} (h : Twin r w w') (hw : Wired w) (hen : Enrolled w)
    {i i' : Input} (hi : Alike r i i') (hj : ∀ env, i.env = .dict env → Renders env)
    (hj' : ∀ env, i'.env = .dict env → Renders env) :
    Twin r (Step.of cfg w i).after (Step.of cfg w' i').after := by
  cases hi with
  | same =>
    cases i with
    | frame s f => exact handle_twin h hw hen s f
    | hangup s => exact (onDisconnect_mirrors s w w' h).1
  | @msg s f f' hf =>
    obtain ⟨env, env', he, he', hentry⟩ := hf.maps
    have ht' : f'.type = .msg := by
      rw [hf.fields]
      exact hf.type
    cases hu : w.username s with
    | none =>
      have hu' : w'.username s = none := h.username ▸ hu
      have hrun := congrArg Prod.snd (handle_nobody cfg s (f := f) (by simp [hf.type])
        (by simp [hf.type]) (by simp [hf.type]) hu)
      have hrun' := congrArg Prod.snd (handle_nobody cfg s (f := f') (by simp [ht'])
        (by simp [ht']) (by simp [ht']) hu')
      show Twin r ((handle cfg s f).exec w).2 ((handle cfg s f').exec w').2
      rw [hrun, hrun']
      exact (mirrors_refuse _ _ _ w w' h).1
    | some me =>
      have hu' : w'.username s = some me := h.username ▸ hu
      show Twin r ((handle cfg s f).exec w).2 ((handle cfg s f').exec w').2
      rw [handle_msg cfg s hf.type hu, handle_msg cfg s ht' hu']
      refine message_twin h hw hen (by rw [hf.fields]) (by rw [hf.fields]) ?_ ?_
      · rw [hf.fields]
        rfl
      · rw [he, he']
        exact .differ hentry (hj env he) (hj' env' he')

omit [Runtime] in
/-- Two runs that match end in inputs that match. -/
theorem forall₂_concat {α β : Type} {R : α → β → Prop} {l : List α} {l' : List β} {a : α} {b : β}
    (h : List.Forall₂ R (l ++ [a]) (l' ++ [b])) : List.Forall₂ R l l' ∧ R a b := by
  rw [← List.forall₂_reverse_iff, List.reverse_append, List.reverse_append] at h
  cases h with
  | cons hab hl => exact ⟨List.forall₂_reverse_iff.mp hl, hab⟩

/-- **Nobody learns anything of other people's envelopes.** In two runs whose
inputs differ only in those, `r` is sent the same frames. -/
theorem Run.isolated {tr tr' : List Step} {w w' : World} {uuid uuid' : Nat → Str}
    {clock clock' : Nat → Int} {salt : Nat → List UInt8} (r : Str)
    (h : Run cfg (World.start uuid clock salt) tr w)
    (h' : Run cfg (World.start uuid' clock' salt) tr' w') (hc : ∀ n, clock n ≠ 0)
    (hc' : ∀ n, clock' n ≠ 0)
    (hin : List.Forall₂ (fun st st' : Step => Alike r st.input st'.input) tr tr')
    (hj : ∀ st ∈ tr ++ tr', ∀ env, st.input.env = .dict env → Renders env) :
    view r w = view r w' := by
  suffices htwin : Twin r w w' from htwin.view
  -- The two runs go in step, and look the same to `r` after each pair of inputs.
  induction h generalizing tr' w' with
  | nil =>
    obtain rfl : tr' = [] := by
      cases hin
      rfl
    rw [h'.eq_start]
    exact ⟨rfl, rfl, fun _ => Iff.rfl, rfl, hc, hc'⟩
  | @snoc tr w hrun i ih =>
    rcases List.eq_nil_or_concat tr' with rfl | ⟨pre', st', rfl⟩
    · have hlen := hin.length_eq
      simp at hlen
    rw [List.concat_eq_append] at *
    obtain ⟨hpre, hlast⟩ := forall₂_concat hin
    obtain ⟨w₁', i', hrun', rfl, rfl⟩ := h'.of_concat
    have htwin := ih hrun' hpre fun st hst => hj st (by
      simp only [List.mem_append] at hst ⊢
      tauto)
    have hw : Wired w := hrun.wired (wired_start uuid clock salt)
    exact step_twin htwin hw (hrun.enrolled (wired_start uuid clock salt) rfl) hlast
      (hj (Step.of cfg w i) (by simp)) (hj (Step.of cfg w₁' i') (by simp))

end Runs

/-! ## Two concrete runs -/

namespace Sample

/-- A server whose clock has left the epoch behind. -/
def ticking : World :=
  World.start (fun n => [Fin.ofNat 0x110000 n]) (fun n => n + 1) (fun _ => [])

/-- A room message with the given envelopes. -/
def letter (env : Dict) : Frame :=
  { type := .msg, target := .str "#r", data := [("env", .dict env)], id := .str "i", ts := 5 }

/-- `a` writes to a room of three; the other two log in afterwards. -/
def letters (env : Dict) : List Input :=
  [register "a", register "b", register "c", login 0 "a",
    .frame 0 (ask .createRoom [("room", .str "#r"), ("members", .list [.str "b", .str "c"])]),
    .frame 0 (letter env), login 1 "b", login 2 "c"]

end Sample

section Concrete

open Sample

attribute [local instance] sampleRuntime

/-- The two sequences of inputs differ in `c`'s envelope only. -/
theorem letters_alike : List.Forall₂ (Alike "b") (letters env) (letters env') := by
  refine .cons (.same _) (.cons (.same _) (.cons (.same _) (.cons (.same _) (.cons (.same _)
    (.cons (.msg 0 ⟨rfl, rfl, fun key hkey => ?_, env, env', rfl, rfl, by decide⟩)
      (.cons (.same _) (.cons (.same _) .nil)))))))
  have hne : (key == Str.ofString "env") = false := by simpa using hkey
  simp [Frame.get, Json.get, Json.getD, letter, List.lookup_cons, hne]

/-- There is one map of envelopes in them. -/
theorem letters_env {env d : Dict} {i : Input} (hi : i ∈ letters env) (hd : i.env = .dict d) :
    d = env := by
  simp only [letters, List.mem_cons, List.not_mem_nil, or_false] at hi
  rcases hi with rfl | rfl | rfl | rfl | rfl | rfl | rfl | rfl
  case inr.inr.inr.inr.inr.inl => exact (Json.dict.inj hd).symm
  all_goals cases hd

/-- `b`'s letter arrives, the same whether or not there is one for `c`. -/
theorem letters_isolated :
    view "b" (ticking.after chatServer (letters env)) =
        view "b" (ticking.after chatServer (letters env')) ∧
      (view "b" (ticking.after chatServer (letters env))).any (·.2.type = .msg) = true := by
  refine ⟨Run.isolated "b" (Run.of_inputs chatServer ticking _) (Run.of_inputs chatServer ticking _)
    (fun n => ?_) (fun n => ?_) (forall₂_trace letters_alike _ _) fun st hst d hd => ?_,
    by decide +kernel⟩
  · show (n : Int) + 1 ≠ 0
    omega
  · show (n : Int) + 1 ≠ 0
    omega
  · rcases List.mem_append.mp hst with hst | hst
    · rw [letters_env (mem_trace hst) hd]
      exact ⟨by decide +kernel, by decide +kernel, by decide +kernel⟩
    · rw [letters_env (mem_trace hst) hd]
      exact ⟨by decide +kernel, by decide +kernel, by decide +kernel⟩

end Concrete

end Ciphertext
