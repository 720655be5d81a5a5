import Ciphertext.Prog.Lanes
import Ciphertext.Server.Interleaving
import Ciphertext.Server.Roll

/-!
# Coming and going, side by side

The login and the disconnect handlers as sessions of `Server/Roll.lean`. A
connection's reader thread runs its handlers one after the other, so each
connection is a lane; its calls move it from phase to phase (`next`), and what
its handlers may do in a phase is `May`. Every call of a handler is then either a
step of the roll or leaves it alone (`Stands.call`).

What a connection was told is read off the frames sent to it: the last PRESENCE
about a user, or else the roster of its LOGIN_OK.

`presence_agrees` is about every interleaving, at the moments when no handler is in the
middle of anything: what each connection was last told about a user is whether that user
is online, as long as names are strings and no farewell comes late. It can:
`on_disconnect` frees the name before it tells the others, and a login in between is
announced before the farewell (`presence_overtaken`).
-/

namespace Ciphertext

open Prog MessageRouter

/-! ## What the frames say -/

/-- The user a PRESENCE is about, and whether it says they are here. -/
def tells (g : Frame) : Option (Json × Bool) :=
  if g.type = .presence then some (g.get "user", g.get "state" == .str "ONLINE") else none

/-- The roster of a LOGIN_OK. -/
def welcomes (g : Frame) : Option (List Json) :=
  if g.type = .loginOk then
    match g.get "roster" with
    | .list names => some names
    | _ => none
  else none

/-- The last PRESENCE about a user that a connection was sent. -/
def told (sent : List Delivery) (s : Sid) (u : Json) : Option Bool :=
  (sent.filterMap fun d => if d.session = s then
    (tells d.frame).bind fun t => if t.1 = u then some t.2 else none else none).getLast?

/-- The roster of the LOGIN_OK a connection was sent. -/
def rosterOf (sent : List Delivery) (s : Sid) : Option (List Json) :=
  (sent.filterMap fun d => if d.session = s then welcomes d.frame else none).getLast?

theorem told_snoc (sent : List Delivery) (d : Delivery) (s : Sid) (u : Json) :
    told (sent ++ [d]) s u =
      if d.session = s then ((tells d.frame).bind fun t => if t.1 = u then some t.2 else none).or (told sent s u)
      else told sent s u := by
  unfold told
  rw [List.filterMap_append, List.getLast?_append]
  by_cases hs : d.session = s
  · rw [if_pos hs]
    cases ht : (tells d.frame).bind fun t => if t.1 = u then some t.2 else none <;> simp [hs, ht]
  · simp [hs]

theorem rosterOf_snoc (sent : List Delivery) (d : Delivery) (s : Sid) :
    rosterOf (sent ++ [d]) s =
      if d.session = s then (welcomes d.frame).or (rosterOf sent s) else rosterOf sent s := by
  unfold rosterOf
  rw [List.filterMap_append, List.getLast?_append]
  by_cases hs : d.session = s
  · rw [if_pos hs]
    cases hw : welcomes d.frame <;> simp [hs, hw]
  · simp [hs]

/-! ## The phases of a connection -/

/-- How a call of its own moves a connection on. -/
def next : Phase Json Sid → Event routerSig → Phase Json Sid
  | .out, ⟨.usersVerify u _, true⟩ => .checked u
  | .checked u, ⟨.sessionsLogin _ _, true⟩ => .claimed u
  | .checked _, ⟨.sessionsLogin _ _, false⟩ => .out
  | .claimed u, ⟨.setUsername _ _, _⟩ => .named u
  | .named u, ⟨.sessionsUsernames, names⟩ => .reading u names
  | .reading u _, ⟨.send _ _, _⟩ => .welcomed u
  | .welcomed u, ⟨.sessionsOthers _, l⟩ => .telling u l
  | .telling u (_ :: l), ⟨.send _ _, _⟩ => .telling u l
  | .telling u [], ⟨.sessionsLogout _, _⟩ => .gone u
  | .gone u, ⟨.setUsername _ _, _⟩ => .parted u
  | .parted u, ⟨.sessionsOthers _, l⟩ => .parting u l
  | .parting u (_ :: l), ⟨.send _ _, _⟩ => .parting u l
  | φ, _ => φ

/-- Fresh values and its own name are asked for in any phase. -/
@[simp] theorem next_newId (φ : Phase Json Sid) (r : Str) : next φ ⟨.newId, r⟩ = φ := by
  cases φ with
  | telling u l => cases l <;> rfl
  | parting u l => cases l <;> rfl
  | _ => rfl

@[simp] theorem next_nowMs (φ : Phase Json Sid) (r : Int) : next φ ⟨.nowMs, r⟩ = φ := by
  cases φ with
  | telling u l => cases l <;> rfl
  | parting u l => cases l <;> rfl
  | _ => rfl

@[simp] theorem next_getUsername (φ : Phase Json Sid) (s : Sid) (r : Option Json) :
    next φ ⟨.getUsername s, r⟩ = φ := by
  cases φ with
  | telling u l => cases l <;> rfl
  | parting u l => cases l <;> rfl
  | _ => rfl

/-- A name an account can have. -/
def Names (u : Json) : Prop := ∃ name : Str, u = .str name ∧ name.encodable = true

/-- The calls of connection `s` in each phase. -/
inductive May (s : Sid) : Phase Json Sid → Op → Prop
  | newId (φ) : May s φ .newId
  | nowMs (φ) : May s φ .nowMs
  | name (φ) : May s φ (.getUsername s)
  | check (name : Str) (p : Json) : May s .out (.usersVerify (.str name) p)
  | claim (u) : May s (.checked u) (.sessionsLogin u s)
  | setName (u) : May s (.claimed u) (.setUsername s (some u))
  | read (u) : May s (.named u) .sessionsUsernames
  | again (u names) : May s (.reading u names) .sessionsUsernames
  | contacts (u names) : May s (.reading u names) (.contactsOf u)
  | rooms (u names) : May s (.reading u names) (.roomsOf u)
  | greet (u names g) (htells : tells g = none)
      (hg : welcomes g = some (names.filter fun v => !v.pyEq u)) : May s (.reading u names) (.send s g)
  | look (u) : May s (.welcomed u) (.sessionsOthers u)
  | tellOn (u x l g) (htells : tells g = some (u, true)) (hg : welcomes g = none) :
      May s (.telling u (x :: l)) (.send x g)
  | answer (g) (htells : tells g = none) (hg : welcomes g = none) : May s .out (.send s g)
  | flush (u) : May s (.telling u []) (.messagesFlush u)
  | hand (u g) (htells : tells g = none) (hg : welcomes g = none) : May s (.telling u []) (.send s g)
  | giveUp (u) : May s (.telling u []) (.sessionsLogout u)
  | dropName (u) : May s (.gone u) (.setUsername s none)
  | lookBack (u) : May s (.parted u) (.sessionsOthers u)
  | tellOff (u x l g) (htells : tells g = some (u, false)) (hg : welcomes g = none) :
      May s (.parting u (x :: l)) (.send x g)

/-- The user a connection is busy with. -/
def Phase.user {ν σ : Type} : Phase ν σ → Option ν
  | .out => none
  | .checked u | .claimed u | .named u | .reading u _ | .welcomed u | .telling u _ | .gone u
  | .parted u | .parting u _ => some u

theorem Phase.user_of_holds {ν σ : Type} {φ : Phase ν σ} {u : ν} (h : φ.holds = some u) :
    φ.user = some u := by
  cases φ with
  | claimed | named | reading | welcomed | telling => exact h
  | _ => cases h

/-- What the frames and the phases come to. -/
def rollOf (sent : List Delivery) (φ : Sid → Phase Json Sid) : Roll Json Sid :=
  ⟨φ, told sent, rosterOf sent⟩

/-- The world is where the phases say. -/
structure Stands (w : World) (φ : Sid → Phase Json Sid) : Prop where
  username : ∀ s, w.username s = (φ s).name
  online : ∀ u s, (u, s) ∈ w.online ↔ (φ s).holds = some u
  names : ∀ s u, (φ s).user = some u → Names u
  inv : (rollOf w.sent φ).Inv

section Calls

variable {w w' : World} {φ : Sid → Phase Json Sid} {s : Sid}

/-- A call that changes neither the registry nor the names, and tells nobody. -/
theorem Stands.same (h : Stands w φ) (hu : w'.username = w.username) (ho : w'.online = w.online)
    (hs : ∀ x u, told w'.sent x u = told w.sent x u) (hr : ∀ x, rosterOf w'.sent x = rosterOf w.sent x) :
    Stands w' φ := by
  have hroll : rollOf w'.sent φ = rollOf w.sent φ := by
    have htold : told w'.sent = told w.sent := funext fun x => funext fun u => hs x u
    have hroster : rosterOf w'.sent = rosterOf w.sent := funext hr
    unfold rollOf
    rw [htold, hroster]
  exact ⟨fun x => by rw [hu]; exact h.username x, fun u x => by rw [ho]; exact h.online u x, h.names,
    by rw [hroll]; exact h.inv⟩

/-- A call that moves its connection on. -/
theorem Stands.move (h : Stands w φ) {ψ : Phase Json Sid}
    (hmove : Roll.Move s (rollOf w.sent φ) (rollOf w'.sent (Function.update φ s ψ)))
    (hu : ∀ x, w'.username x = if x = s then ψ.name else w.username x)
    (ho : ∀ u x, (u, x) ∈ w'.online ↔ if x = s then ψ.holds = some u else (u, x) ∈ w.online)
    (hnames : ∀ u, ψ.user = some u → Names u) : Stands w' (Function.update φ s ψ) := by
  refine ⟨fun x => ?_, fun u x => ?_, fun x u hx => ?_, hmove.inv h.inv⟩
  · rw [hu]
    by_cases hx : x = s
    · rw [if_pos hx, hx, Function.update_self]
    · rw [if_neg hx, Function.update_of_ne hx]
      exact h.username x
  · rw [ho]
    by_cases hx : x = s
    · rw [if_pos hx, hx, Function.update_self]
    · rw [if_neg hx, Function.update_of_ne hx]
      exact h.online u x
  · by_cases hxs : x = s
    · rw [hxs, Function.update_self] at hx
      exact hnames u hx
    · rw [Function.update_of_ne hxs] at hx
      exact h.names x u hx

/-- Such a call that sends nothing and leaves the registry and the names alone. -/
theorem Stands.onward (h : Stands w φ) {ψ : Phase Json Sid}
    (hmove : Roll.Move s (rollOf w.sent φ) ((rollOf w.sent φ).put s ψ)) (hu : w'.username = w.username)
    (ho : w'.online = w.online) (hsent : w'.sent = w.sent) (hname : ψ.name = (φ s).name)
    (hholds : ψ.holds = (φ s).holds) (hnames : ∀ u, ψ.user = some u → Names u) :
    Stands w' (Function.update φ s ψ) := by
  refine h.move (by rw [hsent]; exact hmove) (fun x => ?_) (fun u x => ?_) hnames
  · rw [hu]
    by_cases hx : x = s
    · rw [if_pos hx, hname, hx, h.username]
    · rw [if_neg hx]
  · rw [ho]
    by_cases hx : x = s
    · rw [if_pos hx, hholds, hx, h.online]
    · rw [if_neg hx]

theorem Stands.online_iff (h : Stands w φ) (u : Json) :
    (rollOf w.sent φ).Online u ↔ ∃ s, (u, s) ∈ w.online :=
  exists_congr fun s => (h.online u s).symm

/-- The names in the registry are strings, so looking one up is looking it up. -/
theorem Stands.str (h : Stands w φ) {e : Json × Sid} (he : e ∈ w.online) : Names e.1 :=
  h.names e.2 e.1 (Phase.user_of_holds ((h.online e.1 e.2).mp he))

theorem Names.pyEq {u v : Json} (h : Names u) : u.pyEq v = true ↔ v = u := by
  obtain ⟨name, rfl, -⟩ := h
  exact Json.pyEq_str_left name v

theorem Names.not_pyEq {u v : Json} (h : Names u) : (!u.pyEq v) = true ↔ v ≠ u := by
  rw [Bool.not_eq_true', ← Bool.not_eq_true, h.pyEq]

theorem Names.binds [Runtime] {u : Json} (h : Names u) : ∃ t, Sql.text u = .ok t := by
  obtain ⟨name, rfl, he⟩ := h
  exact ⟨some name, Sql.text_of_encodable he⟩

/-- `usernames()` does not raise, and lists exactly who is here. -/
theorem Stands.usernames (h : Stands w φ) :
    ∃ names, SessionRegistry.usernames w = .ok names ∧ ∀ v, v ∈ names ↔ (rollOf w.sent φ).Online v := by
  have hmem : ∀ v, v ∈ w.online.map Prod.fst ↔ (rollOf w.sent φ).Online v := by
    intro v
    rw [h.online_iff, List.mem_map]
    exact ⟨fun ⟨e, he, hv⟩ => ⟨e.2, hv ▸ he⟩, fun ⟨s, hs⟩ => ⟨_, hs, rfl⟩⟩
  have hstr : (w.online.map Prod.fst).all (fun v => v.asStr.isSome) = true := by
    rw [List.all_eq_true]
    intro v hv
    obtain ⟨e, he, rfl⟩ := List.mem_map.mp hv
    obtain ⟨name, hname, -⟩ := h.str he
    rw [hname]
    rfl
  unfold SessionRegistry.usernames Json.sortedNames
  rw [if_pos hstr]
  split
  · exact ⟨_, rfl, hmem⟩
  · exact ⟨_, rfl, fun v => (List.mem_insertionSort _).trans (hmem v)⟩

/-- `others()` lists the connections that hold another name. -/
theorem Stands.others (h : Stands w φ) {u : Json} (hu : Names u) :
    (rollOf w.sent φ).Others u (SessionRegistry.others w u) := by
  intro x
  unfold SessionRegistry.others
  rw [List.mem_map]
  constructor
  · rintro ⟨e, he, rfl⟩
    obtain ⟨he, hne⟩ := List.mem_filter.mp he
    exact ⟨e.1, hu.not_pyEq.mp hne, (h.online _ _).mp he⟩
  · rintro ⟨v, hv, hx⟩
    exact ⟨(v, x), List.mem_filter.mpr ⟨(h.online _ _).mpr hx, hu.not_pyEq.mpr hv⟩, rfl⟩

/-- A frame that says nothing about anybody. -/
theorem Stands.plain (h : Stands w φ) {x : Sid} {g : Frame} (htells : tells g = none)
    (hg : welcomes g = none) : Stands (w.push x g) φ := by
  refine h.same rfl rfl (fun y u => ?_) fun y => ?_
  · show told (w.sent ++ [_]) y u = _
    rw [told_snoc]
    simp [htells]
  · show rosterOf (w.sent ++ [_]) y = _
    rw [rosterOf_snoc]
    simp [hg]

/-- A PRESENCE is sent. -/
theorem rollOf_tell {ψ : Phase Json Sid} {x : Sid} {u : Json} {b : Bool} {g : Frame}
    (htells : tells g = some (u, b)) (hg : welcomes g = none) :
    rollOf (w.push x g).sent (Function.update φ s ψ) = ((rollOf w.sent φ).put s ψ).tell x u b := by
  have htold : told (w.sent ++ [⟨x, w.username x, g⟩]) =
      Function.update (told w.sent) x (Function.update (told w.sent x) u (some b)) := by
    funext y v
    rw [told_snoc, htells]
    by_cases hy : x = y
    · subst hy
      by_cases hv : u = v
      · subst hv
        simp
      · simp [hv, Ne.symm hv]
    · simp [hy, Ne.symm hy]
  have hroster : rosterOf (w.sent ++ [⟨x, w.username x, g⟩]) = rosterOf w.sent := by
    funext y
    rw [rosterOf_snoc, hg]
    simp
  show Roll.mk _ (told (w.sent ++ [_])) (rosterOf (w.sent ++ [_])) = _
  rw [htold, hroster]
  rfl

/-- A LOGIN_OK is sent. -/
theorem rollOf_welcome {ψ : Phase Json Sid} {names : List Json} {g : Frame} (htells : tells g = none)
    (hg : welcomes g = some names) : rollOf (w.push s g).sent (Function.update φ s ψ) =
      ((rollOf w.sent φ).put s ψ).welcome s names := by
  have htold : told (w.sent ++ [⟨s, w.username s, g⟩]) = told w.sent := by
    funext y v
    rw [told_snoc, htells]
    simp
  have hroster : rosterOf (w.sent ++ [⟨s, w.username s, g⟩]) =
      Function.update (rosterOf w.sent) s (some names) := by
    funext y
    rw [rosterOf_snoc, hg]
    by_cases hy : s = y
    · subst hy
      simp
    · simp [hy, Ne.symm hy]
  show Roll.mk _ (told (w.sent ++ [_])) (rosterOf (w.sent ++ [_])) = _
  rw [htold, hroster]
  rfl

/-- A frame is sent while its connection moves on and keeps its name. -/
theorem Stands.push (h : Stands w φ) {ψ : Phase Json Sid} {x : Sid} {g : Frame}
    (hmove : Roll.Move s (rollOf w.sent φ) (rollOf (w.push x g).sent (Function.update φ s ψ)))
    (hname : ψ.name = (φ s).name) (hholds : ψ.holds = (φ s).holds) (huser : ψ.user = (φ s).user) :
    Stands (w.push x g) (Function.update φ s ψ) := by
  refine h.move hmove (fun y => ?_) (fun u y => ?_) fun u hu => h.names s u (huser ▸ hu)
  · by_cases hy : y = s
    · rw [if_pos hy, hname, hy]
      exact h.username s
    · rw [if_neg hy]
      rfl
  · by_cases hy : y = s
    · rw [if_pos hy, hholds, hy]
      exact h.online u s
    · rw [if_neg hy]
      rfl

/-! ## The calls -/

/-- The name is claimed, or somebody has it. -/
theorem Stands.login (h : Stands w φ) {u : Json} (hs : φ s = .checked u) :
    ((SessionRegistry.login w u s).1 = true ∧
        Stands (SessionRegistry.login w u s).2 (Function.update φ s (.claimed u))) ∨
      ((SessionRegistry.login w u s).1 = false ∧
        Stands (SessionRegistry.login w u s).2 (Function.update φ s .out)) := by
  have hu : Names u := h.names s u (by rw [hs]; rfl)
  have hmine : ∀ v, (v, s) ∉ w.online := by
    intro v hv
    have hholds := (h.online v s).mp hv
    rw [hs] at hholds
    cases hholds
  unfold SessionRegistry.login
  by_cases hany : (w.online.any fun e => u.pyEq e.1) = true
  · rw [if_pos hany]
    refine .inr ⟨rfl, h.onward (.refuse u hs) rfl rfl rfl (by rw [hs]; rfl) (by rw [hs]; rfl) ?_⟩
    intro v hv
    cases hv
  · rw [if_neg hany]
    have hfree : ¬ (rollOf w.sent φ).Online u := by
      rw [h.online_iff]
      rintro ⟨x, hx⟩
      exact hany (List.any_eq_true.mpr ⟨(u, x), hx, hu.pyEq.mpr rfl⟩)
    refine .inl ⟨rfl, h.move (.claim u hs hfree) (fun x => ?_) (fun v x => ?_) ?_⟩
    · by_cases hx : x = s
      · rw [if_pos hx, hx]
        exact (h.username s).trans (by rw [hs]; rfl)
      · rw [if_neg hx]
    · rw [List.mem_append, List.mem_singleton]
      by_cases hx : x = s
      · subst hx
        rw [if_pos rfl]
        simp [hmine v, Phase.holds, eq_comm]
      · simp [hx]
    · intro v hv
      cases hv
      exact hu

/-- The name is given up. -/
theorem Stands.logout (h : Stands w φ) {u : Json} (hs : φ s = .telling u []) :
    Stands (SessionRegistry.logout w u) (Function.update φ s (.gone u)) := by
  have hu : Names u := h.names s u (by rw [hs]; rfl)
  have hmine : (φ s).holds = some u := by
    rw [hs]
    rfl
  refine h.move (.giveUp u hs) (fun x => ?_) (fun v x => ?_) ?_
  · by_cases hx : x = s
    · rw [if_pos hx, hx]
      exact (h.username s).trans (by rw [hs]; rfl)
    · rw [if_neg hx]
      rfl
  · show (v, x) ∈ w.online.filter _ ↔ _
    rw [List.mem_filter, hu.not_pyEq]
    by_cases hx : x = s
    · subst hx
      rw [if_pos rfl, h.online, hmine]
      simp [Phase.holds, eq_comm]
    · rw [if_neg hx]
      refine and_iff_left_of_imp fun hv he => hx ?_
      -- nobody else holds it
      have he : v = u := he
      rw [he] at hv
      exact h.inv.unique x s u ((h.online u x).mp hv) hmine
  · intro v hv
    cases hv
    exact hu

/-- The connection's own name is set, and the registry is left alone. -/
theorem Stands.setUsername (h : Stands w φ) {ψ : Phase Json Sid}
    (hmove : Roll.Move s (rollOf w.sent φ) ((rollOf w.sent φ).put s ψ)) (hholds : ψ.holds = (φ s).holds)
    (huser : ψ.user = (φ s).user) :
    Stands { w with username := Function.update w.username s ψ.name } (Function.update φ s ψ) := by
  refine h.move hmove (fun x => ?_) (fun u x => ?_) fun u hu => h.names s u (huser ▸ hu)
  · by_cases hx : x = s
    · rw [if_pos hx, hx]
      exact Function.update_self ..
    · rw [if_neg hx]
      exact Function.update_of_ne hx ..
  · by_cases hx : x = s
    · rw [if_pos hx, hholds, hx]
      exact h.online u s
    · rw [if_neg hx]

variable [Runtime]

/-- A farewell is sent only if the user is not here, or a login of theirs has
still to tell the same connection. -/
def Timely (w : World) (φ : Sid → Phase Json Sid) (o : Op) : Prop :=
  ∀ x g u, o = .send x g → tells g = some (u, false) →
    (∀ s, (u, s) ∉ w.online) ∨ (rollOf w.sent φ).OwesOn u x

/-- **Every call of a handler** leaves the world where the phases say. -/
theorem Stands.call (h : Stands w φ) {o : Op} {r : Op.Ret o} (hmay : May s (φ s) o)
    (htimely : Timely w φ o) (he : exec o w = (.ok r, w')) :
    Stands w' (Function.update φ s (next (φ s) ⟨o, r⟩)) := by
  have hstay : ∀ {w₁}, next (φ s) ⟨o, r⟩ = φ s → Stands w₁ φ →
      Stands w₁ (Function.update φ s (next (φ s) ⟨o, r⟩)) := by
    intro w₁ hnext h₁
    rwa [hnext, Function.update_eq_self]
  generalize hφ : φ s = ψ at hmay hstay ⊢
  have huser : ∀ {u : Json}, ψ.user = some u → Names u :=
    fun hu => h.names s _ (by rw [hφ]; exact hu)
  cases hmay with
  | newId =>
    cases he
    exact hstay (next_newId ..) (h.same rfl rfl (fun _ _ => rfl) fun _ => rfl)
  | nowMs =>
    cases he
    exact hstay (next_nowMs ..) (h.same rfl rfl (fun _ _ => rfl) fun _ => rfl)
  | name =>
    cases he
    exact hstay (next_getUsername ..) h
  -- a password that is let in is that of an account, so the name can be encoded
  | check name p =>
    obtain ⟨hverify, rfl⟩ := Prod.mk.inj he
    cases r with
    | false => exact hstay rfl h
    | true =>
      refine h.onward (.check (Json.str name) hφ) rfl rfl rfl (by rw [hφ]; rfl) (by rw [hφ]; rfl) ?_
      intro u hu
      cases hu
      obtain ⟨a, -, ha⟩ := SqliteUsers.verify_account hverify
      exact ⟨name, rfl, (Sql.text_str_ok.mp ha).1⟩
  -- the registry answers whether the name was free, and the phase goes by its answer
  | claim u =>
    obtain ⟨hr, rfl⟩ := Prod.mk.inj he
    have hr : (SessionRegistry.login w u s).1 = r := Except.ok.inj hr
    rcases h.login hφ with ⟨hb, hst⟩ | ⟨hb, hst⟩
    · obtain rfl : r = true := hr.symm.trans hb
      exact hst
    · obtain rfl : r = false := hr.symm.trans hb
      exact hst
  | setName u =>
    cases he
    exact h.setUsername (ψ := .named u) (.setName u hφ) (by rw [hφ]; rfl) (by rw [hφ]; rfl)
  -- the names that are read are those who are held at this moment
  | read u =>
    obtain ⟨hr, rfl⟩ := Prod.mk.inj he
    obtain ⟨names, hnames, hmem⟩ := h.usernames
    obtain rfl : names = r := Except.ok.inj (hnames.symm.trans hr)
    refine h.onward (.read u names hφ hmem) rfl rfl rfl (by rw [hφ]; rfl) (by rw [hφ]; rfl) ?_
    intro v hv
    exact huser hv
  -- from here to the greeting nothing that others see is touched
  | again u names =>
    obtain ⟨-, rfl⟩ := Prod.mk.inj he
    exact hstay rfl h
  | contacts u names =>
    obtain ⟨-, rfl⟩ := Prod.mk.inj he
    exact hstay rfl h
  | rooms u names =>
    obtain ⟨-, rfl⟩ := Prod.mk.inj he
    exact hstay rfl h
  | greet u names g htells hg =>
    cases he
    have hu : Names u := huser rfl
    refine h.push (ψ := .welcomed u) ?_ (by rw [hφ]; rfl) (by rw [hφ]; rfl) (by rw [hφ]; rfl)
    rw [rollOf_welcome htells hg]
    refine .greet u names _ hφ fun v hv => ?_
    rw [List.mem_filter, Json.pyEq_comm, hu.not_pyEq]
    exact and_iff_left hv
  -- the others that are told are those found here, not those there when each is told
  | look u =>
    cases he
    refine h.onward (.look u _ hφ (h.others (huser rfl))) rfl rfl rfl (by rw [hφ]; rfl)
      (by rw [hφ]; rfl) ?_
    intro v hv
    exact huser hv
  | tellOn u x l g htells hg =>
    cases he
    refine h.push (ψ := .telling u l) ?_ (by rw [hφ]; rfl) (by rw [hφ]; rfl) (by rw [hφ]; rfl)
    rw [rollOf_tell htells hg]
    exact .tellOn u x l hφ
  | answer g htells hg =>
    cases he
    exact hstay rfl (h.plain htells hg)
  | flush u =>
    refine hstay rfl ?_
    rcases exec_flush he with ⟨-, -, rfl⟩ | ⟨name, -, -, rfl⟩
    · exact h
    · exact h.same rfl rfl (fun _ _ => rfl) fun _ => rfl
  | hand u g htells hg =>
    cases he
    exact hstay rfl (h.plain htells hg)
  | giveUp u =>
    cases he
    exact h.logout hφ
  | dropName u =>
    cases he
    exact h.setUsername (ψ := .parted u) (.dropName u hφ) (by rw [hφ]; rfl) (by rw [hφ]; rfl)
  | lookBack u =>
    cases he
    refine h.onward (.lookBack u _ hφ (h.others (huser rfl))) rfl rfl rfl (by rw [hφ]; rfl)
      (by rw [hφ]; rfl) ?_
    intro v hv
    exact huser hv
  -- the one place where it matters that a farewell is in time
  | tellOff u x l g htells hg =>
    cases he
    refine h.push (ψ := .parting u l) ?_ (by rw [hφ]; rfl) (by rw [hφ]; rfl) (by rw [hφ]; rfl)
    rw [rollOf_tell htells hg]
    refine .tellOff u x l hφ ((htimely x g u rfl htells).imp_left fun hout => ?_)
    rw [h.online_iff]
    rintro ⟨y, hy⟩
    exact hout y hy

/-- The calls of a login at which it can raise: the password check and the queue. -/
def Op.brittle : Op → Bool
  | .usersVerify _ _ | .messagesFlush _ => true
  | _ => false

/-- Nothing else raises. -/
theorem Stands.fail (h : Stands w φ) {o : Op} {e : PyErr} (hmay : May s (φ s) o)
    (he : exec o w = (.error e, w')) : o.brittle = true := by
  generalize hφ : φ s = ψ at hmay
  have hbinds : ∀ {u}, ψ.user = some u → ∃ t, Sql.text u = .ok t :=
    fun hu => (h.names s _ (by rw [hφ]; exact hu)).binds
  have hnames : (SessionRegistry.usernames w, w) ≠ (.error e, w') := by
    obtain ⟨names, hok, -⟩ := h.usernames
    rw [hok]
    intro hbad
    cases hbad
  cases hmay with
  | check name p => rfl
  | flush u => rfl
  | read u => exact absurd he hnames
  | again u names => exact absurd he hnames
  | contacts u names =>
    obtain ⟨t, ht⟩ := hbinds rfl
    have he : (SqliteContacts.of w u, w) = (.error e, w') := he
    rw [SqliteContacts.of, ht] at he
    cases he
  | rooms u names =>
    obtain ⟨t, ht⟩ := hbinds rfl
    have he : (SqliteRooms.roomsOf w u, w) = (.error e, w') := he
    rw [SqliteRooms.roomsOf, ht] at he
    cases he
  | _ => cases he

end Calls

/-! ## The handlers keep to it -/

/-- The protocol of a connection's calls. -/
def presence : Protocol routerSig Sid (Phase Json Sid) where
  may := May
  answers s φ
    | .getUsername s', r => s' = s → r = φ.name
    | _, _ => True
  raises o := o.brittle = true
  next := next

/-- A connection that may take a frame. -/
def Open (φ : Phase Json Sid) : Prop := φ = .out ∨ ∃ u, φ = .telling u []

/-- A connection that is done. -/
def Over (φ : Phase Json Sid) : Prop := φ = .out ∨ ∃ u, φ = .parting u []

section Handlers

variable {α : Type} {s : Sid} {φ : Phase Json Sid} {R : α → Phase Json Sid → Prop}
  {X : Phase Json Sid → Prop}

/-- A call that does not raise, then the rest. -/
theorem presence_call {o : Op} {f : Op.Ret o → RouterM α} (hmay : May s φ o)
    (hsafe : o.brittle = false)
    (hf : ∀ r, presence.answers s φ o r → Follows presence s R X (next φ ⟨o, r⟩) (f r)) :
    Follows presence s R X φ ((Prog.call (S := routerSig) o .pure : RouterM (Op.Ret o)) >>= f) := by
  refine follows_call (P := presence) (S := routerSig) hmay (fun hr => ?_) hf
  have hr : o.brittle = true := hr
  rw [hsafe] at hr
  cases hr

/-- A new frame is made in any phase. -/
theorem frame_follows {type : MessageType} {sender target : Json} {data : Dict} {f : Frame → RouterM α}
    (hf : ∀ g : Frame, g.type = type → g.data = data → Follows presence s R X φ (f g)) :
    Follows presence s R X φ (frame type sender target data >>= f) := by
  refine presence_call (.newId φ) rfl fun id _ => ?_
  rw [next_newId]
  refine presence_call (.nowMs φ) rfl fun ts _ => ?_
  rw [next_nowMs]
  exact hf _ rfl rfl

theorem tells_other {g : Frame} (h : g.type ≠ .presence) : tells g = none := if_neg h

theorem welcomes_other {g : Frame} (h : g.type ≠ .loginOk) : welcomes g = none := if_neg h

/-- A frame that says nothing about anybody goes to the connection itself. -/
theorem send_follows {g : Frame} (hφ : Open φ) (h₁ : g.type ≠ .presence) (h₂ : g.type ≠ .loginOk)
    {f : Unit → RouterM α} (hf : Follows presence s R X φ (f ())) :
    Follows presence s R X φ (send s g >>= f) := by
  have htells := tells_other h₁
  have hwelcomes := welcomes_other h₂
  rcases hφ with rfl | ⟨u, rfl⟩
  · exact presence_call (.answer g htells hwelcomes) rfl fun _ _ => hf
  · exact presence_call (.hand u g htells hwelcomes) rfl fun _ _ => hf

theorem refuse_follows (hφ : Open φ) (code message : Str) :
    Follows presence s (fun _ => Open) Open φ (refuse s code message) := by
  refine frame_follows fun g hg _ => ?_
  exact send_follows (f := .pure) hφ (by rw [hg]; nofun) (by rw [hg]; nofun) hφ

/-- Everybody else is told that the user is here. -/
theorem announce_online (u : Json) : Follows presence s (fun _ φ' => φ' = .telling u []) X (.welcomed u)
    (announce u "ONLINE") := by
  refine frame_follows fun g hg hdata => ?_
  have htells : tells g = some (u, true) := by
    rw [tells, if_pos hg, Frame.get, Frame.get, hdata]
    rfl
  refine presence_call (.look u) rfl fun l _ => ?_
  refine follows_forEach (P := presence) (x := s) (fun l => .telling u l) (fun x l => ?_) l
  exact presence_call (f := .pure) (.tellOn u x l g htells (welcomes_other (by rw [hg]; nofun)))
    rfl fun _ _ => rfl

/-- Everybody else is told that the user has left. -/
theorem announce_offline (u : Json) : Follows presence s (fun _ φ' => φ' = .parting u []) X (.parted u)
    (announce u "OFFLINE") := by
  refine frame_follows fun g hg hdata => ?_
  have htells : tells g = some (u, false) := by
    rw [tells, if_pos hg, Frame.get, Frame.get, hdata]
    rfl
  refine presence_call (.lookBack u) rfl fun l _ => ?_
  refine follows_forEach (P := presence) (x := s) (fun l => .parting u l) (fun x l => ?_) l
  exact presence_call (f := .pure) (.tellOff u x l g htells (welcomes_other (by rw [hg]; nofun)))
    rfl fun _ _ => rfl

/-- The disconnect handler. -/
theorem onDisconnect_follows (hφ : Open φ) :
    Follows presence s (fun _ => Over) Over φ (onDisconnect s) := by
  refine presence_call (.name φ) rfl fun r hr => ?_
  rw [next_getUsername, show r = φ.name from hr rfl]
  rcases hφ with rfl | ⟨u, rfl⟩
  · exact .inl rfl
  · refine presence_call (.giveUp u) rfl fun _ _ => ?_
    refine presence_call (.dropName u) rfl fun _ _ => ?_
    have hmono : ∀ {p : RouterM Unit} {φ}, Follows presence s (fun _ φ' => φ' = .parting u []) Over φ p →
        Follows presence s (fun _ => Over) Over φ p := by
      intro p φ hp
      rw [← bind_pure' p]
      exact hp.bind fun _ φ' hφ' => .inr ⟨u, hφ'⟩
    exact hmono (announce_offline u)

/-- Who else is here, the contacts and the rooms: LOGIN_OK. -/
theorem greet_follows (cfg : Config) (u : Json) :
    Follows presence s (fun _ φ' => φ' = .welcomed u) X (.named u) (greet cfg s u) := by
  refine presence_call (.read u) rfl fun names _ => ?_
  have hcontacts : Follows presence s (fun _ φ' => φ' = .reading u names) X (.reading u names)
      (contactStates cfg u) := by
    unfold contactStates
    split
    · exact rfl
    · refine presence_call (.again u names) rfl fun _ _ => ?_
      exact presence_call (.contacts u names) rfl fun _ _ => rfl
  refine hcontacts.bind fun contacts φ' hφ' => ?_
  rw [hφ']
  refine presence_call (.rooms u names) rfl fun rooms _ => ?_
  refine frame_follows fun g hg hdata => ?_
  have hwelcomes : welcomes g = some (names.filter fun v => !v.pyEq u) := by
    rw [welcomes, if_pos hg, Frame.get, hdata]
    rfl
  exact presence_call (f := .pure) (.greet u names g (tells_other (by rw [hg]; nofun)) hwelcomes)
    rfl fun _ _ => rfl

variable [Runtime]

/-- What waited is handed over. -/
theorem flushPending_follows (cfg : Config) (u : Json) :
    Follows presence s (fun _ => Open) Open (.telling u []) (flushPending cfg s u) := by
  have hopen : Open (.telling u []) := .inr ⟨u, rfl⟩
  unfold flushPending
  split
  · exact hopen
  · refine follows_call (P := presence) (S := routerSig) (May.flush u) (fun _ => hopen) fun rows _ => ?_
    have hrow : ∀ row (_ : List Row), Follows presence s (fun _ φ' => φ' = .telling u []) Open (.telling u [])
        (handRow s u row) := by
      intro row _
      unfold handRow
      cases historyEntry row u with
      | error e => exact hopen
      | ok entry =>
        cases entry with
        | none => exact rfl
        | some entry => exact send_follows (f := .pure) hopen (by simp [flushed]) (by simp [flushed]) rfl
    have hall := follows_forEach (P := presence) (x := s) (fun _ => .telling u []) hrow rows
    rw [← bind_pure' (forEach rows (handRow s u))]
    exact hall.bind fun _ φ' hφ' => hφ' ▸ hopen

theorem welcome_follows (cfg : Config) (u : Json) :
    Follows presence s (fun _ => Open) Open (.claimed u) (welcome cfg s u) := by
  refine presence_call (.setName u) rfl fun _ _ => ?_
  refine (greet_follows cfg u).bind fun _ φ₁ h₁ => ?_
  rw [h₁]
  refine (announce_online u).bind fun _ φ₂ h₂ => ?_
  rw [h₂]
  exact flushPending_follows cfg u

/-- The login handler, for a name that is a string. -/
theorem login_follows (cfg : Config) (f : Frame) (hφ : Open φ)
    (hstr : (f.get "user").truthy = true → ∃ name, f.get "user" = .str name) :
    Follows presence s (fun _ => Open) Open φ (login cfg s f) := by
  refine presence_call (.name φ) rfl fun r hr => ?_
  rw [next_getUsername, show r = φ.name from hr rfl]
  rcases hφ with rfl | ⟨u, rfl⟩
  · have hopen : Open .out := .inl rfl
    dsimp only [Phase.name]
    by_cases hblank : (!(f.get "user").truthy || !(f.get "pass_hash").truthy) = true
    · rw [if_pos hblank]
      exact refuse_follows hopen ..
    · rw [if_neg hblank]
      have hnamed : (f.get "user").truthy = true ∧ (f.get "pass_hash").truthy = true := by
        simpa using hblank
      obtain ⟨name, hname⟩ := hstr hnamed.1
      rw [hname]
      refine follows_call (P := presence) (S := routerSig) (May.check name _) (fun _ => hopen) fun ok _ => ?_
      cases ok with
      | false => exact refuse_follows hopen ..
      | true =>
        refine presence_call (.claim (.str name)) rfl fun free _ => ?_
        cases free with
        | false => exact refuse_follows hopen ..
        | true => exact welcome_follows cfg (.str name)
  · exact refuse_follows (.inr ⟨u, rfl⟩) ..

end Handlers

/-! ## Every interleaving -/

/-- The connections, each with its reader thread, and the world they share. -/
abbrev ServerLanes := Lanes routerSig PyErr Sid Input World

/-- The connection an input comes from. -/
def Input.peer : Input → Sid
  | .frame s _ => s
  | .hangup s => s

/-- A connection logs in, as often as it likes, until it hangs up. -/
def Coming (past : List Input) (i : Input) : Prop :=
  (i.type = some .login ∨ i.type = none) ∧ ∀ j ∈ past, j.type ≠ none

/-- The `user` of a LOGIN is a string, if it is anything. -/
def Spelled : Input → Prop
  | .frame _ f => (f.get "user").truthy = true → ∃ name, f.get "user" = .str name
  | .hangup _ => True

/-- Where the calls of the connections have brought them. -/
def phases (c : ServerLanes) : Sid → Phase Json Sid := c.phase next .out

/-- Nobody is connected yet; the tables may hold anything. -/
structure Unvisited (w : World) : Prop where
  online : w.online = []
  username : ∀ s, w.username s = none
  sent : w.sent = []

/-- What a connection has heard about a user: the last PRESENCE, or else whether
its LOGIN_OK lists them. -/
def heard (sent : List Delivery) (s : Sid) (u : Json) : Option Bool :=
  (told sent s u).or ((rosterOf sent s).map fun names => decide (u ∈ names))

/-- Everybody online has heard the truth about everybody else. -/
def PresenceAgrees (w : World) : Prop :=
  ∀ o s u, (o, s) ∈ w.online → u ≠ o → heard w.sent s u = some (decide (u ∈ w.online.map Prod.fst))

theorem Unvisited.stands {w : World} (h : Unvisited w) : Stands w fun _ => .out := by
  refine ⟨h.username, fun u s => ?_, fun s u hu => (by cases hu), ?_, ?_, ?_, ?_⟩
  · rw [h.online]
    simp [Phase.holds]
  · exact fun s s' u hs => (by cases hs)
  · rw [h.sent]
    exact fun s _ => ⟨fun u => rfl, rfl, fun s' hmem => (by cases hmem)⟩
  · exact fun s hs => hs.elim
  · exact fun s o u hs => (by cases hs)

section Runs

variable [Runtime]

/-- The executions of the login and disconnect handlers, of the inputs that
`admits` allows and the calls that `heeds` allows. -/
abbrev ComingAndGoing (cfg : Config) (admits : Input → Prop) (heeds : ServerLanes → Op → Prop) (w₀ : World)
    (c : ServerLanes) : Prop :=
  Lanes.Reach Ciphertext.exec (Input.prog cfg) Input.peer (fun past i => Coming past i ∧ admits i) heeds w₀ c

/-- How a connection ends: after hanging up it has told everybody, and before
that it may take a frame. -/
def Left : List Input → Phase Json Sid → Prop
  | .hangup _ :: _, φ => Over φ
  | _, φ => Open φ

/-- The handler of an input keeps to the protocol. -/
theorem Input.follows (cfg : Config) {past : List Input} {i : Input} {φ : Phase Json Sid}
    (hc : Coming past i) (hs : Spelled i) (hφ : Left past φ) :
    Follows presence i.peer (fun _ => Left (i :: past)) (Left (i :: past)) φ (i.prog cfg) := by
  have hopen : Open φ := by
    cases past with
    | nil => exact hφ
    | cons j past =>
      cases j with
      | frame s f => exact hφ
      | hangup s => exact absurd rfl (hc.2 _ (List.mem_cons_self ..))
  cases i with
  | hangup s => exact onDisconnect_follows hopen
  | frame s f =>
    have hlogin : f.type = .login := by
      rcases hc.1 with h | h
      · exact Option.some.inj h
      · cases h
    show Follows presence s (fun _ => Open) Open φ (handle cfg s f)
    rw [handle_login cfg s hlogin]
    exact login_follows cfg f hopen hs

/-- A farewell is sent in time. -/
def InTime (c : ServerLanes) (o : Op) : Prop := Timely c.state (phases c) o

/-- Between any two calls the world is where the phases say, and every
connection keeps to the protocol. -/
theorem ComingAndGoing.stands {cfg : Config} {w₀ : World} {c : ServerLanes} (h₀ : Unvisited w₀)
    (h : ComingAndGoing cfg Spelled InTime w₀ c) :
    Stands c.state (phases c) ∧ c.Keeps presence .out Left := by
  refine Lanes.Reach.inv (P := presence) (I := Stands) (E := Left) h₀.stands (.inl rfl) ?_ ?_ ?_ h
  · intro past i φ hi hφ
    exact Input.follows cfg hi.1 hi.2 hφ
  · intro c x o r w' hst hmay htimely he
    refine ⟨?_, hst.call hmay htimely he⟩
    cases o with
    | getUsername s =>
      intro hs
      cases he
      rw [hs]
      exact hst.username x
    | _ => trivial
  · intro w φ x o e w' hst hmay he
    exact ⟨exec_error he, hst.fail hmay he⟩

/-- **Presence agrees whenever no handler is in the middle of anything**, in every
interleaving in which no farewell is late. -/
theorem presence_agrees {cfg : Config} {w₀ : World} {c : ServerLanes} (h₀ : Unvisited w₀)
    (h : ComingAndGoing cfg Spelled InTime w₀ c) (hquiet : c.Quiet) : PresenceAgrees c.state := by
  obtain ⟨hst, hkeeps⟩ := h.stands h₀
  -- a lane that is quiet has had its farewell or is open, and owes nobody anything
  have hrests : ∀ s, (phases c s).Rests := by
    intro s
    have hleft : Left (c.taken s) (phases c s) := (hkeeps s).ended (hquiet s)
    have hcases : Over (phases c s) ∨ Open (phases c s) := by
      cases ht : c.taken s with
      | nil => rw [ht] at hleft; exact .inr hleft
      | cons i past =>
        rw [ht] at hleft
        cases i with
        | frame x f => exact .inr hleft
        | hangup x => exact .inl hleft
    rcases hcases with (ho | ⟨u, ho⟩) | (ho | ⟨u, ho⟩) <;> rw [ho] <;> trivial
  intro o s u ho hu
  obtain ⟨b, hb, hknows⟩ := hst.inv.agree hrests ((hst.online o s).mp ho) hu
  have hin : decide (u ∈ c.state.online.map Prod.fst) = b := by
    have hmem : u ∈ c.state.online.map Prod.fst ↔ b = true := by
      rw [← hb, hst.online_iff, List.mem_map]
      exact ⟨fun ⟨e, he, hv⟩ => ⟨e.2, hv ▸ he⟩, fun ⟨x, hx⟩ => ⟨_, hx, rfl⟩⟩
    cases b <;> simpa using hmem
  rw [hin, heard]
  -- told since, or on the list that came with the login
  rcases hknows with htold | ⟨hnone, names, hnames, hmem⟩
  · rw [show told c.state.sent s u = some b from htold]
    rfl
  · rw [show told c.state.sent s u = none from hnone, show rosterOf c.state.sent s = some names from hnames]
    cases b <;> simpa using hmem

end Runs

namespace Sample

/-- A server with two accounts. -/
def twoAccounts : World :=
  { fresh with accounts := [⟨"a", [], [112], none⟩, ⟨"b", [], [112], none⟩] }

/-- An input is taken, and its handler runs alone. -/
def alone (i : Input) : List (Lanes.Act Sid Input) := .take i :: List.replicate 20 (.call i.peer)

/-- `b` and `a` log in. `a` hangs up and is about to tell `b` when a second
connection of `a` logs in, and tells `b`. -/
def overtaken : List (Lanes.Act Sid Input) :=
  alone (login 0 "b") ++ alone (login 1 "a") ++ (.take (.hangup 1) :: List.replicate 6 (.call 1)) ++
    alone (login 2 "a") ++ [.call 1]

/-- `b` and `a` log in, and `a` hangs up. -/
def orderly : List (Lanes.Act Sid Input) :=
  alone (login 0 "b") ++ alone (login 1 "a") ++ alone (.hangup 1)

end Sample

section Concrete

open Sample

attribute [local instance] sampleRuntime

/-- A check for a timely farewell that looks at the registry alone. -/
def unclaimed (c : ServerLanes) : Op → Bool
  | .send _ g =>
    match tells g with
    | some (u, false) => !(c.state.online.map Prod.fst).contains u
    | _ => true
  | _ => true

theorem inTime_of_unclaimed {c : ServerLanes} {o : Op} (h : unclaimed c o = true) : InTime c o := by
  intro x g u ho htells
  subst ho
  have hout : u ∉ c.state.online.map Prod.fst := by
    simpa [unclaimed, htells] using h
  exact .inl fun s hs => hout (List.mem_map_of_mem hs)

theorem unvisited_twoAccounts : Unvisited twoAccounts := ⟨rfl, fun _ => rfl, rfl⟩

/-- LOGINs under a string and hangups, of connections that have not hung up. -/
def comes (past : List Input) (i : Input) : Bool :=
  (match i with
    | .frame _ f => f.type == .login && (f.get "user").asStr.isSome
    | .hangup _ => true) && past.all fun j => j.type != none

theorem coming_of_comes {past : List Input} {i : Input} (h : comes past i = true) :
    Coming past i ∧ Spelled i := by
  unfold comes at h
  cases i with
  | hangup s => exact ⟨⟨.inr rfl, by simpa using h⟩, trivial⟩
  | frame s f =>
    simp only [Bool.and_eq_true, beq_iff_eq] at h
    obtain ⟨⟨hlogin, hstr⟩, hpast⟩ := h
    refine ⟨⟨.inl (congrArg some hlogin), by simpa using hpast⟩, fun _ => ?_⟩
    cases hu : f.get "user" with
    | str name => exact ⟨name, rfl⟩
    | _ => rw [hu] at hstr; cases hstr

/-- The server after a schedule. -/
@[irreducible] def played (H : ServerLanes → Op → Bool) (acts : List (Lanes.Act Sid Input)) : ServerLanes :=
  Lanes.play Ciphertext.exec (Input.prog chatServer) Input.peer comes H twoAccounts acts

theorem played_quiet (H : ServerLanes → Op → Bool) (acts : List (Lanes.Act Sid Input))
    (h : ∀ a ∈ acts, ((played H acts).lane (a.who Input.peer)).Ended) : (played H acts).Quiet := by
  unfold played at h ⊢
  exact Lanes.play_quiet _ _ h

/-- A schedule of connections that come and go is one of the executions. -/
theorem played_reach {admits : Input → Prop} {heeds : ServerLanes → Op → Prop} {H : ServerLanes → Op → Bool}
    (hT : ∀ i, Spelled i → admits i) (hH : ∀ c o, H c o = true → heeds c o)
    (acts : List (Lanes.Act Sid Input)) : ComingAndGoing chatServer admits heeds twoAccounts (played H acts) := by
  unfold played
  exact Lanes.Reach.play (fun _ _ hi => ⟨(coming_of_comes hi).1, hT _ (coming_of_comes hi).2⟩) hH _ acts

/-- **A late farewell.** `b` ends up told that `a` has left, and `a` is online. -/
theorem presence_overtaken : ¬ ∀ (cfg : Config) (w₀ : World) (c : ServerLanes), Unvisited w₀ →
    ComingAndGoing cfg (fun _ => True) (fun _ _ => True) w₀ c → c.Quiet → PresenceAgrees c.state := by
  intro h
  have hreach : ComingAndGoing chatServer (fun _ => True) (fun _ _ => True) twoAccounts
      (played (fun _ _ => true) overtaken) :=
    played_reach (fun _ _ => trivial) (fun _ _ _ => trivial) overtaken
  have hended : ∀ a ∈ overtaken, ((played (fun _ _ => true) overtaken).lane (a.who Input.peer)).Ended := by
    decide +kernel
  have honline : (Json.str "b", 0) ∈ (played (fun _ _ => true) overtaken).state.online := by decide +kernel
  have hheard : heard (played (fun _ _ => true) overtaken).state.sent 0 (.str "a") ≠
      some (decide (Json.str "a" ∈ (played (fun _ _ => true) overtaken).state.online.map Prod.fst)) := by
    decide +kernel
  have hquiet := played_quiet (fun _ _ => true) overtaken hended
  exact hheard (h chatServer twoAccounts _ unvisited_twoAccounts hreach hquiet (.str "b") 0 (.str "a") honline
    (by decide))

/-- A farewell in time. -/
theorem presence_orderly : PresenceAgrees (played unclaimed orderly).state := by
  have hreach : ComingAndGoing chatServer Spelled InTime twoAccounts (played unclaimed orderly) :=
    played_reach (fun _ h => h) (fun _ _ => inTime_of_unclaimed) orderly
  have hended : ∀ a ∈ orderly, ((played unclaimed orderly).lane (a.who Input.peer)).Ended := by
    decide +kernel
  have hquiet := played_quiet unclaimed orderly hended
  exact presence_agrees unvisited_twoAccounts hreach hquiet

end Concrete

end Ciphertext
