import Ciphertext.Server.Presence

/-!
# One connection per username

The registry entry of a name and the `username` of the connection that claimed it
are changed by separate calls, with calls of other connections in between. A
connection holds a name from its claim of it to its own logout (`held`); what it
holds and what its `username` says then differ only inside its own handlers, which
is the protocol `tenancy` that every handler keeps to. The registry is the table
of who holds what in every interleaving (`Tenants`), so a name has one holder at
a time.

`one_holder` is the result, at any moment of any interleaving of any handlers: two
connections never hold equal names, the registry finds the holder of a name and nobody
where there is none, a logout leaves the entries of others alone, and LOGIN_OK is for
the holder of the name it confirms. A connection that is in the middle of its own login
or hangup may hold a name it is not named by yet, or any more; nobody else may.
-/

namespace Ciphertext

open Prog MessageRouter

/-! ## Holding a name -/

/-- A connection holds a name from the claim that succeeded to its logout. -/
def holding : Option Json → Event routerSig → Option Json
  | _, ⟨.sessionsLogin u _, true⟩ => some u
  | _, ⟨.sessionsLogout _, _⟩ => none
  | h, _ => h

/-- What a connection sets as its name. -/
def naming : Option Json → Event routerSig → Option Json
  | _, ⟨.setUsername _ u, _⟩ => u
  | n, _ => n

/-- What a connection holds, and what it is named. -/
abbrev Tenure : Type := Option Json × Option Json

namespace Tenure

/-- Between two handlers a connection is named what it holds. -/
def Rest (φ : Tenure) : Prop := φ.1 = φ.2

/-- The calls of connection `s`, by what it holds and is named: it claims a name
when it has none, takes the name it holds, gives up the name it is called, and
sends LOGIN_OK to itself, for the name it holds. -/
def May (s : Sid) (φ : Tenure) : Op → Prop
  | .sessionsLogin _ t => t = s ∧ φ = (none, none)
  | .sessionsLogout u => φ = (some u, some u)
  | .setUsername t v => t = s ∧ v = φ.1
  | .send t g => g.type = .loginOk → t = s ∧ φ.1 = some (g.get "user")
  | _ => True

/-- The calls that cannot raise. -/
def NeverRaises : Op → Prop
  | .getUsername _ | .setUsername _ _ | .sessionsLogin _ _ | .sessionsLogout _ => True
  | _ => False

end Tenure

/-- How a connection comes to hold a name and gives it up. -/
def tenancy : Protocol routerSig Sid Tenure where
  may := Tenure.May
  answers s φ
    | .getUsername t, r => t = s → r = φ.2
    | _, _ => True
  raises o := ¬ Tenure.NeverRaises o
  next φ e := (holding φ.1 e, naming φ.2 e)

/-! ## Every handler keeps to it -/

section Walk

variable {s : Sid} {φ : Tenure} {X : Tenure → Prop}

/-- Calls that change neither what the connection holds nor what it is named. -/
def modestPrint : Footprint where
  sends _ g := g.type ≠ .loginOk
  writes o := Field.online ∉ o.writesTo ∧ Field.username ∉ o.writesTo ∧ Field.sent ∉ o.writesTo

theorem tenancy_of_uses {α : Type} {p : RouterM α} (hp : p.Uses modestPrint.allows) (hX : X φ) :
    Follows tenancy s (fun _ φ' => φ' = φ) X φ p := by
  have hother : ∀ o, modestPrint.allows o → (∀ u t, o ≠ .sessionsLogin u t) ∧ (∀ u, o ≠ .sessionsLogout u) ∧
      (∀ t u, o ≠ .setUsername t u) ∧ ∀ t g, o = .send t g → g.type ≠ .loginOk := by
    intro o ho
    rcases ho with hq | hw | ⟨t, g, rfl, hg⟩
    · cases o <;> simp [Op.quiet] at hq ⊢
    · have hw : Field.online ∉ o.writesTo ∧ Field.username ∉ o.writesTo ∧ Field.sent ∉ o.writesTo := hw
      cases o <;> simp [Op.writesTo] at hw ⊢
    · refine ⟨fun _ _ he => ?_, fun _ he => ?_, fun _ _ he => ?_, fun t' g' he => ?_⟩ <;> cases he
      exact hg
  refine hp.follows (P := tenancy) (fun o ho r => ?_) (fun o ho => ?_) hX
  · obtain ⟨h₁, h₂, h₃, -⟩ := hother o ho
    cases o with
    | sessionsLogin u t => exact absurd rfl (h₁ u t)
    | sessionsLogout u => exact absurd rfl (h₂ u)
    | setUsername t u => exact absurd rfl (h₃ t u)
    | _ => rfl
  · obtain ⟨h₁, h₂, h₃, h₄⟩ := hother o ho
    cases o with
    | sessionsLogin u t => exact absurd rfl (h₁ u t)
    | sessionsLogout u => exact absurd rfl (h₂ u)
    | setUsername t u => exact absurd rfl (h₃ t u)
    | send t g => exact fun hg => absurd hg (h₄ t g rfl)
    | _ => trivial

/-- One call that may raise where `X` holds, then the rest. -/
theorem tenancy_call {β : Type} {o : Op} {f : Op.Ret o → RouterM β} {R : β → Tenure → Prop}
    (hmay : Tenure.May s φ o) (hX : X φ)
    (hf : ∀ r, tenancy.answers s φ o r → Follows tenancy s R X (tenancy.next φ ⟨o, r⟩) (f r)) :
    Follows tenancy s R X φ ((Prog.call (S := routerSig) o .pure : RouterM (Op.Ret o)) >>= f) :=
  follows_call (P := tenancy) (S := routerSig) hmay (fun _ => hX) hf

/-- One call that cannot raise. -/
theorem tenancy_sure {β : Type} {o : Op} {f : Op.Ret o → RouterM β} {R : β → Tenure → Prop}
    (hmay : Tenure.May s φ o) (ho : Tenure.NeverRaises o)
    (hf : ∀ r, tenancy.answers s φ o r → Follows tenancy s R X (tenancy.next φ ⟨o, r⟩) (f r)) :
    Follows tenancy s R X φ ((Prog.call (S := routerSig) o .pure : RouterM (Op.Ret o)) >>= f) :=
  follows_call (P := tenancy) (S := routerSig) hmay (fun h => absurd ho h) hf

/-- A refusal leaves everything as it was. -/
theorem refuse_tenancy (hφ : φ.Rest) (code message : Str) :
    Follows tenancy s (fun _ => Tenure.Rest) Tenure.Rest φ (refuse s code message) := by
  have hrefuse : (refuse s code message).Uses modestPrint.allows :=
    Footprint.refuse fun g hg => by simp [modestPrint, hg]
  exact (tenancy_of_uses hrefuse hφ).mono fun _ φ' h => h ▸ hφ

theorem announce_tenancy (hφ : φ.Rest) (u : Json) (state : Str) :
    Follows tenancy s (fun _ φ' => φ' = φ) Tenure.Rest φ (announce u state) :=
  tenancy_of_uses (announce_uses fun _ g hg => by simp [modestPrint, hg]) hφ

/-- The disconnect handler gives up the name that the connection is called. -/
theorem onDisconnect_tenancy (hφ : φ.Rest) :
    Follows tenancy s (fun _ => Tenure.Rest) Tenure.Rest φ (onDisconnect s) := by
  obtain ⟨held, name⟩ := φ
  obtain rfl : held = name := hφ
  refine tenancy_sure trivial trivial fun r hr => ?_
  obtain rfl : r = held := hr rfl
  cases r with
  | none => exact rfl
  | some u =>
    refine tenancy_sure rfl trivial fun _ _ => ?_
    refine tenancy_sure ⟨rfl, rfl⟩ trivial fun _ _ => ?_
    have hrest : Tenure.Rest (none, none) := rfl
    exact (announce_tenancy hrest u "OFFLINE").mono fun _ φ' h => h ▸ hrest

/-- LOGIN_OK goes to the connection that holds the name. -/
theorem greet_tenancy (cfg : Config) (u : Json) :
    Follows tenancy s (fun _ φ' => φ' = (some u, some u)) Tenure.Rest (some u, some u) (greet cfg s u) := by
  have hrest : Tenure.Rest (some u, some u) := rfl
  refine tenancy_call trivial hrest fun online _ => ?_
  have hcontacts := tenancy_of_uses (s := s) (contactStates_uses (F := modestPrint) cfg u) hrest
  refine hcontacts.bind fun contacts φ' hφ' => ?_
  rw [hφ']
  refine tenancy_call trivial hrest fun rooms _ => ?_
  refine tenancy_call trivial hrest fun id _ => tenancy_call trivial hrest fun ts _ => ?_
  exact tenancy_call (f := .pure) (fun _ => ⟨rfl, rfl⟩) hrest fun _ _ => rfl

variable [Runtime]

theorem welcome_tenancy (cfg : Config) (u : Json) :
    Follows tenancy s (fun _ => Tenure.Rest) Tenure.Rest (some u, none) (welcome cfg s u) := by
  have hrest : Tenure.Rest (some u, some u) := rfl
  refine tenancy_sure ⟨rfl, rfl⟩ trivial fun _ _ => ?_
  refine (greet_tenancy cfg u).bind fun _ φ₁ h₁ => ?_
  rw [h₁]
  refine (announce_tenancy hrest u "ONLINE").bind fun _ φ₂ h₂ => ?_
  rw [h₂]
  have hflush := tenancy_of_uses (s := s) (flushPending_uses (F := modestPrint) cfg s u
    (fun g hg => by simp [modestPrint, hg]) (by simp [modestPrint, Op.writesTo])) hrest
  exact hflush.mono fun _ φ' h => h ▸ hrest

/-- The login handler claims a name only for a connection without one. -/
theorem login_tenancy (cfg : Config) (f : Frame) (hφ : φ.Rest) :
    Follows tenancy s (fun _ => Tenure.Rest) Tenure.Rest φ (login cfg s f) := by
  obtain ⟨held, name⟩ := φ
  obtain rfl : held = name := hφ
  refine tenancy_sure trivial trivial fun r hr => ?_
  obtain rfl : r = held := hr rfl
  have hrest : ∀ h : Option Json, Tenure.Rest (h, h) := fun _ => rfl
  cases r with
  | some u => exact refuse_tenancy (hrest _) ..
  | none =>
    dsimp only
    split
    · exact refuse_tenancy (hrest _) ..
    · refine tenancy_call trivial (hrest _) fun ok _ => ?_
      cases ok with
      | false => exact refuse_tenancy (hrest _) ..
      | true =>
        refine tenancy_sure ⟨rfl, rfl⟩ trivial fun claimed _ => ?_
        cases claimed with
        | false => exact refuse_tenancy (hrest _) ..
        | true => exact welcome_tenancy cfg (f.get "user")

/-- **Every input's handler.** -/
theorem Input.tenancy (cfg : Config) (i : Input) (hφ : φ.Rest) :
    Follows Ciphertext.tenancy i.peer (fun _ => Tenure.Rest) Tenure.Rest φ (i.prog cfg) := by
  cases i with
  | hangup s => exact onDisconnect_tenancy hφ
  | frame s f =>
    by_cases hlogin : f.type = .login
    · show Follows Ciphertext.tenancy s _ _ φ (handle cfg s f)
      rw [handle_login cfg s hlogin]
      exact login_tenancy cfg f hφ
    · have hmodest : (handle cfg s f).Uses modestPrint.allows := by
        refine Footprint.weaken (handle_uses cfg s f) (fun t g hg => ?_) fun o ho => ?_
        · have hg : g.type ∈ .error :: f.type.yields := hg
          show g.type ≠ .loginOk
          intro he
          rw [he] at hg
          cases ht : f.type <;> simp [ht, MessageType.yields] at hg hlogin
        · have ho : f.type.writes o = true := ho
          show Field.online ∉ o.writesTo ∧ Field.username ∉ o.writesTo ∧ Field.sent ∉ o.writesTo
          cases o <;> simp [Op.writesTo]
          all_goals cases ht : f.type <;> simp [ht, MessageType.writes] at ho hlogin
      exact (tenancy_of_uses hmodest hφ).mono fun _ φ' h => h ▸ hφ

end Walk

/-! ## The registry is the table of holders -/

/-- The registry and the names are what the connections' calls have made them, and
no two connections hold equal names. -/
structure Tenants (w : World) (φ : Sid → Tenure) : Prop where
  username : ∀ s, w.username s = (φ s).2
  online : ∀ u s, (u, s) ∈ w.online ↔ (φ s).1 = some u
  unique : ∀ s t u v, (φ s).1 = some u → (φ t).1 = some v → u.pyEq v = true → s = t

section Calls

variable {w : World} {φ : Sid → Tenure}

/-- Looking a name up finds its holder. -/
theorem Tenants.get_iff (h : Tenants w φ) (u : Json) (s : Sid) :
    SessionRegistry.get w u = some s ↔ ∃ v, (φ s).1 = some v ∧ u.pyEq v = true := by
  unfold SessionRegistry.get
  constructor
  · intro hget
    obtain ⟨e, he, rfl⟩ := Option.map_eq_some_iff.mp hget
    have hpy := List.find?_some he
    exact ⟨e.1, (h.online e.1 e.2).mp (List.mem_of_find?_eq_some he), hpy⟩
  · intro hv
    obtain ⟨v, hs, huv⟩ := hv
    have hmem : (v, s) ∈ w.online := (h.online v s).mpr hs
    have hfound : (w.online.find? fun e => u.pyEq e.1).isSome = true :=
      List.find?_isSome.mpr ⟨(v, s), hmem, huv⟩
    obtain ⟨e, he⟩ := Option.isSome_iff_exists.mp hfound
    have hes : (φ e.2).1 = some e.1 := (h.online e.1 e.2).mp (List.mem_of_find?_eq_some he)
    have hpy := List.find?_some he
    have heq : e.1.pyEq v = true := Json.pyEq_trans (by rw [Json.pyEq_comm]; exact hpy) huv
    rw [he, Option.map_some, h.unique e.2 s e.1 v hes hs heq]

/-- A call that touches neither the registry nor a name. -/
theorem Tenants.same (h : Tenants w φ) {w' : World} {s : Sid} {φ' : Tenure} (hφ : φ' = φ s)
    (hu : w'.username = w.username) (ho : w'.online = w.online) :
    Tenants w' (Function.update φ s φ') := by
  rw [hφ, Function.update_eq_self]
  exact ⟨fun t => by rw [hu]; exact h.username t, fun u t => by rw [ho]; exact h.online u t, h.unique⟩

/-- A claim: refused when the name is held, and an entry for its holder when not. -/
theorem Tenants.claim (h : Tenants w φ) {s : Sid} {u : Json} (hs : φ s = (none, none)) :
    Tenants (SessionRegistry.login w u s).2
      (Function.update φ s (holding none ⟨.sessionsLogin u s, (SessionRegistry.login w u s).1⟩, none)) := by
  unfold SessionRegistry.login
  by_cases hany : (w.online.any fun e => u.pyEq e.1) = true
  · rw [if_pos hany]
    exact h.same hs.symm rfl rfl
  · rw [if_neg hany]
    have hfree : ∀ t v, (φ t).1 = some v → u.pyEq v = false := by
      intro t v ht
      have hmem : (v, t) ∈ w.online := (h.online v t).mpr ht
      by_cases huv : u.pyEq v = true
      · exact absurd (List.any_eq_true.mpr ⟨(v, t), hmem, huv⟩) hany
      · simpa using huv
    show Tenants { w with online := w.online ++ [(u, s)] } (Function.update φ s (some u, none))
    refine ⟨fun t => ?_, fun v t => ?_, fun t t' v v' ht ht' hvv => ?_⟩
    · by_cases hts : t = s
      · rw [hts, Function.update_self, h.username, hs]
      · rw [Function.update_of_ne hts]
        exact h.username t
    · rw [List.mem_append, List.mem_singleton, h.online]
      by_cases hts : t = s
      · rw [hts, Function.update_self, hs]
        simp [eq_comm]
      · rw [Function.update_of_ne hts]
        simp [hts]
    · by_cases hts : t = s
      · by_cases hts' : t' = s
        · rw [hts, hts']
        · rw [hts, Function.update_self] at ht
          rw [Function.update_of_ne hts'] at ht'
          have hno := hfree t' v' ht'
          rw [Option.some.inj ht, hvv] at hno
          cases hno
      · rw [Function.update_of_ne hts] at ht
        by_cases hts' : t' = s
        · rw [hts', Function.update_self] at ht'
          have hno := hfree t v ht
          rw [Option.some.inj ht', Json.pyEq_comm, hvv] at hno
          cases hno
        · rw [Function.update_of_ne hts'] at ht'
          exact h.unique t t' v v' ht ht' hvv

/-- A logout removes the entries of names that equal one's own: only one's own. -/
theorem Tenants.mem_logout (h : Tenants w φ) {s : Sid} {u : Json} (hs : (φ s).1 = some u) (v : Json)
    (t : Sid) : (v, t) ∈ (SessionRegistry.logout w u).online ↔ t ≠ s ∧ (φ t).1 = some v := by
  unfold SessionRegistry.logout
  rw [List.mem_filter, h.online]
  constructor
  · intro hv
    obtain ⟨ht, hne⟩ := hv
    refine ⟨fun hts => ?_, ht⟩
    rw [hts, hs] at ht
    rw [← Option.some.inj ht, Json.pyEq_refl] at hne
    cases hne
  · intro hv
    obtain ⟨hts, ht⟩ := hv
    refine ⟨ht, ?_⟩
    by_cases huv : u.pyEq v = true
    · exact absurd (h.unique s t u v hs ht huv).symm hts
    · simpa using huv

theorem Tenants.logout (h : Tenants w φ) {s : Sid} {u : Json} (hs : φ s = (some u, some u)) :
    Tenants (SessionRegistry.logout w u) (Function.update φ s (none, some u)) := by
  have hmem := h.mem_logout (s := s) (u := u) (by rw [hs])
  refine ⟨fun t => ?_, fun v t => ?_, fun t t' v v' ht ht' hvv => ?_⟩
  · by_cases hts : t = s
    · rw [hts, Function.update_self]
      show w.username s = some u
      rw [h.username, hs]
    · rw [Function.update_of_ne hts]
      exact h.username t
  · rw [hmem]
    by_cases hts : t = s
    · rw [hts, Function.update_self]
      simp
    · rw [Function.update_of_ne hts]
      simp [hts]
  · have hold : ∀ x, (Function.update φ s (none, some u) x).1 ≠ none → x ≠ s := by
      intro x hx hxs
      rw [hxs, Function.update_self] at hx
      exact hx rfl
    have hts := hold t (by rw [ht]; nofun)
    have hts' := hold t' (by rw [ht']; nofun)
    rw [Function.update_of_ne hts] at ht
    rw [Function.update_of_ne hts'] at ht'
    exact h.unique t t' v v' ht ht' hvv

/-- A connection takes a name or drops it. -/
theorem Tenants.name (h : Tenants w φ) (s : Sid) (n : Option Json) :
    Tenants { w with username := Function.update w.username s n } (Function.update φ s ((φ s).1, n)) := by
  have hheld : ∀ t, (Function.update φ s ((φ s).1, n) t).1 = (φ t).1 := by
    intro t
    by_cases hts : t = s
    · rw [hts, Function.update_self]
    · rw [Function.update_of_ne hts]
  refine ⟨fun t => ?_, fun v t => ?_, fun t t' v v' ht ht' hvv => ?_⟩
  · by_cases hts : t = s
    · rw [hts]
      simp
    · simp only [Function.update_of_ne hts]
      exact h.username t
  · rw [hheld]
    exact h.online v t
  · rw [hheld] at ht ht'
    exact h.unique t t' v v' ht ht' hvv

/-- **Every call a handler can make.** -/
theorem Tenants.call [Runtime] (h : Tenants w φ) {s : Sid} {o : Op} (hmay : Tenure.May s (φ s) o)
    {r : Op.Ret o} {w' : World} (he : exec o w = (.ok r, w')) :
    tenancy.answers s (φ s) o r ∧ Tenants w' (Function.update φ s (tenancy.next (φ s) ⟨o, r⟩)) := by
  have hother : Field.online ∉ o.writesTo → Field.username ∉ o.writesTo → tenancy.next (φ s) ⟨o, r⟩ = φ s →
      Tenants w' (Function.update φ s (tenancy.next (φ s) ⟨o, r⟩)) := by
    intro h₁ h₂ hnext
    have ho : (exec o w).2.online = w.online := exec_same o w h₁
    have hu : (exec o w).2.username = w.username := exec_same o w h₂
    rw [he] at ho hu
    exact h.same hnext hu ho
  cases o with
  | getUsername t =>
    cases he
    refine ⟨fun hts => ?_, hother (by simp [Op.writesTo]) (by simp [Op.writesTo]) rfl⟩
    rw [hts]
    exact h.username s
  | sessionsLogin u t =>
    obtain ⟨rfl, hs⟩ : t = s ∧ φ s = (none, none) := hmay
    cases he
    refine ⟨trivial, ?_⟩
    rw [hs]
    exact h.claim hs
  | sessionsLogout u =>
    have hs : φ s = (some u, some u) := hmay
    cases he
    refine ⟨trivial, ?_⟩
    rw [hs]
    exact h.logout hs
  | setUsername t n =>
    obtain ⟨rfl, -⟩ : t = s ∧ n = (φ s).1 := hmay
    cases he
    exact ⟨trivial, h.name t n⟩
  | _ => exact ⟨trivial, hother (by simp [Op.writesTo]) (by simp [Op.writesTo]) rfl⟩

end Calls

/-! ## Every interleaving -/

/-- What a connection holds, by the calls it has made. -/
def held (c : ServerLanes) (s : Sid) : Option Json := c.phase holding none s

section Runs

variable [Runtime]

/-- The executions of all connections' handlers, call by call, on any inputs. -/
abbrev Connections (cfg : Config) (w₀ : World) (c : ServerLanes) : Prop :=
  Lanes.Reach Ciphertext.exec (Input.prog cfg) Input.peer (fun _ _ => True) (fun _ _ => True) w₀ c

omit [Runtime] in
/-- What is held is the first half of the phase. -/
theorem phase_fst (c : ServerLanes) (s : Sid) : (c.phase tenancy.next (none, none) s).1 = held c s := by
  have hfold : ∀ (es : List (Event routerSig)) (φ : Tenure),
      (es.foldl tenancy.next φ).1 = es.foldl holding φ.1 := by
    intro es
    induction es with
    | nil => exact fun φ => rfl
    | cons e es ih =>
      intro φ
      rw [List.foldl_cons, List.foldl_cons, ih]
      rfl
  exact hfold _ _

/-- **One connection per username**, at any moment of any interleaving. -/
structure OneHolder (c : ServerLanes) : Prop where
  /-- nobody else holds an equal name -/
  unique : ∀ s t u v, held c s = some u → held c t = some v → u.pyEq v = true → s = t
  /-- the registry finds the holder, and finds nobody when there is none -/
  registry : ∀ u s, SessionRegistry.get c.state u = some s ↔ ∃ v, held c s = some v ∧ u.pyEq v = true
  /-- a logout that is about to happen leaves other connections' entries -/
  logout : ∀ s u k, c.lane s = .call (.sessionsLogout u) k →
    ∀ t v, t ≠ s → SessionRegistry.get c.state v = some t →
      SessionRegistry.get (SessionRegistry.logout c.state u) v = some t
  /-- a LOGIN_OK that is about to be sent is for the holder of the name it confirms -/
  welcome : ∀ s x g k, c.lane s = .call (.send x g) k → g.type = .loginOk →
    x = s ∧ ∀ t u, held c t = some u → u.pyEq (g.get "user") = true → t = s

/-- Whatever the threads have done so far, the registry and the sessions' names go together,
and no thread is out of its part of the protocol. -/
theorem Connections.tenants {cfg : Config} {w₀ : World} {c : ServerLanes} (h₀ : Unvisited w₀)
    (h : Connections cfg w₀ c) : Tenants c.state (c.phase tenancy.next (none, none)) ∧
      c.Keeps tenancy (none, none) fun _ => Tenure.Rest := by
  have hstart : Tenants w₀ fun _ => (none, none) := by
    refine ⟨h₀.username, fun u s => ?_, nofun⟩
    rw [h₀.online]
    simp
  refine Lanes.Reach.inv (P := tenancy) (I := Tenants) (E := fun _ => Tenure.Rest) hstart rfl ?_ ?_ ?_ h
  · intro past i φ _ hφ
    exact i.tenancy cfg hφ
  · intro c s o r w' hI hmay _ he
    exact hI.call hmay he
  · intro w φ s o e w' _ _ he
    refine ⟨exec_error he, fun hsure => ?_⟩
    cases o with
    | getUsername | setUsername | sessionsLogin | sessionsLogout => cases (Prod.mk.inj he).1
    | _ => exact hsure

/-- **At most one connection holds a name**, the registry knows which, and neither another's
logout nor another's LOGIN takes it away: in every interleaving of the calls of any number of
connections. -/
theorem one_holder {cfg : Config} {w₀ : World} {c : ServerLanes} (h₀ : Unvisited w₀)
    (h : Connections cfg w₀ c) : OneHolder c := by
  obtain ⟨hten, hkeeps⟩ := h.tenants h₀
  -- A connection about to make a call is allowed to.
  have hmay : ∀ s o k, c.lane s = .call o k → Tenure.May s (c.phase tenancy.next (none, none) s) o := by
    intro s o k hs
    have hfollows := hkeeps s
    rw [hs] at hfollows
    exact hfollows.1
  refine ⟨fun s t u v => ?_, fun u s => ?_, fun s u k hs t v hts hget => ?_, fun s x g k hs hg => ?_⟩
  · rw [← phase_fst, ← phase_fst]
    exact hten.unique s t u v
  · rw [hten.get_iff]
    simp only [phase_fst]
  · have hphase : c.phase tenancy.next (none, none) s = (some u, some u) := hmay s _ k hs
    obtain ⟨v', hv', hvv⟩ := (hten.get_iff v t).mp hget
    have hafter := hten.logout hphase
    refine (hafter.get_iff v t).mpr ⟨v', ?_, hvv⟩
    rw [Function.update_of_ne hts]
    exact hv'
  · obtain ⟨rfl, hheld⟩ := hmay s _ k hs hg
    refine ⟨rfl, fun t u ht hu => ?_⟩
    rw [← phase_fst] at ht
    exact hten.unique t x u _ ht hheld hu

end Runs

section Concrete

open Sample

attribute [local instance] sampleRuntime

/-- In the middle of a second login under a name that is held. -/
theorem overtaken_holder : OneHolder (Lanes.play Ciphertext.exec (Input.prog chatServer) Input.peer
    (fun _ _ => true) (fun _ _ => true) twoAccounts overtaken) :=
  one_holder unvisited_twoAccounts (Lanes.Reach.play (fun _ _ _ => trivial) (fun _ _ _ => trivial) _ _)

end Concrete

end Ciphertext
