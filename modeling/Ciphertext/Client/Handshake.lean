import Ciphertext.Client.Closedown

/-!
# Before LOGIN_OK

`Session.start` and the supervisor build one connection after the other and log
in on each. What a user relies on meanwhile is that nothing of theirs goes out
over a connection on which the server has not said LOGIN_OK: such a connection
is never ONLINE and never the session's own, it has no heartbeat, and nothing but
the handshake is ever put in its outbox (`Session.unlogged_of_unheard`).

The threads around `login` share a slot for its reply and the set of awaited
types. What the slot can hold is followed through the program (`Idle`, `Asking`):
the answer to a REGISTER cannot be taken for one to the LOGIN after it.
-/

namespace Ciphertext

namespace Client

open Prog

/-! ## `Session.start` -/

/-- `register`. -/
def register (i : ConnId) (username passHash : Str) (pubkey : Option Str) : NetM Frame := do
  require i .authenticating "register"
  let (id, ts) ← access .newFrame
  let data : Dict := [("user", .str username), ("pass_hash", .str passHash)]
  let published : Dict := (pubkey.map fun key => (Str.ofString "pubkey", Json.str key)).toList
  request i { type := .register, data := data ++ published, id := .str id, ts } [.ok, .error]

/-- An ERROR that ends `start`: the account may exist already. -/
def refusesAccount (reply : Frame) : Bool := reply.type = .error && reply.get "code" ≠ .str "USER_EXISTS"

/-- The registering half of `start`: the reply it ends with, if it does. -/
def enrol (cfg : Config) (pubkey : Option Str) (i : ConnId) : NetM (Option Frame) := do
  let reply ← register i cfg.username cfg.passHash pubkey
  if refusesAccount reply then
    close i
    .pure (some reply)
  else .pure none

/-- The half that logs in. -/
def enter (cfg : Config) (i : ConnId) : NetM Frame := do
  let reply ← login i cfg.username cfg.passHash
  if reply.type = .error then
    close i
    .pure reply
  else
    access (.setConnection i)
    access .resetBackoff
    .pure reply

namespace Session

/-- `start`. What it raises leaves no supervisor behind. -/
def start (cfg : Config) (pubkey : Option Str) (registers : Bool) : NetM Frame := do
  let i ← access .build
  connect cfg i
  match ← (if registers then enrol cfg pubkey i else .pure none) with
  | some reply => .pure reply
  | none => enter cfg i

/-- A session from its first step: `start`, and then the supervisor, if nobody
refused. -/
def opened (cfg : Config) (pubkey : Option Str) (registers : Bool) : Session where
  shared := {}
  supervisor := do
    let reply ← start cfg pubkey registers
    .pure (reply.type ≠ .error : Bool)

end Session

/-! ## A connection without LOGIN_OK -/

namespace ServerConnection

/-- Nobody has logged in on it, and nothing but the handshake has been queued. -/
structure Unlogged (c : ServerConnection) : Prop where
  machine : c.machine ≠ .online
  username : c.username = none
  heartbeat : c.heartbeat = false
  outbox : ∀ f, some f ∈ c.outbox → f.type = .register ∨ f.type = .login
  accepting : ∀ f, c.reader = .accepting f → f.type ≠ .loginOk
  reply : ∀ f, c.reply = some f → f.type ≠ .loginOk
  /-- One reply at a time. -/
  slot : c.reply ≠ none → c.awaitTypes = [] ∧ ∀ f, c.reader ≠ .accepting f

/-- No reply is awaited, or there, or on its way. -/
structure Idle (c : ServerConnection) : Prop where
  awaitTypes : c.awaitTypes = []
  reply : c.reply = none
  accepting : ∀ f, c.reader ≠ .accepting f

/-- A request waits: unless it is a LOGIN_OK, the reply has a type in `A`. -/
structure Asking (A : MessageType → Prop) (c : ServerConnection) : Prop where
  awaitTypes : ∀ t ∈ c.awaitTypes, t = .loginOk ∨ A t
  accepting : ∀ f, c.reader = .accepting f → A f.type
  reply : ∀ f, c.reply = some f → A f.type

theorem unlogged_new : ({} : ServerConnection).Unlogged where
  machine := by simp
  username := rfl
  heartbeat := rfl
  outbox f h := by cases h
  accepting f h := by cases h
  reply f h := by cases h
  slot h := absurd rfl h

theorem idle_new : ({} : ServerConnection).Idle := ⟨rfl, rfl, fun f h => by cases h⟩

/-- What the connection's own threads keep, as long as no LOGIN_OK comes in. -/
structure Stable (P : ServerConnection → Prop) : Prop where
  read : ∀ c x, (∀ f, x = Read.frame f → f.type ≠ .loginOk) → P c → P (c.read x)
  write : ∀ c, P c → P c.write
  heartbeat : ∀ c, P c → P c.missedPongs

/-- Only LOGIN_OK leads to ONLINE. -/
theorem transition_ne_online {s s' : ConnectionState} {e : Event} (he : e ≠ .loginOk)
    (h : s.transition e = .ok s') : s' ≠ .online := by
  cases s <;> cases e <;> first | exact absurd rfl he | (cases h <;> simp)

variable {c : ServerConnection}

theorem missedPongs_eq (h : c.heartbeat = false) : c.missedPongs = c := by
  unfold missedPongs
  rw [h]
  rfl

theorem mem_write {x : Option Frame} (h : x ∈ c.write.outbox) : x ∈ c.outbox := List.mem_of_mem_tail h

/-- The reader goes elsewhere, with nothing in its hands. -/
theorem Unlogged.moved (h : c.Unlogged) {r : ReaderAt} (hr : ∀ f, r ≠ .accepting f) :
    ({ c with reader := r } : ServerConnection).Unlogged :=
  { h with
    accepting := fun f hf => absurd hf (hr f)
    slot := fun hs => ⟨(h.slot hs).1, hr⟩ }

/-- A release of the waiting thread. -/
theorem Unlogged.ready (h : c.Unlogged) (b : Bool) : ({ c with replyReady := b } : ServerConnection).Unlogged :=
  { h with }

/-- One step of the reader, when the frame it may come up with is no LOGIN_OK. -/
theorem Unlogged.read (h : c.Unlogged) {x : Read} (hx : ∀ f, x = .frame f → f.type ≠ .loginOk) :
    (c.read x).Unlogged := by
  unfold ServerConnection.read
  cases hr : c.reader with
  | notStarted => exact h
  | ended => exact h
  | reading =>
    cases x with
    | gone => exact h.moved (by simp)
    | frame f =>
      simp only
      split
      next hawaited =>
        refine { h with accepting := ?_, slot := ?_ }
        · intro g hg
          cases hg
          exact hx f rfl
        · intro hs
          -- something is awaited, so the slot is empty
          rw [(h.slot hs).1] at hawaited
          cases hawaited
      next => exact h
  | accepting f =>
    refine { h with accepting := by simp, reply := ?_, slot := fun _ => ⟨rfl, by simp⟩ }
    intro g hg
    cases hg
    exact h.accepting f hr
  | answering => exact (h.moved (r := .reading) (by simp)).ready true
  | noticing =>
    simp only
    split
    · exact h.moved (by simp)
    · split
      · exact h.moved (by simp)
      · exact h.moved (by simp)
  | losing =>
    simp only
    split
    next m hm => exact { h.moved (r := .releasing) (by simp) with machine := transition_ne_online (by simp) hm }
    next => exact h.moved (by simp)
  | releasing => exact (h.moved (r := .ended) (by simp)).ready true

/-- One step of a reader that is asked for nothing. -/
theorem Idle.read (h : c.Idle) (x : Read) : (c.read x).Idle := by
  unfold ServerConnection.read
  cases hr : c.reader with
  | notStarted => exact h
  | ended => exact h
  | reading =>
    cases x with
    | gone => exact { h with accepting := by simp }
    | frame f =>
      simp only [h.awaitTypes]
      exact h
  | accepting f => exact absurd hr (h.accepting f)
  | answering => exact { h with accepting := by simp }
  | noticing =>
    simp only
    split
    · exact { h with accepting := by simp }
    · split <;> exact { h with accepting := by simp }
  | losing =>
    simp only
    split <;> exact { h with accepting := by simp }
  | releasing => exact { h with accepting := by simp }

/-- One step of the reader while a request waits. -/
theorem Asking.read {A : MessageType → Prop} (h : c.Asking A) {x : Read} (hx : ∀ f, x = .frame f → f.type ≠ .loginOk) :
    (c.read x).Asking A := by
  unfold ServerConnection.read
  cases hr : c.reader with
  | notStarted => exact h
  | ended => exact h
  | reading =>
    cases x with
    | gone => exact { h with accepting := by simp }
    | frame f =>
      simp only
      split
      next hawaited =>
        refine { h with accepting := ?_ }
        intro g hg
        cases hg
        have hmem := h.awaitTypes _ (List.contains_iff_mem.mp hawaited)
        exact hmem.resolve_left (hx f rfl)
      next => exact h
  | accepting f =>
    refine { h with accepting := by simp, awaitTypes := by simp, reply := ?_ }
    intro g hg
    cases hg
    exact h.accepting f hr
  | answering => exact { h with accepting := by simp }
  | noticing =>
    simp only
    split
    · exact { h with accepting := by simp }
    · split <;> exact { h with accepting := by simp }
  | losing =>
    simp only
    split <;> exact { h with accepting := by simp }
  | releasing => exact { h with accepting := by simp }

theorem Unlogged.write (h : c.Unlogged) : c.write.Unlogged :=
  { h with outbox := fun f hf => h.outbox f (mem_write hf) }

/-- Before `_request`. -/
def Fresh (c : ServerConnection) : Prop := c.Unlogged ∧ c.Idle

/-- During it. -/
def Awaiting (A : MessageType → Prop) (c : ServerConnection) : Prop := c.Unlogged ∧ c.Asking A

theorem stable_unlogged : Stable Unlogged where
  read _ _ hx h := h.read hx
  write _ h := h.write
  heartbeat _ h := by rwa [missedPongs_eq h.heartbeat]

theorem stable_fresh : Stable Fresh where
  read _ x hx h := ⟨h.1.read hx, h.2.read x⟩
  write _ h := ⟨h.1.write, { h.2 with }⟩
  heartbeat _ h := by rwa [missedPongs_eq h.1.heartbeat]

theorem stable_awaiting (A : MessageType → Prop) : Stable (Awaiting A) where
  read _ _ hx h := ⟨h.1.read hx, h.2.read hx⟩
  write _ h := ⟨h.1.write, { h.2 with }⟩
  heartbeat _ h := by rwa [missedPongs_eq h.1.heartbeat]

end ServerConnection

/-! ## What one step does to one connection -/

namespace Handshake

open ServerConnection

/-- What one call of the supervisor does to connection `i`. -/
inductive Touched (i : ConnId) : Access → ServerConnection → ServerConnection → Prop
  | same (o : Access) (c : ServerConnection) : Touched i o c c
  | built (c : ServerConnection) : Touched i .build c {}
  | moved {e : Event} {c : ServerConnection} {m : ConnectionState} (h : c.machine.transition e = .ok m) :
      Touched i (.transition i e) c { c with machine := m }
  | reading (c : ServerConnection) : Touched i (.startThreads i) c { c with reader := .reading }
  | expecting (types : List MessageType) (c : ServerConnection) :
      Touched i (.expect i types) c { c with reply := none, replyReady := false, awaitTypes := types }
  | queued (f : Frame) (c : ServerConnection) :
      Touched i (.putNowait i f) c { c with outbox := c.outbox ++ [some f] }
  | forgot (c : ServerConnection) : Touched i (.forget i) c { c with awaitTypes := [] }
  | taken (c : ServerConnection) : Touched i (.takeReply i) c { c with reply := none, awaitTypes := [] }
  | named (u : Str) (c : ServerConnection) : Touched i (.setUsername i u) c { c with username := some u }
  | beating (c : ServerConnection) : Touched i (.startHeartbeat i) c { c with heartbeat := true }
  | closing (c : ServerConnection) : Touched i (.setClosing i) c { c with closing := true }
  | released (c : ServerConnection) : Touched i (.setReplyReady i) c { c with replyReady := true }
  | hungUp (c : ServerConnection) : Touched i (.hangUp i) c { c with outbox := c.outbox ++ [none] }

/-- An update of one connection, seen from connection `i`. -/
theorem touched_update {i j : ConnId} {o : Access} {s : Shared} {f : ServerConnection → ServerConnection}
    (h : j = i → Touched i o (s.connections i) (f (s.connections i))) :
    Touched i o (s.connections i) ((s.update j f).connections i) := by
  by_cases hj : j = i
  · subst hj
    rw [Shared.update_connections_self]
    exact h rfl
  · rw [Shared.update_connections_ne s (Ne.symm hj)]
    exact .same o _

theorem exec_touched {x : Outside} {o : Access} {s s' : Shared} {r : o.Ret} (h : o.exec x s = some (r, s'))
    (i : ConnId) : Touched i o (s.connections i) (s'.connections i) := by
  -- most accesses change one field of one connection; those that may refuse are taken apart first
  cases o with
  | transition j e =>
    simp only [Access.exec] at h
    split at h
    · cases h
      exact .same _ _
    next m hm =>
      cases h
      refine touched_update fun hj => ?_
      subst hj
      exact .moved hm
  | putNowait j f =>
    simp only [Access.exec] at h
    split at h
    · cases h
      refine touched_update fun hj => ?_
      subst hj
      exact .queued f _
    · cases h
      exact .same _ _
  | nextDelay =>
    simp only [Access.exec] at h
    split at h <;> cases h <;> exact .same _ _
  | replyWait j =>
    simp only [Access.exec] at h
    split at h
    · cases h
      exact .same _ _
    · split at h
      · cases h
        exact .same _ _
      · cases h
  | hangUp j =>
    cases h
    refine touched_update fun hj => ?_
    subst hj
    split
    · exact .hungUp _
    · exact .same _ _
  | build =>
    cases h
    exact touched_update (f := fun _ => {}) fun _ => .built _
  | startThreads j | expect j types | forget j | takeReply j | setUsername j u | startHeartbeat j
  | setClosing j | setReplyReady j =>
    cases h
    refine touched_update fun hj => ?_
    subst hj
    constructor
  | _ =>
    cases h
    exact .same _ _

/-- The session's own connection changes hands in two places only. -/
theorem exec_connection {x : Outside} {o : Access} {s s' : Shared} {r : o.Ret} (h : o.exec x s = some (r, s')) :
    s'.connection = s.connection ∨ s'.connection = none ∨ ∃ j, o = .setConnection j ∧ s'.connection = some j := by
  cases o with
  | setConnection j =>
    cases h
    exact .inr (.inr ⟨j, rfl, rfl⟩)
  | takeConnection =>
    cases h
    exact .inr (.inl rfl)
  | transition j e | putNowait j f | nextDelay =>
    simp only [Access.exec] at h
    split at h <;> cases h <;> exact .inl rfl
  | replyWait j =>
    simp only [Access.exec] at h
    split at h
    · cases h
      exact .inl rfl
    · split at h
      · cases h
        exact .inl rfl
      · cases h
  | _ =>
    cases h
    exact .inl rfl

/-! ## The calls that keep a connection unlogged -/

/-- The call does not take connection `i` for logged in, and puts nothing but the
handshake in its outbox. -/
def Tame (i : ConnId) : Access → Prop
  | .setConnection j => j ≠ i
  | .setUsername j _ => j ≠ i
  | .startHeartbeat j => j ≠ i
  | .transition j e => j = i → e ≠ .loginOk
  | .putNowait j f => j = i → f.type = .register ∨ f.type = .login
  | _ => True

/-- And it asks for no reply on it. -/
def Calm (i : ConnId) (o : Access) : Prop := Tame i o ∧ ∀ types, o ≠ .expect i types

theorem unlogged_touched {i : ConnId} {o : Access} {c c' : ServerConnection} (ho : Tame i o) (h : c.Unlogged)
    (ht : Touched i o c c') : c'.Unlogged := by
  cases ht with
  | same => exact h
  | built => exact unlogged_new
  | moved hm => exact { h with machine := transition_ne_online (ho rfl) hm }
  | reading => exact h.moved (by simp)
  | expecting types => exact { h with reply := by simp, slot := by simp }
  | queued f =>
    refine { h with outbox := ?_ }
    intro g hg
    rcases List.mem_append.mp hg with hg | hg
    · exact h.outbox g hg
    · obtain rfl : g = f := by simpa using hg
      exact ho rfl
  | forgot => exact { h with slot := fun hs => ⟨rfl, (h.slot hs).2⟩ }
  | taken => exact { h with reply := by simp, slot := by simp }
  | named => exact absurd rfl ho
  | beating => exact absurd rfl ho
  | closing => exact { h with }
  | released => exact h.ready true
  | hungUp =>
    refine { h with outbox := ?_ }
    intro g hg
    exact h.outbox g (by simpa using hg)

theorem idle_touched {i : ConnId} {o : Access} {c c' : ServerConnection} (ho : ∀ types, o ≠ .expect i types)
    (h : c.Idle) (ht : Touched i o c c') : c'.Idle := by
  cases ht with
  | same => exact h
  | built => exact idle_new
  | reading => exact { h with accepting := by simp }
  | expecting types => exact absurd rfl (ho types)
  | forgot => exact { h with awaitTypes := rfl }
  | taken => exact { h with awaitTypes := rfl, reply := rfl }
  | _ => exact { h with }

/-! ## A connection nobody holds -/

/-- Connection `i` is not the session's, and `P` is true of it. -/
structure Held (i : ConnId) (P : ServerConnection → Prop) (s : Shared) : Prop where
  apart : s.connection ≠ some i
  holds : P (s.connections i)

/-- The others' steps, when no LOGIN_OK comes in on `i`. -/
def Around (i : ConnId) (_ : Access) (s s' : Shared) : Prop :=
  ∃ m, (∀ f, m = .reader i (.frame f) → f.type ≠ .loginOk) ∧ s' = s.move m

/-- The supervisor's own. -/
def Mine (o : Access) (s : Shared) (r : o.Ret) (s' : Shared) : Prop := ∃ x, o.exec x s = some (r, s')

variable {i : ConnId} {P P' : ServerConnection → Prop} {s s' : Shared}

theorem Held.mono (h : Held i P s) (hP : ∀ c, P c → P' c) : Held i P' s := ⟨h.apart, hP _ h.holds⟩

/-- A step on some connection. -/
theorem Held.update (h : Held i P s) {j : ConnId} {f : ServerConnection → ServerConnection}
    (hf : j = i → P (f (s.connections i))) : Held i P (s.update j f) := by
  refine ⟨h.apart, ?_⟩
  by_cases hj : j = i
  · subst hj
    rw [Shared.update_connections_self]
    exact hf rfl
  · rw [Shared.update_connections_ne s (Ne.symm hj)]
    exact h.holds

/-- Whoever sends or closes does it on the session's own connection, and that is
another one. -/
theorem Held.around (hP : Stable P) {o : Access} (h : Held i P s) (ho : Around i o s s') : Held i P s' := by
  obtain ⟨m, hm, rfl⟩ := ho
  have hnot : ∀ {j}, s.connection = some j → j ≠ i := by
    intro j hj he
    exact h.apart (he ▸ hj)
  cases m with
  | supervisor x => exact h
  | reader j x =>
    refine h.update (f := fun c => c.read x) fun hj => hP.read _ x ?_ h.holds
    subst hj
    intro f hf
    exact hm f (hf ▸ rfl)
  | writer j => exact h.update fun _ => hP.write _ h.holds
  | heartbeat j => exact h.update fun _ => hP.heartbeat _ h.holds
  | send f =>
    simp only [Shared.move]
    split
    · exact h
    next j hj => exact h.update fun he => absurd he (hnot hj)
  | stop => exact ⟨h.apart, h.holds⟩
  | closeConnection =>
    simp only [Shared.move]
    split
    · exact h
    next j hj => exact ⟨by simp, (h.update fun he => absurd he (hnot hj)).holds⟩

/-- One of the supervisor's steps. -/
theorem Held.mine {o : Access} {r : o.Ret} (h : Held i P s) (hx : Mine o s r s') (ho : o ≠ .setConnection i)
    (hP : ∀ c c', P c → Touched i o c c' → P' c') : Held i P' s' := by
  obtain ⟨x, hx⟩ := hx
  refine ⟨?_, hP _ _ h.holds (exec_touched hx i)⟩
  rcases exec_connection hx with he | he | ⟨j, rfl, he⟩
  · rw [he]
    exact h.apart
  · rw [he]
    simp
  · rw [he]
    intro hj
    cases hj
    exact ho rfl

theorem Tame.apart {o : Access} (ho : Tame i o) : o ≠ .setConnection i := by
  intro he
  subst he
  exact ho rfl

theorem Held.tame {o : Access} {r : o.Ret} (h : Held i Unlogged s) (ho : Tame i o) (hx : Mine o s r s') :
    Held i Unlogged s' := h.mine hx ho.apart fun _ _ hc => unlogged_touched ho hc

theorem Held.calm {o : Access} {r : o.Ret} (h : Held i Fresh s) (ho : Calm i o) (hx : Mine o s r s') :
    Held i Fresh s' :=
  h.mine hx ho.1.apart fun _ _ hc ht => ⟨unlogged_touched ho.1 hc.1 ht, idle_touched ho.2 hc.2 ht⟩

/-! ## The supervisor's code -/

/-- A program runs as long as no LOGIN_OK comes in on `i`. The connection stays
unlogged all along, and `P` is true of it at the end. -/
abbrev Keeps {α : Type} (i : ConnId) (P : α → ServerConnection → Prop) (p : NetM α) (s : Shared) : Prop :=
  p.Within (Around i) Mine (Held i Unlogged) (fun _ => Held i Unlogged) (fun a => Held i (P a)) s

theorem Held.unlogged (h : Held i Fresh s) : Held i Unlogged s := h.mono fun _ hc => hc.1

theorem keeps_of_tame {α : Type} {p : NetM α} (hp : p.Uses (Tame i)) (hs : Held i Unlogged s) :
    Keeps i (fun _ => Unlogged) p s :=
  hp.within hs (fun _ h => h) (fun _ _ _ h ho => h.around stable_unlogged ho) fun _ _ _ _ ho h hx => h.tame ho hx

theorem keeps_of_calm {α : Type} {p : NetM α} (hp : p.Uses (Calm i)) (hs : Held i Fresh s) :
    Keeps i (fun _ => Fresh) p s := by
  have hwithin : p.Within (Around i) Mine (Held i Unlogged) (fun _ => Held i Fresh) (fun _ => Held i Fresh) s :=
    hp.within hs (fun _ h => h.unlogged) (fun _ _ _ h ho => h.around stable_fresh ho)
      fun _ _ _ _ ho h hx => h.calm ho hx
  exact hwithin.mono (fun _ _ h => h.unlogged) fun _ _ h => h

/-- A call on another connection. -/
theorem tame_on {j : ConnId} (hj : j ≠ i) {o : Access} (ho : o.on j) : Tame i o := by
  cases o with
  | setConnection k => cases ho
  | setUsername k u => exact fun hk => hj (ho.symm.trans hk)
  | startHeartbeat k => exact fun hk => hj (ho.symm.trans hk)
  | transition k e => exact fun hk => absurd (ho.symm.trans hk) hj
  | putNowait k f => exact fun hk => absurd (ho.symm.trans hk) hj
  | _ => trivial

theorem transition_uses {A : Access → Prop} {j : ConnId} {e : Event} (h : A (.transition j e)) :
    (transition j e).Uses A := by
  refine ⟨h, fun r => ?_⟩
  cases r with
  | ok m => trivial
  | error err => trivial

/-- `close`, on any connection. -/
theorem close_tame (i j : ConnId) : (close j).Uses (Tame i) := by
  refine ⟨trivial, fun closing => ?_⟩
  cases closing with
  | true => trivial
  | false =>
    refine ⟨trivial, fun _ => ⟨trivial, fun closed => ?_⟩⟩
    have hrest : Prog.Uses (Tame i) (do access (.setReplyReady j); access (.hangUp j) : NetM Unit) :=
      ⟨trivial, fun _ => ⟨trivial, fun _ => trivial⟩⟩
    cases closed with
    | true => exact hrest
    | false => exact (transition_uses fun _ => by simp).bind fun _ => hrest

/-- `connect` asks for nothing. -/
theorem connect_calm (cfg : Config) (i : ConnId) : (connect cfg i).Uses (Calm i) := by
  have hstep : ∀ e, e ≠ .loginOk → (transition i e).Uses (Calm i) := by
    intro e he
    exact transition_uses ⟨fun _ => he, by simp⟩
  refine (hstep _ (by simp)).bind fun _ => ⟨⟨trivial, by simp⟩, fun r => ?_⟩
  rcases r with (exc | exc) | ⟨⟩
  · exact (hstep _ (by simp)).bind fun _ => trivial
  · exact (hstep _ (by simp)).bind fun _ => trivial
  · exact ⟨⟨trivial, by simp⟩, fun _ => hstep _ (by simp)⟩

theorem require_calm (i : ConnId) (state : ConnectionState) (action : Str) :
    (require i state action).Uses (Calm i) := by
  refine ⟨⟨trivial, by simp⟩, fun now => ?_⟩
  show Prog.Uses _ (if now ≠ state then (Prog.raise _ : NetM Unit) else Prog.pure ())
  split
  · trivial
  · trivial

variable {A : MessageType → Prop}

/-- The end of a request that came to nothing. -/
theorem gives_up {α : Type} {e : NetError} {Q : α → Shared → Prop} (hs : Held i Unlogged s) :
    (access (.forget i) >>= fun _ => (Prog.raise e : NetM α)).Within (Around i) Mine (Held i Unlogged)
      (fun _ => Held i Unlogged) Q s := by
  refine Prog.within_call_bind (Held i Unlogged) hs (fun _ h => h) (fun _ _ h ho => h.around stable_unlogged ho) ?_
  intro s r s' h hx
  have h' : Held i Unlogged s' := h.tame (o := .forget i) trivial hx
  exact ⟨h', h'⟩

/-- `_request` for one of the two frames of the handshake: the reply is of an
awaited type, LOGIN_OK apart, and nothing is left in the slot. -/
theorem request_keeps {f : Frame} {types : List MessageType} (hf : f.type = .register ∨ f.type = .login)
    (htypes : ∀ t ∈ types, t = .loginOk ∨ A t) (hs : Held i Fresh s) :
    (request i f types).Within (Around i) Mine (Held i Unlogged) (fun _ => Held i Unlogged)
      (fun reply s => A reply.type ∧ Held i Fresh s) s := by
  have hwaits : ∀ {s : Shared}, Held i (Awaiting A) s → Held i Unlogged s := fun h => h.mono fun _ hc => hc.1
  have haround : ∀ {o : Access} (s s' : Shared), Held i (Awaiting A) s → Around i o s s' → Held i (Awaiting A) s' :=
    fun _ _ h ho => h.around (stable_awaiting A) ho
  -- what was in the slot is thrown away, and the reader has nothing in its hands
  refine Prog.within_call_bind (Held i Fresh) hs (fun _ h => h.unlogged)
    (fun _ _ h ho => h.around stable_fresh ho) ?_
  intro s _ s' h hx
  have hasked : Held i (Awaiting A) s' := by
    obtain ⟨x, hx⟩ := hx
    cases hx
    refine ⟨h.apart, ?_⟩
    rw [Shared.update_connections_self]
    exact ⟨unlogged_touched (i := i) (o := .expect i types) trivial h.holds.1 (.expecting types _), htypes,
      fun f hr => absurd hr (h.holds.2.accepting f), by simp⟩
  refine Prog.within_call_bind _ hasked (fun _ h => hwaits h) haround ?_
  intro s put s' h hx
  have hsent : Held i (Awaiting A) s' := by
    have htame : Tame i (.putNowait i f) := fun _ => hf
    refine h.mine hx htame.apart fun c c' hc ht => ⟨unlogged_touched htame hc.1 ht, ?_⟩
    cases ht with
    | same => exact hc.2
    | queued => exact { hc.2 with }
  cases put with
  | false => exact gives_up (hwaits hsent)
  | true =>
    refine Prog.within_call_bind _ hsent (fun _ h => hwaits h) haround ?_
    intro s ready s' h hx
    have hwaited : Held i (Awaiting A) s' := by
      refine h.mine hx (by simp) fun c c' hc ht => ?_
      cases ht with
      | same => exact hc
    cases ready with
    | false => exact gives_up (hwaits hwaited)
    | true =>
      refine Prog.within_call_bind _ hwaited (fun _ h => hwaits h) haround ?_
      intro s reply s' h hx
      obtain ⟨x, hx⟩ := hx
      cases hx
      have hunlogged : Held i Unlogged (s.update i fun c => { c with reply := none, awaitTypes := [] }) :=
        (hwaits h).tame (o := .takeReply i) trivial ⟨{}, rfl⟩
      cases hreply : (s.connections i).reply with
      | none => exact ⟨hunlogged, hunlogged⟩
      | some g =>
        refine ⟨hunlogged, h.holds.2.reply g hreply, hunlogged.apart, hunlogged.holds, ?_⟩
        -- one reply at a time: there is no other on its way
        have hslot := (h.holds.1.slot (by simp [hreply])).2
        rw [Shared.update_connections_self]
        exact ⟨rfl, rfl, hslot⟩

/-- A new frame, between the check of the state and the request. -/
theorem stamped_within {α : Type} {Q : α → Shared → Prop} {f : Str × Int → NetM α} (hs : Held i Fresh s)
    (hf : ∀ stamp s, Held i Fresh s →
      (f stamp).Within (Around i) Mine (Held i Unlogged) (fun _ => Held i Unlogged) Q s) :
    (access .newFrame >>= f).Within (Around i) Mine (Held i Unlogged) (fun _ => Held i Unlogged) Q s := by
  refine Prog.within_call_bind (Held i Fresh) hs (fun _ h => h.unlogged)
    (fun _ _ h ho => h.around stable_fresh ho) ?_
  intro s stamp s' h hx
  exact hf stamp s' (h.calm (o := .newFrame) ⟨trivial, by simp⟩ hx)

/-- `register`, and the slot is empty after it. -/
theorem register_keeps {username passHash : Str} {pubkey : Option Str} (hs : Held i Fresh s) :
    Keeps i (fun _ => Fresh) (register i username passHash pubkey) s := by
  refine (keeps_of_calm (require_calm i _ _) hs).bind fun _ s _ hs => ?_
  refine stamped_within hs fun stamp s hs => ?_
  refine (request_keeps (A := fun _ => True) (.inl rfl) ?_ hs).mono (fun _ _ h => h) fun _ _ h => h.2
  exact fun _ _ => .inr trivial

/-- `login` is refused. -/
theorem login_keeps {username passHash : Str} (hs : Held i Fresh s) :
    (login i username passHash).Within (Around i) Mine (Held i Unlogged) (fun _ => Held i Unlogged)
      (fun reply s => reply.type = .error ∧ Held i Unlogged s) s := by
  refine (keeps_of_calm (require_calm i _ _) hs).bind fun _ s _ hs => ?_
  refine stamped_within hs fun stamp s hs => ?_
  refine (request_keeps (A := fun t => t = .error) (.inr rfl) (by simp) hs).bind fun reply s _ hs => ?_
  have hno : reply.type ≠ .loginOk := by simp [hs.1]
  rw [if_neg hno]
  have hrefused : (transition i .loginRefused).Uses (Tame i) := transition_uses fun _ => by simp
  exact (keeps_of_tame hrefused hs.2.unlogged).bind fun _ s h hs' => ⟨h, hs.1, hs'⟩

/-- The guarded block of `_reconnect`, on the connection itself: what it returns is
a refusal. -/
theorem attempt_keeps {cfg : Config} (hs : Held i Fresh s) :
    (attempt cfg i).Within (Around i) Mine (Held i Unlogged) (fun _ => Held i Unlogged)
      (fun outcome s => (∀ reply, outcome = some reply → reply.type = .error) ∧ Held i Unlogged s) s := by
  refine Prog.Within.tryCatch (Y := fun _ => Held i Unlogged) ?_ fun e s _ hs => ?_
  · refine (keeps_of_calm (connect_calm cfg i) hs).bind fun _ s _ hs => ?_
    refine (login_keeps hs).bind fun reply s h hs => ⟨h, ?_, hs.2⟩
    intro reply' he
    cases he
    exact hs.1
  · by_cases hc : e.caught = true
    · rw [if_pos hc]
      exact (keeps_of_tame (close_tame i i) hs).bind fun _ s h hs => ⟨h, by simp, hs⟩
    · rw [if_neg hc]
      exact ⟨hs, hs⟩

/-- A new connection: either it is `i`, and then there is nothing to it yet, or it
is another. -/
theorem build_within {α : Type} {Q : α → Shared → Prop} {f : ConnId → NetM α} (hs : Held i Unlogged s)
    (hown : ∀ s, Held i Fresh s →
      (f i).Within (Around i) Mine (Held i Unlogged) (fun _ => Held i Unlogged) Q s)
    (hother : ∀ j s, j ≠ i → Held i Unlogged s →
      (f j).Within (Around i) Mine (Held i Unlogged) (fun _ => Held i Unlogged) Q s) :
    (access .build >>= f).Within (Around i) Mine (Held i Unlogged) (fun _ => Held i Unlogged) Q s := by
  refine Prog.within_call_bind (Held i Unlogged) hs (fun _ h => h) (fun _ _ h ho => h.around stable_unlogged ho) ?_
  intro s j s' h hx
  have h' : Held i Unlogged s' := h.tame (o := .build) trivial hx
  by_cases hj : j = i
  · subst hj
    refine hown s' ⟨h'.apart, h'.holds, ?_⟩
    obtain ⟨x, hx⟩ := hx
    cases hx
    show ((s.update s.built fun _ => {}).connections s.built).Idle
    rw [Shared.update_connections_self]
    exact idle_new
  · exact hother j s' hj h'

/-- One call that does not concern `i`. -/
theorem tame_bind {α : Type} {P : α → ServerConnection → Prop} {o : Access} {f : o.Ret → NetM α} (ho : Tame i o)
    (hs : Held i Unlogged s) (hf : ∀ r s, Held i Unlogged s → Keeps i P (f r) s) : Keeps i P (access o >>= f) s := by
  refine Prog.within_call_bind (Held i Unlogged) hs (fun _ h => h) (fun _ _ h ho => h.around stable_unlogged ho) ?_
  intro s r s' h hx
  exact hf r s' (h.tame ho hx)

/-- Connections that got as far as LOGIN_OK are others. -/
theorem published_tame {j : ConnId} (hj : j ≠ i) : (do
    access (.setConnection j)
    access .countReconnect
    access .resetBackoff : NetM Unit).Uses (Tame i) := ⟨hj, fun _ => ⟨trivial, fun _ => ⟨trivial, fun _ => trivial⟩⟩⟩

/-- `_reconnect`. -/
theorem reconnect_keeps {cfg : Config} (hs : Held i Unlogged s) : Keeps i (fun _ => Unlogged) (reconnect cfg) s := by
  refine tame_bind trivial hs fun dead s hs => ?_
  have hdead : (closeDead dead).Uses (Tame i) := by
    cases dead with
    | none => trivial
    | some dead => exact close_tame i dead
  refine (keeps_of_tame hdead hs).bind fun _ s _ hs => ?_
  refine build_within hs (fun s hs => ?_) fun j s hj hs => ?_
  · refine (attempt_keeps hs).bind fun outcome s _ hs => ?_
    cases outcome with
    | none => exact ⟨hs.2, hs.2⟩
    | some reply =>
      simp only [if_pos (hs.1 reply rfl)]
      exact keeps_of_tame (close_tame i i) hs.2
  · have hattempt : (attempt cfg j).Uses (Tame i) := (attempt_uses cfg j).mono fun _ ho => tame_on hj ho
    refine (keeps_of_tame hattempt hs).bind fun outcome s _ hs => ?_
    cases outcome with
    | none => exact ⟨hs, hs⟩
    | some reply =>
      by_cases he : reply.type = .error
      · simp only [if_pos he]
        exact keeps_of_tame (close_tame i j) hs
      · simp only [if_neg he]
        exact keeps_of_tame (published_tame hj) hs

theorem resting_tame (i : ConnId) (c : Option ConnId) : (resting c).Uses (Tame i) := by
  cases c with
  | none => trivial
  | some j =>
    refine ⟨trivial, fun can => ?_⟩
    cases can with
    | true => trivial
    | false => exact ⟨trivial, fun _ => trivial⟩

/-- One pass of the supervisor's loop. -/
theorem watch_keeps {cfg : Config} (hs : Held i Unlogged s) : Keeps i (fun _ => Unlogged) (watch cfg) s := by
  refine tame_bind trivial hs fun stop s hs => ?_
  cases stop with
  | true => exact ⟨hs, hs⟩
  | false =>
    refine tame_bind trivial hs fun connection s hs => ?_
    refine (keeps_of_tame (resting_tame i connection) hs).bind fun rest s _ hs => ?_
    cases rest with
    | true => exact ⟨hs, hs⟩
    | false =>
      refine tame_bind trivial hs fun delay s hs => ?_
      cases delay with
      | error e => exact ⟨hs, hs⟩
      | ok d =>
        refine tame_bind trivial hs fun stop s hs => ?_
        cases stop with
        | true => exact ⟨hs, hs⟩
        | false => exact (reconnect_keeps hs).bind fun _ s h hs => ⟨h, hs⟩

/-! ## `start` -/

theorem register_uses (i : ConnId) (u p : Str) (pubkey : Option Str) : (register i u p pubkey).Uses (Access.on i) := by
  have hrequire : (require i .authenticating "register").Uses (Access.on i) := by
    refine ⟨rfl, fun now => ?_⟩
    show Prog.Uses _ (if now ≠ .authenticating then (Prog.raise _ : NetM Unit) else Prog.pure ())
    split
    · trivial
    · trivial
  exact hrequire.bind fun _ => ⟨trivial, fun stamp => request_uses i _ _⟩

theorem enrol_uses (cfg : Config) (pubkey : Option Str) (i : ConnId) : (enrol cfg pubkey i).Uses (Access.on i) := by
  refine (register_uses i _ _ _).bind fun reply => ?_
  show Prog.Uses _ (if refusesAccount reply then _ else _)
  split
  · exact (close_uses i).bind fun _ => trivial
  · trivial

/-- The registering half, on the connection itself: the slot is empty again if
`start` goes on. -/
theorem enrol_keeps {cfg : Config} {pubkey : Option Str} (hs : Held i Fresh s) :
    Keeps i (fun outcome c => c.Unlogged ∧ (outcome = none → c.Idle)) (enrol cfg pubkey i) s := by
  refine (register_keeps hs).bind fun reply s _ hs => ?_
  cases hr : refusesAccount reply with
  | true =>
    simp only [if_pos]
    exact (keeps_of_tame (close_tame i i) hs.unlogged).bind fun _ s h hs => ⟨h, hs.apart, hs.holds, by simp⟩
  | false => exact ⟨hs.unlogged, hs.apart, hs.holds.1, fun _ => hs.holds.2⟩

theorem enter_keeps {cfg : Config} (hs : Held i Fresh s) : Keeps i (fun _ => Unlogged) (enter cfg i) s := by
  refine (login_keeps hs).bind fun reply s _ hs => ?_
  rw [if_pos hs.1]
  exact (keeps_of_tame (close_tame i i) hs.2).bind fun _ s h hs => ⟨h, hs⟩

/-- Another connection may well be logged in. -/
theorem enter_tame {cfg : Config} {j : ConnId} (hj : j ≠ i) : (enter cfg j).Uses (Tame i) := by
  refine ((login_uses j _ _).mono fun _ ho => tame_on hj ho).bind fun reply => ?_
  by_cases he : reply.type = .error
  · rw [if_pos he]
    exact (close_tame i j).bind fun _ => trivial
  · rw [if_neg he]
    exact ⟨hj, fun _ => ⟨trivial, fun _ => trivial⟩⟩

theorem start_keeps {cfg : Config} {pubkey : Option Str} {registers : Bool} (hs : Held i Unlogged s) :
    Keeps i (fun _ => Unlogged) (Session.start cfg pubkey registers) s := by
  refine build_within hs (fun s hs => ?_) fun j s hj hs => ?_
  · refine (keeps_of_calm (connect_calm cfg i) hs).bind fun _ s _ hs => ?_
    have henrolled : Keeps i (fun outcome c => c.Unlogged ∧ (outcome = none → c.Idle))
        (if registers = true then enrol cfg pubkey i else .pure none) s := by
      split
      · exact enrol_keeps hs
      · exact ⟨hs.unlogged, hs.apart, hs.holds.1, fun _ => hs.holds.2⟩
    refine henrolled.bind fun outcome s h hs => ?_
    cases outcome with
    | some reply => exact ⟨h, h⟩
    | none => exact enter_keeps ⟨hs.apart, hs.holds.1, hs.holds.2 rfl⟩
  · have hconnect : (connect cfg j).Uses (Tame i) := (connect_uses cfg j).mono fun _ ho => tame_on hj ho
    have henrolled : (if registers = true then enrol cfg pubkey j else .pure none).Uses (Tame i) := by
      split
      · exact (enrol_uses cfg pubkey j).mono fun _ ho => tame_on hj ho
      · trivial
    refine keeps_of_tame (hconnect.bind fun _ => henrolled.bind fun outcome => ?_) hs
    cases outcome with
    | some reply => trivial
    | none => exact enter_tame hj

/-- What holds between any two steps. -/
def Holding (i : ConnId) (s : Session) : Prop := Keeps i (fun _ => Unlogged) s.supervisor s.shared

theorem Holding.step {cfg : Config} {s : Session} (h : Holding i s) {m : Move}
    (hm : ∀ f, m = .reader i (.frame f) → f.type ≠ .loginOk) : Holding i (s.step cfg m) := by
  obtain ⟨s, p⟩ := s
  have hmoved : Held i Unlogged s → Held i Unlogged (s.move m) := fun h =>
    h.around (o := .newFrame) stable_unlogged ⟨m, hm, rfl⟩
  have hothers : Holding i ⟨s.move m, p⟩ := by
    cases p with
    | pure again => exact ⟨hmoved h.1, hmoved h.2⟩
    | raise e => exact ⟨hmoved h.1, hmoved h.2⟩
    | call o k => exact Prog.Within.rely h ⟨m, hm, rfl⟩
  cases m with
  | supervisor x =>
    cases p with
    | pure again =>
      cases again with
      | true => exact watch_keeps h.2
      | false => exact h
    | raise e => exact h
    | call o k =>
      simp only [Session.step]
      cases hx : o.exec x s with
      | none => exact h
      | some rs => exact Prog.Within.step h ⟨x, hx⟩
  | _ => exact hothers

theorem Holding.run {s : Session} (h : Holding i s) (cfg : Config) {ms : List Move}
    (hms : ∀ f, .reader i (.frame f) ∈ ms → f.type ≠ .loginOk) : Holding i (s.run cfg ms) := by
  induction ms generalizing s with
  | nil => exact h
  | cons m ms ih =>
    have hm : ∀ f, m = .reader i (.frame f) → f.type ≠ .loginOk := fun f hf => hms f (by simp [hf])
    exact ih (h.step hm) fun f hf => hms f (List.mem_cons_of_mem m hf)

theorem opened_holding (cfg : Config) (pubkey : Option Str) (registers : Bool) (i : ConnId) :
    Holding i (Session.opened cfg pubkey registers) :=
  (start_keeps ⟨by simp [Session.opened], unlogged_new⟩).bind fun _ _ h hs => ⟨h, hs⟩

end Handshake

/-- **No LOGIN_OK, no session.** A connection on which the server has not said
LOGIN_OK is at no moment the session's or ONLINE, and nothing but the handshake is
queued for it, whatever the others do. -/
theorem Session.unlogged_of_unheard (cfg : Config) (pubkey : Option Str) (registers : Bool) (ms : List Move)
    (i : ConnId) (hms : ∀ f, .reader i (.frame f) ∈ ms → f.type ≠ .loginOk) :
    ((opened cfg pubkey registers).run cfg ms).shared.connection ≠ some i ∧
      (((opened cfg pubkey registers).run cfg ms).shared.connections i).canSend = false ∧
      (((opened cfg pubkey registers).run cfg ms).shared.connections i).username = none ∧
      (((opened cfg pubkey registers).run cfg ms).shared.connections i).heartbeat = false ∧
      ∀ f, some f ∈ (((opened cfg pubkey registers).run cfg ms).shared.connections i).outbox →
        f.type = .register ∨ f.type = .login := by
  have h := ((Handshake.opened_holding cfg pubkey registers i).run cfg hms).holds
  refine ⟨h.apart, ?_, h.holds.username, h.holds.heartbeat, h.holds.outbox⟩
  rw [ServerConnection.canSend, decide_eq_false h.holds.machine]

namespace Losses

/-- `start` registers and gets its OK; the server stays silent on the LOGIN while the
user is already sending. -/
def unanswered : List Move :=
  supervisorSteps 9 ++
    [.reader 0 (.frame { type := .ok, id := .str "r", ts := 0 }), .reader 0 .gone, .reader 0 .gone] ++
    supervisorSteps 6 ++ [.send { type := .msg, id := .str "m", ts := 0 }]

end Losses

open Losses

/-- With both frames of the handshake in the outbox. -/
theorem unanswered_unlogged :
    (((Session.opened netConfig none true).run netConfig unanswered).shared.connections 0).outbox.map
        (Option.map Frame.type) = [some .register, some .login] ∧
      (((Session.opened netConfig none true).run netConfig unanswered).shared.connections 0).canSend = false :=
  ⟨by decide +kernel, (Session.unlogged_of_unheard netConfig none true unanswered 0 (by
    intro f hf
    simp [unanswered, supervisorSteps] at hf
    simp [hf])).2.1⟩

end Client

end Ciphertext
