import Ciphertext.Prog.Rely
import Ciphertext.Client.Connection

/-!
# `Session` and its supervisor thread

The model of `im/client/net/session.py` with the parts of `ServerConnection` the
supervisor goes through: `connect`, `login`, `close`. They are programs over the
accesses they make to shared objects, one call per access, so that the reader of
the connection under construction can come in between any two of them. What
only the outside decides, whether a socket opens, whether a wait runs out, the
id and the time of a new frame, comes with the supervisor's step as an
`Outside`.

`Move` is one step of anybody: the supervisor, a reader, a writer, a heartbeat,
the thread that sends, the thread that calls `Session.close`.
-/

namespace Ciphertext

namespace Client

/-! ## The shared objects -/

/-- A connection, by the order in which they were built. -/
abbrev ConnId := Nat

/-- What opening a socket can fail with. -/
inductive SocketFailure where
  | unreachable (exc : Str)
  | tls (exc : Str)

/-- What the outside decides about one step of the supervisor. -/
structure Outside where
  socket : Except SocketFailure Unit := .ok ()
  timedOut : Bool := false
  newId : Str := []
  nowMs : Int := 0

/-- The constructor's arguments that the supervisor uses. -/
structure Config where
  host : Str
  port : Nat
  username : Str
  passHash : Str

/-- The fields of the `Session`, and every connection it has built. -/
structure Shared where
  connections : ConnId → ServerConnection := fun _ => {}
  built : Nat := 0
  connection : Option ConnId := none
  stopped : Bool := false
  attempts : Nat := 0
  reconnects : Nat := 0

namespace Shared

/-- Change one connection. -/
def update (s : Shared) (i : ConnId) (f : ServerConnection → ServerConnection) : Shared :=
  { s with connections := fun j => if j = i then f (s.connections i) else s.connections j }

@[simp] theorem update_connections_self (s : Shared) (i : ConnId)
    (f : ServerConnection → ServerConnection) :
    (s.update i f).connections i = f (s.connections i) := if_pos rfl

theorem update_connections_ne (s : Shared) {i j : ConnId} (h : j ≠ i)
    (f : ServerConnection → ServerConnection) :
    (s.update i f).connections j = s.connections j := if_neg h

@[simp] theorem update_connection (s : Shared) (i : ConnId)
    (f : ServerConnection → ServerConnection) : (s.update i f).connection = s.connection := rfl

@[simp] theorem update_stopped (s : Shared) (i : ConnId)
    (f : ServerConnection → ServerConnection) : (s.update i f).stopped = s.stopped := rfl

@[simp] theorem update_attempts (s : Shared) (i : ConnId)
    (f : ServerConnection → ServerConnection) : (s.update i f).attempts = s.attempts := rfl

end Shared

/-- `FIRST_DELAY`, `FACTOR` and `MAX_DELAY` in seconds, and the number of
attempts from which on `FACTOR ** attempts` is not a float any more. -/
def firstDelay : Nat := 1
def factor : Nat := 2
def maxDelay : Nat := 30
def overflowsAt : Nat := 1024

/-- `Backoff.nominal`. -/
def nominal (attempts : Nat) : Except NetError Nat :=
  if overflowsAt ≤ attempts then .error (.overflowError "(34, 'Numerical result out of range')")
  else .ok (min (firstDelay * factor ^ attempts) maxDelay)

/-! ## The supervisor's calls -/

inductive Access where
  /-- `self._stopped.wait(seconds)` -/
  | stoppedWait
  | getConnection
  | canSend (i : ConnId)
  | state (i : ConnId)
  | nextDelay
  /-- `dead, self._connection = self._connection, None` -/
  | takeConnection
  | setConnection (i : ConnId)
  | build
  | transition (i : ConnId) (e : Event)
  | openSocket (i : ConnId)
  | startThreads (i : ConnId)
  | newFrame
  /-- The locked block at the head of `_request`. -/
  | expect (i : ConnId) (types : List MessageType)
  | putNowait (i : ConnId) (f : Frame)
  | replyWait (i : ConnId)
  /-- `self._await_types = frozenset()` -/
  | forget (i : ConnId)
  /-- The locked block at the end of `_request`. -/
  | takeReply (i : ConnId)
  | setUsername (i : ConnId) (u : Str)
  | startHeartbeat (i : ConnId)
  | isClosing (i : ConnId)
  | setClosing (i : ConnId)
  | isClosed (i : ConnId)
  | setReplyReady (i : ConnId)
  /-- `_STOP` into the outbox, the join, and the socket's own `close`. -/
  | hangUp (i : ConnId)
  | countReconnect
  | resetBackoff

namespace Access

@[reducible] def Ret : Access → Type
  | stoppedWait => Bool
  | getConnection => Option ConnId
  | canSend _ => Bool
  | state _ => ConnectionState
  | nextDelay => Except NetError Nat
  | takeConnection => Option ConnId
  | setConnection _ => Unit
  | build => ConnId
  | transition _ _ => Except NetError ConnectionState
  | openSocket _ => Except SocketFailure Unit
  | startThreads _ => Unit
  | newFrame => Str × Int
  | expect _ _ => Unit
  | putNowait _ _ => Bool
  | replyWait _ => Bool
  | forget _ => Unit
  | takeReply _ => Option Frame
  | setUsername _ _ => Unit
  | startHeartbeat _ => Unit
  | isClosing _ => Bool
  | setClosing _ => Unit
  | isClosed _ => Bool
  | setReplyReady _ => Unit
  | hangUp _ => Unit
  | countReconnect => Unit
  | resetBackoff => Unit

/-- What a call answers and does; `none` while it blocks. -/
def exec (x : Outside) : (o : Access) → Shared → Option (Ret o × Shared)
  | stoppedWait, s => some (s.stopped, s)
  | getConnection, s => some (s.connection, s)
  | canSend i, s => some ((s.connections i).canSend, s)
  | state i, s => some ((s.connections i).machine, s)
  | nextDelay, s =>
    match nominal s.attempts with
    | .error e => some (.error e, s)
    | .ok d => some (.ok d, { s with attempts := s.attempts + 1 })
  | takeConnection, s => some (s.connection, { s with connection := none })
  | setConnection i, s => some ((), { s with connection := some i })
  | build, s => some (s.built, { s.update s.built fun _ => {} with built := s.built + 1 })
  | transition i e, s =>
    match (s.connections i).machine.transition e with
    | .error err => some (.error err, s)
    | .ok m => some (.ok m, s.update i fun c => { c with machine := m })
  | openSocket _, s => some (x.socket, s)
  | startThreads i, s => some ((), s.update i fun c => { c with reader := .reading })
  | newFrame, s => some ((x.newId, x.nowMs), s)
  | expect i types, s =>
    some ((), s.update i fun c => { c with reply := none, replyReady := false, awaitTypes := types })
  | putNowait i f, s =>
    if (s.connections i).outbox.length < outboxLimit then
      some (true, s.update i fun c => { c with outbox := c.outbox ++ [some f] })
    else some (false, s)
  | replyWait i, s =>
    if (s.connections i).replyReady then some (true, s)
    else if x.timedOut then some (false, s)
    else none
  | forget i, s => some ((), s.update i fun c => { c with awaitTypes := [] })
  | takeReply i, s =>
    some ((s.connections i).reply, s.update i fun c => { c with reply := none, awaitTypes := [] })
  | setUsername i u, s => some ((), s.update i fun c => { c with username := some u })
  | startHeartbeat i, s => some ((), s.update i fun c => { c with heartbeat := true })
  | isClosing i, s => some ((s.connections i).closing, s)
  | setClosing i, s => some ((), s.update i fun c => { c with closing := true })
  | isClosed i, s => some ((s.connections i).machine = .closed, s)
  | setReplyReady i, s => some ((), s.update i fun c => { c with replyReady := true })
  | hangUp i, s =>
    some ((), s.update i fun c =>
      if c.outbox.length < outboxLimit then { c with outbox := c.outbox ++ [none] } else c)
  | countReconnect, s => some ((), { s with reconnects := s.reconnects + 1 })
  | resetBackoff, s => some ((), { s with attempts := 0 })

end Access

/-- The supervisor's calls as a signature. -/
@[reducible] def Accesses : Signature := ⟨Access, Access.Ret⟩

/-- What the supervisor runs. -/
abbrev NetM := Prog Accesses NetError

@[reducible] def access (o : Access) : NetM o.Ret := Prog.call (S := Accesses) o .pure

/-! ## `ServerConnection`, as the supervisor uses it -/

/-- `self._machine.transition(event)`. -/
def transition (i : ConnId) (e : Event) : NetM Unit := do
  match ← access (.transition i e) with
  | .ok _ => .pure ()
  | .error err => .raise err

def connect (cfg : Config) (i : ConnId) : NetM Unit := do
  transition i .connect
  match ← access (.openSocket i) with
  | .error (.unreachable exc) =>
    transition i .socketFailed
    .raise (.connectionError (Str.ofString "could not reach " ++ cfg.host ++ Str.ofString ":" ++
      Str.ofString (toString cfg.port) ++ Str.ofString ": " ++ exc))
  | .error (.tls exc) =>
    transition i .socketFailed
    .raise (.connectionError (Str.ofString "TLS handshake failed: " ++ exc))
  | .ok () =>
    access (.startThreads i)
    transition i .socketReady

/-- `_require`. -/
def require (i : ConnId) (state : ConnectionState) (action : Str) : NetM Unit := do
  let now ← access (.state i)
  if now ≠ state then
    .raise (.notConnected
      (Str.ofString "cannot " ++ action ++ Str.ofString " while " ++ now.value))
  else .pure ()

/-- `_request`. -/
def request (i : ConnId) (f : Frame) (expecting : List MessageType) : NetM Frame := do
  access (.expect i expecting)
  if !(← access (.putNowait i f)) then
    access (.forget i)
    .raise (.notConnected "outbox full during the handshake")
  else if !(← access (.replyWait i)) then
    access (.forget i)
    .raise (.timeoutError
      (Str.ofString "no reply to " ++ f.type.value ++ Str.ofString " within 5.0s"))
  else
    match ← access (.takeReply i) with
    | none => .raise (.notConnected "connection closed during the handshake")
    | some reply => .pure reply

/-- `login`. -/
def login (i : ConnId) (username passHash : Str) : NetM Frame := do
  require i .authenticating "login"
  let (id, ts) ← access .newFrame
  let reply ← request i
    { type := .login, data := [("user", .str username), ("pass_hash", .str passHash)],
      id := .str id, ts } [.loginOk, .error]
  if reply.type = .loginOk then
    access (.setUsername i username)
    transition i .loginOk
    access (.startHeartbeat i)
  else transition i .loginRefused
  .pure reply

/-- `close`. -/
def close (i : ConnId) : NetM Unit := do
  if ← access (.isClosing i) then .pure ()
  else
    access (.setClosing i)
    if !(← access (.isClosed i)) then transition i .close
    access (.setReplyReady i)
    access (.hangUp i)

/-! ## The supervisor -/

/-- `except (ConnectionError, TimeoutError, OSError)`. -/
def NetError.caught : NetError → Bool
  | .connectionError _ => true
  | .timeoutError _ => true
  | _ => false

/-- `if dead is not None: dead.close()`. -/
def closeDead : Option ConnId → NetM Unit
  | some dead => close dead
  | none => .pure ()

/-- The guarded block of `_reconnect`: the reply, or `none` when it gave up. -/
def attempt (cfg : Config) (fresh : ConnId) : NetM (Option Frame) :=
  Prog.tryCatch
    (do
      connect cfg fresh
      let reply ← login fresh cfg.username cfg.passHash
      .pure (some reply))
    fun e => do
      if e.caught then
        close fresh
        .pure none
      else .raise e

/-- `Session._reconnect`. -/
def reconnect (cfg : Config) : NetM Unit := do
  let dead ← access .takeConnection
  closeDead dead
  let fresh ← access .build
  match ← attempt cfg fresh with
  | none => .pure ()
  | some reply =>
    if reply.type = .error then close fresh
    else
      access (.setConnection fresh)
      access .countReconnect
      access .resetBackoff

/-- Whether `_watch` leaves the connection alone: it can send, or a handshake is
in flight. -/
def resting : Option ConnId → NetM Bool
  | none => .pure false
  | some c => do
    if ← access (.canSend c) then .pure true
    else
      let state ← access (.state c)
      .pure (state = .connecting ∨ state = .authenticating : Bool)

/-- One pass of the loop of `Session._watch`; `false` when it leaves the loop. -/
def watch (cfg : Config) : NetM Bool := do
  if ← access .stoppedWait then .pure false
  else
    let connection ← access .getConnection
    if ← resting connection then .pure true
    else
      match ← access .nextDelay with
      | .error e => .raise e
      | .ok _ =>
        if ← access .stoppedWait then .pure false
        else
          reconnect cfg
          .pure true

/-! ## Everybody's steps -/

/-- The session, and what is left of the supervisor's current pass. -/
structure Session where
  shared : Shared
  supervisor : NetM Bool

inductive Move where
  | supervisor (x : Outside)
  | reader (i : ConnId) (x : Read)
  | writer (i : ConnId)
  | heartbeat (i : ConnId)
  /-- Some thread sends through the session. -/
  | send (f : Frame)
  /-- `Session.close` sets the flag... -/
  | stop
  /-- ...and then takes the connection and closes it. -/
  | closeConnection

/-- What everybody but the supervisor does to the shared objects. -/
def Shared.move (s : Shared) : Move → Shared
  | .supervisor _ => s
  | .reader i x => s.update i fun c => c.read x
  | .writer i => s.update i fun c => c.write
  | .heartbeat i => s.update i fun c => c.missedPongs
  | .send f =>
    match s.connection with
    | none => s
    | some i => s.update i fun c => c.send f
  | .stop => { s with stopped := true }
  | .closeConnection =>
    match s.connection with
    | none => s
    | some i => { s.update i fun c => c.close with connection := none }

namespace Session

/-- One step. A supervisor that waits, has left its loop or was ended by an
exception does nothing. -/
def step (cfg : Config) (s : Session) : Move → Session
  | .supervisor x =>
    match s.supervisor with
    | .pure true => { s with supervisor := watch cfg }
    | .pure false => s
    | .raise _ => s
    | .call o k =>
      match Access.exec x o s.shared with
      | none => s
      | some (r, s') => ⟨s', k r⟩
  | m => { s with shared := s.shared.move m }

/-- Any order of steps. -/
def run (cfg : Config) (s : Session) (ms : List Move) : Session := ms.foldl (step cfg) s

/-- `Session.start` has returned: one connection, logged in, and the supervisor
at the head of its loop. -/
def started (cfg : Config) : Session where
  shared :=
    { connections := fun i =>
        if i = 0 then
          { machine := .online, username := some cfg.username, heartbeat := true, reader := .reading }
        else {}
      built := 1
      connection := some 0 }
  supervisor := watch cfg

/-- The exception that ended the supervisor thread. -/
def escaped (s : Session) : Option NetError :=
  match s.supervisor with
  | .raise e => some e
  | _ => none

/-- The supervisor has left its loop. -/
def left (s : Session) : Bool :=
  match s.supervisor with
  | .pure again => !again
  | _ => false

end Session

end Client

end Ciphertext
