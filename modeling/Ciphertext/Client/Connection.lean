import Ciphertext.Common.Frames

/-!
# `ServerConnection` — the client's end of one socket

The model of `im/client/net/state.py` and of what `im/client/net/connection.py`
shares between its threads: the state machine, the slot a handshake waits on,
the queue to the writer. The reader thread is modelled where it stands in its
own code (`ReaderAt`), one step per access to a shared field, because where it
stands when the connection is lost decides what the thread in `login` gets to
see.

The state machine is the table of `state.py` (`transitions`), and a transition that is not
in it raises. `close` and `send` are one step each here; their use by several threads at
once, with the handshake, the heartbeat and the writer, is taken apart in
`Client/Session.lean` and `Client/Heartbeat.lean`.
-/

namespace Ciphertext

namespace Client

/-! ## The state machine -/

inductive ConnectionState where
  | disconnected
  | connecting
  | authenticating
  | online
  | retrying
  | closed
deriving DecidableEq

/-- What can happen to a connection. -/
inductive Event where
  | connect
  | socketReady
  | socketFailed
  | loginOk
  | loginRefused
  | connectionLost
  | backoffExpired
  | close
deriving DecidableEq

/-- `str(state)`. -/
def ConnectionState.value : ConnectionState → Str
  | disconnected => "DISCONNECTED"
  | connecting => "CONNECTING"
  | authenticating => "AUTHENTICATING"
  | online => "ONLINE"
  | retrying => "RETRYING"
  | closed => "CLOSED"

/-- `str(event)`. -/
def Event.value : Event → Str
  | connect => "CONNECT"
  | socketReady => "SOCKET_READY"
  | socketFailed => "SOCKET_FAILED"
  | loginOk => "LOGIN_OK"
  | loginRefused => "LOGIN_REFUSED"
  | connectionLost => "CONNECTION_LOST"
  | backoffExpired => "BACKOFF_EXPIRED"
  | close => "CLOSE"

/-- What the client's network code raises. -/
inductive NetError where
  | connectionError (text : Str)
  | timeoutError (text : Str)
  | notConnected (text : Str)
  | illegalTransition (text : Str)
  | overflowError (text : Str)
deriving DecidableEq

namespace ConnectionState

/-- `_TRANSITIONS`: every legal pair but those with CLOSE. -/
def transitions : List ((ConnectionState × Event) × ConnectionState) :=
  [((disconnected, .connect), connecting),
   ((connecting, .socketReady), authenticating),
   ((connecting, .socketFailed), retrying),
   ((authenticating, .loginOk), online),
   ((authenticating, .loginRefused), disconnected),
   ((authenticating, .connectionLost), retrying),
   ((online, .connectionLost), retrying),
   ((retrying, .backoffExpired), connecting),
   ((retrying, .socketFailed), retrying)]

/-- `machine.allows(event)`. -/
def allows (s : ConnectionState) (e : Event) : Bool :=
  if s = closed then false
  else if e = .close then true
  else (transitions.lookup (s, e)).isSome

/-- `machine.transition(event)`. -/
def transition (s : ConnectionState) (e : Event) : Except NetError ConnectionState :=
  if s = closed then
    .error (.illegalTransition (e.value ++ Str.ofString " after the connection was closed"))
  else if e = .close then .ok closed
  else
    match transitions.lookup (s, e) with
    | some s' => .ok s'
    | none => .error (.illegalTransition (e.value ++ Str.ofString " is not legal in " ++ s.value))

/-- `allows` is the test for what `transition` does. -/
theorem allows_iff {s : ConnectionState} {e : Event} :
    s.allows e = true ↔ ∃ s', s.transition e = .ok s' := by
  unfold allows transition
  by_cases hclosed : s = closed
  · simp [hclosed]
  by_cases hclose : e = .close
  · simp [hclosed, hclose]
  rw [if_neg hclosed, if_neg hclose, if_neg hclosed, if_neg hclose]
  cases transitions.lookup (s, e) <;> simp

@[simp] theorem allows_lost_connecting : connecting.allows .connectionLost = false := by decide

@[simp] theorem allows_lost_authenticating : authenticating.allows .connectionLost = true := by
  decide

@[simp] theorem transition_lost_authenticating :
    authenticating.transition .connectionLost = .ok retrying := by rfl

/-- CLOSE is legal wherever the connection is not closed already. -/
theorem transition_close {s : ConnectionState} (h : s ≠ closed) : s.transition .close = .ok closed := by
  rw [transition, if_neg h, if_pos rfl]

/-- Only CLOSE closes. -/
theorem transition_ne_closed {s s' : ConnectionState} {e : Event} (he : e ≠ .close)
    (h : s.transition e = .ok s') : s' ≠ closed := by
  have htable : transitions.lookup (s, e) ≠ some closed := by
    cases s <;> cases e <;> decide
  unfold transition at h
  by_cases hclosed : s = closed
  · rw [if_pos hclosed] at h
    cases h
  rw [if_neg hclosed, if_neg he] at h
  cases hs : transitions.lookup (s, e) with
  | none =>
    rw [hs] at h
    cases h
  | some t =>
    rw [hs] at h htable
    cases h
    exact fun ht => htable (congrArg some ht)

end ConnectionState

/-! ## The connection -/

/-- `OUTBOX_LIMIT`. -/
def outboxLimit : Nat := 100

/-- Where the reader thread stands: in `recv`, inside `_deliver`, or inside
`_on_connection_lost`. -/
inductive ReaderAt where
  | notStarted
  | reading
  /-- `_deliver` found the frame's type awaited and is about to take the lock. -/
  | accepting (f : Frame)
  /-- The reply is in the slot, `_reply_ready` is not set yet. -/
  | answering
  /-- At the head of `_on_connection_lost`. -/
  | noticing
  /-- CONNECTION_LOST was allowed and is about to be applied. -/
  | losing
  /-- About to set `_reply_ready`, so that nobody waits for an answer. -/
  | releasing
  | ended
deriving DecidableEq

/-- The fields the threads of one connection share. `none` in the outbox is
`_STOP`. -/
structure ServerConnection where
  machine : ConnectionState := .disconnected
  username : Option Str := none
  closing : Bool := false
  awaitTypes : List MessageType := []
  reply : Option Frame := none
  replyReady : Bool := false
  outbox : List (Option Frame) := []
  heartbeat : Bool := false
  reader : ReaderAt := .notStarted
deriving DecidableEq

/-- What the reader's `recv` and `decode` come up with next. -/
inductive Read where
  | frame (f : Frame)
  | gone

namespace ServerConnection

def canSend (c : ServerConnection) : Bool := c.machine = .online

/-- One step of the reader thread. -/
def read (c : ServerConnection) (x : Read) : ServerConnection :=
  match c.reader with
  | .notStarted => c
  | .ended => c
  | .reading =>
    match x with
    | .gone => { c with reader := .noticing }
    | .frame f =>
      if c.awaitTypes.contains f.type then { c with reader := .accepting f }
      else c  -- the frame goes to the listener
  | .accepting f => { c with reply := some f, awaitTypes := [], reader := .answering }
  | .answering => { c with replyReady := true, reader := .reading }
  | .noticing =>
    if c.closing || c.machine = .closed then { c with reader := .ended }
    else if c.machine.allows .connectionLost then { c with reader := .losing }
    else { c with reader := .releasing }
  | .losing =>
    match c.machine.transition .connectionLost with
    | .ok s => { c with machine := s, reader := .releasing }
    | .error _ => { c with reader := .ended }
  | .releasing => { c with replyReady := true, reader := .ended }

/-- `_on_connection_lost` on the heartbeat thread, which runs from LOGIN_OK on. -/
def missedPongs (c : ServerConnection) : ServerConnection :=
  if !c.heartbeat || c.closing || c.machine = .closed then c
  else
    match c.machine.transition .connectionLost with
    | .ok s => { c with machine := s, replyReady := true }
    | .error _ => { c with replyReady := true }

/-- `close`, when nobody else is inside it. -/
def close (c : ServerConnection) : ServerConnection :=
  if c.closing then c
  else { c with closing := true, machine := .closed, replyReady := true }

/-- `send`. An outbox that stays full drops the connection. -/
def send (c : ServerConnection) (f : Frame) : ServerConnection :=
  if !c.canSend then c
  else if c.outbox.length < outboxLimit then { c with outbox := c.outbox ++ [some f] }
  else c.close

/-- The writer takes the next frame. -/
def write (c : ServerConnection) : ServerConnection := { c with outbox := c.outbox.tail }

end ServerConnection

end Client

end Ciphertext
