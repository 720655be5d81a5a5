import Ciphertext.Server.Tables

/-!
# Accepting connections and hanging up

`serve_forever` runs in one thread and makes a `ClientHandler`, with a thread of
its own, of every connection it accepts. `shutdown` may be called from anywhere,
at any time and more than once: it closes the listening socket and hangs up on
every handler in `_handlers`. Only that set has a lock. `_listener` and `_running`
have none, and between `accept()` and `_handlers.add` a connection is in nobody's
set.

`ChatServer.step` is one line of one of these threads. A thread that is blocked in
`accept()` when the socket is closed may still be given a connection by some systems,
and is here. `ChatServer.Inv` is what they keep between them: an open connection is
always in somebody's hands, and once a listening socket is closed and the handlers
have been taken, at most one that came through it is in no call's. `HangingUp` has the
steps of those who close, `Shutdown` those of `serve_forever`, and the results
(`ChatServer.hung_up`, `ChatServer.ends_for_a_reason`).

Left out: the outbox and its sentinel, which are in `Outboxes` and `Pipe`; the wait
for the writer at the end of `serve`, which changes nothing; and a system that has no
thread to give. `on_disconnect`, which raises nothing, is one step here.
-/

namespace Ciphertext

/-- Where a thread stands in `ClientHandler.close`. -/
inductive HandlerClose where
  /-- About to look at `_closed`. -/
  | checking
  /-- About to set it. -/
  | marking
  /-- About to close the socket. -/
  | releasing
deriving DecidableEq

/-- Where the thread of `serve_forever` stands. -/
inductive Serving where
  /-- About to look whether there is a listener. -/
  | entering
  /-- In `bind`: making the socket. -/
  | binding
  /-- In `bind`: about to set `_running`. -/
  | starting
  /-- In `bind`: reading `address`, for the log and for the result. -/
  | naming (again : Bool)
  /-- At the `assert`. -/
  | asserting
  /-- At the head of the loop. -/
  | looping
  /-- About to load `_listener`. -/
  | loading
  /-- About to call its `accept`. -/
  | calling (l : Nat)
  /-- In that call. -/
  | accepting (l : Nat)
  /-- In the TLS handshake. -/
  | wrapping (c : Sid)
  /-- About to close a connection whose handshake failed. -/
  | dropping (c : Sid)
  /-- About to add the handler to the set. -/
  | registering (c : Sid)
  /-- About to start its thread. -/
  | launching (c : Sid)
  | returned
  | raised
deriving DecidableEq

/-- Where a call of `shutdown` stands. -/
inductive Stopping where
  | uncalled
  /-- About to clear `_running`. -/
  | clearing
  /-- About to look whether there is a listener. -/
  | looking
  /-- About to load it again and close it. -/
  | shutting
  /-- About to set `_listener` to `None`. -/
  | forgetting
  /-- About to take the handlers. -/
  | taking
  /-- In `close` of the first of these handlers. -/
  | hanging (todo : List Sid) (k : HandlerClose)
  | returned
  | raised
deriving DecidableEq

/-- Where the thread of a handler stands. -/
inductive Reading where
  | absent
  /-- In `_read_loop`. -/
  | serving
  /-- In `on_disconnect`. -/
  | leaving
  /-- In `close`. -/
  | closing (k : HandlerClose)
  /-- About to discard the handler. -/
  | discarding
  | ended
deriving DecidableEq

/-- The server with its threads. Listening sockets, connections, calls of `shutdown` and calls of
`close` by a `send` that found the outbox full are numbered as they come. -/
structure ChatServer where
  listener : Option Nat := none
  running : Bool := false
  handlers : List Sid := []
  /-- How many listening sockets there have been. -/
  binds : Nat := 0
  /-- The listening sockets that are closed. -/
  shut : Nat → Bool := fun _ => false
  /-- The listening socket each connection came through. -/
  accepted : List Nat := []
  /-- `_closed` of each handler. -/
  closed : Sid → Bool := fun _ => false
  /-- The connections that are closed. -/
  released : Sid → Bool := fun _ => false
  /-- The handlers whose writer failed. -/
  failed : Sid → Bool := fun _ => false
  serving : Serving := .entering
  stops : Nat → Stopping := fun _ => .uncalled
  reading : Sid → Reading := fun _ => .absent
  hangs : Nat → Option (Sid × HandlerClose) := fun _ => none

namespace ChatServer

/-- What happens next. -/
inductive Move where
  /-- `serve_forever` goes on; `ok` is how a call of the system ends there. -/
  | serve (ok : Bool)
  /-- The `i`-th call of `shutdown` begins or goes on. -/
  | stop (i : Nat)
  /-- The handler's thread goes on; its loop may end at any time. -/
  | read (c : Sid)
  /-- A `send` finds the handler's outbox full. -/
  | full (i : Nat) (c : Sid)
  /-- The `close` it called goes on. -/
  | hang (i : Nat)
  /-- The handler's writer fails. -/
  | writeFails (c : Sid)

/-- One line of `ClientHandler.close`, and where it goes on if it does. -/
def closeStep (s : ChatServer) (c : Sid) : HandlerClose → Option HandlerClose × ChatServer
  | .checking => (if s.closed c then none else some .marking, s)
  | .marking => (some .releasing, { s with closed := Function.update s.closed c true })
  | .releasing => (none, { s with released := Function.update s.released c true })

/-- `ChatServer.address`, on the way to `next`. -/
def address (s : ChatServer) (next : Serving) : ChatServer :=
  match s.listener with
  | none => { s with serving := .raised }
  | some l => { s with serving := if s.shut l then .raised else next }

/-- One line of `serve_forever`. -/
def serveStep (tls : Bool) (s : ChatServer) (ok : Bool) : ChatServer :=
  match s.serving with
  | .entering => { s with serving := if s.listener.isNone then .binding else .asserting }
  | .binding =>
    if ok then { s with listener := some s.binds, binds := s.binds + 1, serving := .starting }
    else { s with serving := .raised }
  | .starting => { s with running := true, serving := .naming false }
  | .naming again => s.address (if again then .asserting else .naming true)
  | .asserting => { s with serving := if s.listener.isNone then .raised else .looping }
  | .looping => { s with serving := if s.running then .loading else .returned }
  | .loading =>
    match s.listener with
    | none => { s with serving := .raised }
    | some l => { s with serving := .calling l }
  | .calling l => { s with serving := if s.shut l then .returned else .accepting l }
  | .accepting l =>
    if ok then
      { s with
        accepted := s.accepted ++ [l]
        serving := if tls then .wrapping s.accepted.length else .registering s.accepted.length }
    else { s with serving := .returned }
  | .wrapping c => { s with serving := if ok then .registering c else .dropping c }
  | .dropping c => { s with released := Function.update s.released c true, serving := .looping }
  | .registering c => { s with handlers := s.handlers ++ [c], serving := .launching c }
  | .launching c => { s with reading := Function.update s.reading c .serving, serving := .looping }
  | .returned => s
  | .raised => s

/-- The `i`-th call of `shutdown` stands there now. -/
def stopAt (s : ChatServer) (i : Nat) (x : Stopping) : ChatServer :=
  { s with stops := Function.update s.stops i x }

/-- One line of `shutdown`. -/
def stopStep (s : ChatServer) (i : Nat) : ChatServer :=
  match s.stops i with
  | .uncalled => s.stopAt i .clearing
  | .clearing => { s with running := false }.stopAt i .looking
  | .looking => s.stopAt i (if s.listener.isNone then .taking else .shutting)
  | .shutting =>
    match s.listener with
    | none => s.stopAt i .raised
    | some l => { s with shut := Function.update s.shut l true }.stopAt i .forgetting
  | .forgetting => { s with listener := none }.stopAt i .taking
  | .taking => { s with handlers := [] }.stopAt i (.hanging s.handlers .checking)
  | .hanging [] _ => s.stopAt i .returned
  | .hanging (c :: rest) k =>
    (s.closeStep c k).2.stopAt i (((s.closeStep c k).1.map (Stopping.hanging (c :: rest))).getD
      (.hanging rest .checking))
  | .returned => s
  | .raised => s

/-- The handler's thread stands there now. -/
def readAt (s : ChatServer) (c : Sid) (x : Reading) : ChatServer :=
  { s with reading := Function.update s.reading c x }

/-- One line of `_run_handler` and of the `serve` it calls. -/
def readStep (s : ChatServer) (c : Sid) : ChatServer :=
  match s.reading c with
  | .absent => s
  | .serving => s.readAt c .leaving
  | .leaving => s.readAt c (.closing .checking)
  | .closing k => (s.closeStep c k).2.readAt c (((s.closeStep c k).1.map Reading.closing).getD .discarding)
  | .discarding => { s with handlers := s.handlers.filter (· ≠ c) }.readAt c .ended
  | .ended => s

/-- One step of anybody. -/
def step (tls : Bool) (s : ChatServer) : Move → ChatServer
  | .serve ok => s.serveStep tls ok
  | .stop i => s.stopStep i
  | .read c => s.readStep c
  | .full i c =>
    -- frames are sent to a handler that has been started
    if s.hangs i = none ∧ s.reading c ≠ .absent then
      { s with hangs := Function.update s.hangs i (some (c, .checking)) }
    else s
  | .hang i =>
    match s.hangs i with
    | none => s
    | some (c, k) =>
      { (s.closeStep c k).2 with hangs := Function.update s.hangs i ((s.closeStep c k).1.map (c, ·)) }
  | .writeFails c =>
    if s.reading c ≠ .absent then
      { s with closed := Function.update s.closed c true, failed := Function.update s.failed c true }
    else s

/-- Nobody closes a handler from a full outbox there. -/
theorem step_hang_none {tls : Bool} {s : ChatServer} {i : Nat} (hi : s.hangs i = none) : s.step tls (.hang i) = s := by
  simp only [step, hi]

/-- The close goes on by a line. -/
theorem step_hang {tls : Bool} {s : ChatServer} {i : Nat} {c : Sid} {k : HandlerClose} (hi : s.hangs i = some (c, k)) :
    s.step tls (.hang i) =
      { (s.closeStep c k).2 with hangs := Function.update s.hangs i ((s.closeStep c k).1.map (c, ·)) } := by
  simp only [step, hi]

def run (tls : Bool) (s : ChatServer) (ms : List Move) : ChatServer := ms.foldl (step tls) s

/-- A new server. -/
def unbound : ChatServer := {}

/-- A new server after `bind`. -/
def bound : ChatServer := { listener := some 0, running := true, binds := 1 }

/-! ## What everybody keeps -/

end ChatServer

/-- The connection that `serve_forever` has in its hands and that is in no set yet. -/
def Serving.hand : Serving → Option Sid
  | .wrapping c => some c
  | .dropping c => some c
  | .registering c => some c
  | _ => none

/-- The same, until its thread is started. -/
def Serving.making : Serving → Option Sid
  | .launching c => some c
  | x => x.hand

/-- The handlers it has taken and not closed. -/
def Stopping.todo : Stopping → List Sid
  | .hanging todo _ => todo
  | _ => []

/-- It will take the handlers. -/
def Stopping.owes : Stopping → Bool
  | .forgetting => true
  | .taking => true
  | _ => false

/-- It has set `_closed`, or found it set. -/
def Reading.past : Reading → Bool
  | .closing .releasing => true
  | .discarding => true
  | .ended => true
  | _ => false

namespace ChatServer

/-- Neither its handler nor its connection is closed. -/
def Open (s : ChatServer) (c : Sid) : Prop := s.closed c = false ∧ s.released c = false

/-- Somebody has it to close it one day. -/
def Keeps (s : ChatServer) (c : Sid) : Prop :=
  s.serving.hand = some c ∨ c ∈ s.handlers ∨ ∃ i, c ∈ (s.stops i).todo

/-- It came through that socket, and no `shutdown` has it. -/
def Loose (s : ChatServer) (l : Nat) (c : Sid) : Prop :=
  s.accepted[c]? = some l ∧ (s.serving.hand = some c ∨ c ∈ s.handlers)

/-- Some `shutdown` will take the handlers. -/
def Owed (s : ChatServer) : Prop := ∃ i, (s.stops i).owes = true

/-- Some thread is about to close the connection. -/
def Releasing (s : ChatServer) (c : Sid) : Prop :=
  (∃ i rest, s.stops i = .hanging (c :: rest) .releasing) ∨ s.reading c = .closing .releasing ∨
    ∃ i, s.hangs i = some (c, .releasing)

/-- The invariant. Nobody loses an open connection. Once a listening socket is closed and the handlers
have been taken, at most one connection that came through it is with `serve_forever` or in the set,
and none if one may still come. Who sets `_closed` goes on to close the connection, except a writer.
And a handler whose thread has ended is in no set. -/
structure Inv (s : ChatServer) : Prop where
  held : ∀ c, c < s.accepted.length → s.Open c → s.Keeps c
  few : ∀ l, s.shut l = true → s.Owed ∨
    (∀ c c', s.Loose l c → s.Loose l c' → c = c') ∧ (s.serving = .accepting l → ∀ c, ¬ s.Loose l c)
  marked : ∀ c, s.closed c = true → s.released c = true ∨ s.failed c = true ∨ s.Releasing c
  past : ∀ c, (s.reading c).past = true → s.closed c = true
  made : ∀ c, s.serving.making = some c → c < s.accepted.length
  unstarted : ∀ c, s.serving.making = some c → s.reading c = .absent
  started : ∀ c, s.reading c ≠ .absent → c < s.accepted.length
  live : ∀ c ∈ s.handlers, s.reading c ≠ .ended

end ChatServer

end Ciphertext
