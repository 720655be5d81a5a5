import Ciphertext.Client.Handshake

/-!
# The heartbeat

`_heartbeat_loop` sends a PING every interval and counts it; the reader sets the
count back to zero at every PONG. The two threads share the count without a lock,
and `self._unanswered += 1` is a load and a store, so that a PONG in between is
forgotten: the count is then one too high.

What the loop is for still holds. It gives a connection up only after two PINGs
without an answer, or one when the PONG before it fell into that gap, and always a
whole interval after the last PING (`Beating.lost_unanswered`). And without a PONG
it does not wait a fourth time (`Beating.silence_ends`).
-/

namespace Ciphertext

namespace Client

namespace Heartbeat

/-- `MISSED_PONGS`. -/
def missedPongs : Nat := 2

/-- Where the heartbeat thread stands: in `_heartbeat_loop`, in `send` or in
`_on_connection_lost`. -/
inductive HeartbeatAt where
  /-- In `self._closing.wait(interval)`. -/
  | waiting
  /-- About to look at `can_send`. -/
  | looking
  /-- About to compare the count. -/
  | judging
  /-- At the load of `+= 1`. -/
  | loading
  /-- At its store. -/
  | storing (n : Nat)
  /-- At the head of `send`. -/
  | sending
  /-- About to put the PING in the outbox. -/
  | queueing
  /-- At the head of `_on_connection_lost`. -/
  | noticing
  /-- CONNECTION_LOST was allowed and is about to be applied. -/
  | losing
  /-- About to set `_reply_ready`. -/
  | releasing
  | ended
deriving DecidableEq

/-- What the heartbeat and the reader did, as far as the count is about it. -/
inductive Sign where
  /-- An interval ran out. -/
  | tick
  /-- A PING is in the outbox. -/
  | ping
  /-- A PONG was read, maybe between the load and the store of `+= 1`. -/
  | pong (between : Bool)
  /-- "treating the connection as lost" -/
  | lost
deriving DecidableEq

/-- A connection with its heartbeat, and the log of signs, the last one first. -/
structure Beating where
  connection : ServerConnection
  unanswered : Nat := 0
  stands : HeartbeatAt := .waiting
  log : List Sign := []

/-- A step of anybody. -/
inductive Stir where
  | beat (x : Outside)
  | reader (x : Read)
  | writer
  | send (f : Frame)
  | close

/-- `Frame(type=MessageType.PING)`. -/
def ping (x : Outside) : Frame := { type := .ping, id := .str x.newId, ts := x.nowMs }

namespace Beating

/-- The `+= 1` has begun and is not over. -/
def adding (b : Beating) : Bool :=
  match b.stands with
  | .storing _ => true
  | _ => false

/-- `_deliver` has a PONG. -/
def hears (b : Beating) : Read → Bool
  | .frame f => b.connection.reader = .reading && f.type = .pong
  | .gone => false

/-- One step of the reader; nobody awaits a PONG. -/
def read (b : Beating) (x : Read) : Beating :=
  if b.hears x then
    { b with connection := b.connection.read x, unanswered := 0, log := .pong b.adding :: b.log }
  else { b with connection := b.connection.read x }

/-- One step of the heartbeat thread. -/
def beat (b : Beating) (x : Outside) : Beating :=
  match b.stands with
  | .waiting =>
    if b.connection.closing then { b with stands := .ended }
    else if x.timedOut then { b with stands := .looking, log := .tick :: b.log }
    else b
  | .looking => { b with stands := if b.connection.canSend then .judging else .ended }
  | .judging =>
    if missedPongs ≤ b.unanswered then { b with stands := .noticing, log := .lost :: b.log }
    else { b with stands := .loading }
  | .loading => { b with stands := .storing b.unanswered }
  | .storing n => { b with unanswered := n + 1, stands := .sending }
  | .sending => { b with stands := if b.connection.canSend then .queueing else .ended }
  | .queueing =>
    if b.connection.outbox.length < outboxLimit then
      { b with
        connection := { b.connection with outbox := b.connection.outbox ++ [some (ping x)] }
        stands := .waiting
        log := .ping :: b.log }
    else { b with connection := b.connection.close, stands := .ended }
  | .noticing =>
    if b.connection.closing || b.connection.machine = .closed then { b with stands := .ended }
    else if b.connection.machine.allows .connectionLost then { b with stands := .losing }
    else { b with stands := .releasing }
  | .losing =>
    match b.connection.machine.transition .connectionLost with
    | .ok s => { b with connection := { b.connection with machine := s }, stands := .releasing }
    | .error _ => { b with stands := .ended }
  | .releasing => { b with connection := { b.connection with replyReady := true }, stands := .ended }
  | .ended => b

def step (b : Beating) : Stir → Beating
  | .beat x => b.beat x
  | .reader x => b.read x
  | .writer => { b with connection := b.connection.write }
  | .send f => { b with connection := b.connection.send f }
  | .close => { b with connection := b.connection.close }

/-- Any order of steps. -/
def run (b : Beating) (ms : List Stir) : Beating := ms.foldl step b

/-- `_start_heartbeat`. -/
def started (c : ServerConnection) : Beating := { connection := c }

end Beating

/-! ## Reading the log -/

/-- PINGs since the last PONG. -/
def pingsSince : List Sign → Nat
  | [] => 0
  | .pong _ :: _ => 0
  | .ping :: log => pingsSince log + 1
  | _ :: log => pingsSince log

/-- Intervals since the last PONG. -/
def ticksSince : List Sign → Nat
  | [] => 0
  | .pong _ :: _ => 0
  | .tick :: log => ticksSince log + 1
  | _ :: log => ticksSince log

/-- The last PONG fell between load and store. -/
def swallowed : List Sign → Bool
  | [] => false
  | .pong between :: _ => between
  | _ :: log => swallowed log

/-- An interval has run out since the last PING. -/
def waitedOut : List Sign → Bool
  | .tick :: _ => true
  | .pong _ :: log => waitedOut log
  | _ => false

/-- Reason enough to give the connection up. -/
structure Unanswered (log : List Sign) : Prop where
  pings : 1 ≤ pingsSince log
  twice : 2 ≤ pingsSince log ∨ swallowed log = true
  waited : waitedOut log = true

/-! ## What the count stands for -/

/-- What is known of count and log where the heartbeat thread stands. A count of
two is too high by one only if the last PONG fell into the gap. -/
def Counted (count : Nat) (log : List Sign) : HeartbeatAt → Prop
  | .waiting => count ≤ 2 ∧ ticksSince log ≤ count ∧ (0 < count → 1 ≤ pingsSince log) ∧
      (count ≤ pingsSince log ∨ swallowed log = true)
  | .looking | .judging => count ≤ 2 ∧ ticksSince log ≤ count + 1 ∧ (0 < count → 1 ≤ pingsSince log) ∧
      (count ≤ pingsSince log ∨ swallowed log = true) ∧ waitedOut log = true
  | .loading => count ≤ 1 ∧ ticksSince log ≤ count + 1 ∧ (count ≤ pingsSince log ∨ swallowed log = true)
  | .storing n => n ≤ 1 ∧ ticksSince log ≤ n + 1 ∧ (n ≤ pingsSince log ∨ swallowed log = true)
  | .sending | .queueing => count ≤ 2 ∧ ticksSince log ≤ count ∧
      (count ≤ pingsSince log + 1 ∨ swallowed log = true)
  | .noticing | .losing | .releasing | .ended => ticksSince log ≤ 3

/-- A PONG sets everything back, wherever the heartbeat stands; in the gap it leaves
its mark. -/
theorem Counted.pong {count : Nat} {log : List Sign} {p : HeartbeatAt} (h : Counted count log p) {between : Bool}
    (hb : ∀ n, p = .storing n → between = true) : Counted 0 (.pong between :: log) p := by
  cases p with
  | waiting => simp [Counted, ticksSince]
  | looking => simpa [Counted, ticksSince, waitedOut] using h.2.2.2.2
  | judging => simpa [Counted, ticksSince, waitedOut] using h.2.2.2.2
  | storing n => simpa [Counted, ticksSince, swallowed, hb n rfl] using h.1
  | _ => simp [Counted, ticksSince]

/-- Wherever it stands, no more than three intervals have gone by in silence. -/
theorem Counted.ticks {count : Nat} {log : List Sign} {p : HeartbeatAt} (h : Counted count log p) :
    ticksSince log ≤ 3 := by
  cases p with
  | waiting => have := h.1; have := h.2.1; omega
  | looking => have := h.1; have := h.2.1; omega
  | judging => have := h.1; have := h.2.1; omega
  | loading => have := h.1; have := h.2.1; omega
  | storing n => have := h.1; have := h.2.1; omega
  | sending => have := h.1; have := h.2.1; omega
  | queueing => have := h.1; have := h.2.1; omega
  | _ => exact h

/-! ## Runs -/

/-- The loop is over. -/
def HeartbeatAt.leaves : HeartbeatAt → Bool
  | .noticing | .losing | .releasing | .ended => true
  | _ => false

/-- The machine has been told, or somebody is closing the connection anyway. -/
def Gone (c : ServerConnection) : Prop := c.closing = true ∨ c.machine ≠ .online

theorem gone_read {c : ServerConnection} (h : Gone c) (x : Read) : Gone (c.read x) := by
  refine h.imp (fun hc => by rw [ServerConnection.read_closing, hc]) fun hm => ?_
  unfold ServerConnection.read
  split
  · exact hm
  · exact hm
  · split
    · exact hm
    · split <;> exact hm
  · exact hm
  · exact hm
  · split
    · exact hm
    · split <;> exact hm
  · split
    next s hs => exact ServerConnection.transition_ne_online (by simp) hs
    next => exact hm
  · exact hm

theorem gone_close {c : ServerConnection} (h : Gone c) : Gone c.close := by
  unfold ServerConnection.close
  split
  · exact h
  · exact .inl rfl

theorem gone_send {c : ServerConnection} (h : Gone c) (f : Frame) : Gone (c.send f) := by
  unfold ServerConnection.send
  split
  · exact h
  · split
    · exact h
    · exact gone_close h

namespace Beating

/-- What holds between any two steps. -/
structure Inv (b : Beating) : Prop where
  counted : Counted b.unanswered b.log b.stands
  unanswered : ∀ before, .lost :: before <:+ b.log → Unanswered before
  leaves : .lost ∈ b.log → b.stands.leaves = true
  gone : .lost ∈ b.log → b.stands = .releasing ∨ b.stands = .ended → Gone b.connection

variable {b : Beating}

/-- As long as the loop goes on it has not given up. -/
theorem Inv.going (h : b.Inv) (hs : b.stands.leaves = false) : .lost ∉ b.log := by
  intro hl
  rw [h.leaves hl] at hs
  cases hs

theorem inv_of_going (hc : Counted b.unanswered b.log b.stands) (hl : .lost ∉ b.log) : b.Inv where
  counted := hc
  unanswered _ hb := absurd (hb.mem (List.mem_cons_self ..)) hl
  leaves h := absurd h hl
  gone h := absurd h hl

/-- The connection alone changes. -/
theorem Inv.connection (h : b.Inv) {c : ServerConnection} (hc : Gone b.connection → Gone c) :
    ({ b with connection := c } : Beating).Inv where
  counted := h.counted
  unanswered := h.unanswered
  leaves := h.leaves
  gone hl hs := hc (h.gone hl hs)

theorem Inv.read (h : b.Inv) (x : Read) : (b.read x).Inv := by
  unfold Beating.read
  split
  · have hbetween : ∀ n, b.stands = .storing n → b.adding = true := by
      intro n hn
      rw [adding, hn]
    refine ⟨h.counted.pong hbetween, ?_, ?_, ?_⟩
    · intro before hb
      rcases List.suffix_cons_iff.mp hb with hb | hb
      · cases hb
      · exact h.unanswered before hb
    · intro hl
      exact h.leaves (by simpa using hl)
    · intro hl hs
      exact gone_read (h.gone (by simpa using hl) hs) x
  · exact h.connection fun hg => gone_read hg x

/-- One step of the heartbeat thread. -/
theorem Inv.beat (h : b.Inv) (x : Outside) : (b.beat x).Inv := by
  have hc := h.counted
  have hgoing : b.stands.leaves = false → .lost ∉ b.log := h.going
  unfold Beating.beat
  cases hs : b.stands with
  | waiting =>
    rw [hs] at hc hgoing
    have hl := hgoing rfl
    simp only
    split
    · refine inv_of_going ?_ hl
      exact hc.ticks
    · split
      · refine inv_of_going ?_ (by simpa using hl)
        exact ⟨hc.1, Nat.succ_le_succ hc.2.1, hc.2.2.1, hc.2.2.2, rfl⟩
      · exact h
  | looking =>
    rw [hs] at hc hgoing
    refine inv_of_going ?_ (hgoing rfl)
    simp only
    split
    · exact hc
    · exact hc.ticks
  | judging =>
    rw [hs] at hc hgoing
    have hl := hgoing rfl
    obtain ⟨hcount, hticks, hpings, htwice, hwaited⟩ := hc
    simp only
    split
    next hmissed =>
      have htwo : 2 ≤ b.unanswered := hmissed
      have hreason : Unanswered b.log := by
        refine ⟨hpings (by omega), ?_, hwaited⟩
        exact htwice.imp_left fun hle => htwo.trans hle
      refine ⟨show ticksSince b.log ≤ 3 by omega, ?_, fun _ => rfl, by simp⟩
      intro before hb
      rcases List.suffix_cons_iff.mp hb with hb | hb
      · cases hb
        exact hreason
      · exact absurd (hb.mem (List.mem_cons_self ..)) hl
    next hmissed =>
      have hone : b.unanswered ≤ 1 := Nat.le_of_lt_succ (Nat.not_le.mp hmissed)
      exact inv_of_going ⟨hone, hticks, htwice⟩ hl
  | loading =>
    rw [hs] at hc hgoing
    exact inv_of_going hc (hgoing rfl)
  | storing n =>
    rw [hs] at hc hgoing
    obtain ⟨hn, hticks, hback⟩ := hc
    refine inv_of_going ⟨by simp only; omega, hticks, ?_⟩ (hgoing rfl)
    exact hback.imp_left Nat.succ_le_succ
  | sending =>
    rw [hs] at hc hgoing
    refine inv_of_going ?_ (hgoing rfl)
    simp only
    split
    · exact hc
    · exact hc.ticks
  | queueing =>
    rw [hs] at hc hgoing
    have hl := hgoing rfl
    obtain ⟨hcount, hticks, hback⟩ := hc
    simp only
    split
    · refine inv_of_going ⟨hcount, hticks, fun _ => Nat.succ_pos _, hback⟩ (by simpa using hl)
    · exact inv_of_going (show ticksSince b.log ≤ 3 by omega) hl
  | noticing =>
    rw [hs] at hc
    simp only
    split
    next hend =>
      refine { h with counted := hc, leaves := fun _ => rfl, gone := fun _ _ => ?_ }
      simp only [Bool.or_eq_true, decide_eq_true_eq] at hend
      exact hend.imp_right fun hm => by simp [hm]
    next =>
      split
      next => exact { h with counted := hc, leaves := fun _ => rfl, gone := by simp }
      next hno =>
        refine { h with counted := hc, leaves := fun _ => rfl, gone := fun _ _ => .inr fun hm => ?_ }
        -- an ONLINE connection can always be lost
        exact hno (by rw [hm]; rfl)
  | losing =>
    rw [hs] at hc
    simp only
    split
    next m hm =>
      refine { h with counted := hc, leaves := fun _ => rfl, gone := fun _ _ => .inr ?_ }
      exact ServerConnection.transition_ne_online (by simp) hm
    next e he =>
      refine { h with counted := hc, leaves := fun _ => rfl, gone := fun _ _ => .inr fun hm => ?_ }
      rw [hm] at he
      cases he
  | releasing =>
    rw [hs] at hc
    refine { h with counted := hc, leaves := fun _ => rfl, gone := fun hl _ => ?_ }
    exact h.gone hl (.inl hs)
  | ended => exact h

theorem Inv.step (h : b.Inv) (m : Stir) : (b.step m).Inv := by
  cases m with
  | beat x => exact h.beat x
  | reader x => exact h.read x
  | writer => exact h.connection id
  | send f => exact h.connection fun hg => gone_send hg f
  | close => exact h.connection gone_close

theorem Inv.run (h : b.Inv) (ms : List Stir) : (b.run ms).Inv := by
  induction ms generalizing b with
  | nil => exact h
  | cons m ms ih => exact ih (h.step m)

theorem started_inv (c : ServerConnection) : (started c).Inv :=
  inv_of_going ⟨by simp [started], by simp [started, ticksSince], by simp [started], .inl (by simp [started])⟩
    (by simp [started])

/-- **A live connection is not given up.** Whenever the heartbeat treats the
connection as lost, a whole interval has gone by since the last PING without a
PONG; and one PING is enough only if the PONG before it came between the load and
the store of `+= 1`. -/
theorem lost_unanswered (c : ServerConnection) (ms : List Stir) (before : List Sign)
    (h : .lost :: before <:+ ((started c).run ms).log) : Unanswered before :=
  ((started_inv c).run ms).unanswered before h

/-- The PONG for the first PING falls into the gap of the second. -/
def hasty : List Stir :=
  List.replicate 11 (.beat { timedOut := true }) ++
    [.reader (.frame { type := .pong, id := .str "r", ts := 0 })] ++
    List.replicate 6 (.beat { timedOut := true })

/-- One unanswered PING, and the connection is given up. -/
theorem hasty_unanswered :
    ((started { machine := .online, reader := .reading }).run hasty).log =
        [.lost, .tick, .ping, .pong true, .tick, .ping, .tick] ∧
      Unanswered [.tick, .ping, .pong true, .tick, .ping, .tick] := by
  have hlog : ((started { machine := .online, reader := .reading }).run hasty).log =
      [.lost, .tick, .ping, .pong true, .tick, .ping, .tick] := by decide +kernel
  exact ⟨hlog, lost_unanswered { machine := .online, reader := .reading } hasty _ (hlog ▸ List.suffix_rfl)⟩

/-- **A dead connection is noticed.** Without a PONG the loop does not wait more than
three times, and where it has given up the connection is not used again. -/
theorem silence_ends (c : ServerConnection) (ms : List Stir) :
    ticksSince ((started c).run ms).log ≤ 3 ∧
      (((started c).run ms).stands = .waiting → ticksSince ((started c).run ms).log ≤ 2) ∧
      (.lost ∈ ((started c).run ms).log → ((started c).run ms).stands = .ended →
        ((started c).run ms).connection.closing = true ∨ ((started c).run ms).connection.machine ≠ .online) := by
  have h := (started_inv c).run ms
  refine ⟨h.counted.ticks, fun hs => ?_, fun hl hs => h.gone hl (.inr hs)⟩
  have hc := h.counted
  rw [hs] at hc
  exact hc.2.1.trans hc.1

end Beating

end Heartbeat

end Client

end Ciphertext
