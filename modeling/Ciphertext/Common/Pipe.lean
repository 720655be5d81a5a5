import Ciphertext.Common.RoundTrip

/-!
# From one outbox to the other end

What both ends do to send: `send` puts a frame in a bounded queue, and a thread
of its own (`_write_loop`) takes it out, encodes it and hands it to `sendall`,
which passes the bytes to the socket in pieces and may fail between any two of
them. The other end gets them from `recv`, cut wherever the network cut them.

A frame that cannot be encoded is skipped, `_STOP` ends the thread, and so does
a socket that fails. `Pipe.Reach.arrived` is what is left of all that for the
other end: the bytes it has are the beginning of the lines of the frames that
were queued, in the order they were queued, and once the pipe has run dry they
are all of it. Read as lines, that is a number of frames and a piece of the next
(`Lines.split_prefix_join`).
-/

namespace Ciphertext

/-- What a prefix of some lines is read as: some of the lines, and a piece of
the one after them. -/
theorem Lines.split_prefix_join {α : Type} [DecidableEq α] {d : α} {ls : List (List α)} {as : List α}
    (hls : ∀ l ∈ ls, d ∉ l) (h : as <+: Lines.join d ls) :
    ∃ k ≤ ls.length, (Lines.split d as).1 = ls.take k ∧
      ∀ n, (∀ l ∈ ls, l.length ≤ n) → (Lines.split d as).2.length ≤ n := by
  induction ls generalizing as with
  | nil =>
    obtain rfl := List.prefix_nil.mp h
    exact ⟨0, Nat.le_refl _, rfl, fun n _ => Nat.zero_le n⟩
  | cons l ls ih =>
    rw [Lines.join_cons] at h
    have hl := hls l (List.mem_cons_self ..)
    by_cases hd : d ∈ as
    · -- the first line is complete
      obtain ⟨cs, hcs⟩ := h
      have hlen : (l ++ [d]).length ≤ as.length := by
        by_contra hshort
        have hpre : as <+: l := by
          refine List.prefix_of_prefix_length_le ⟨cs, hcs⟩ (List.prefix_append ..) ?_
          simp only [List.length_append, List.length_singleton] at hshort
          omega
        exact hl (hpre.subset hd)
      have hpre : l ++ [d] <+: as :=
        List.prefix_of_prefix_length_le ⟨Lines.join d ls, by simp⟩ ⟨cs, hcs⟩ hlen
      obtain ⟨as', rfl⟩ : ∃ as', as = l ++ d :: as' := by
        obtain ⟨as', he⟩ := hpre
        exact ⟨as', by simpa using he.symm⟩
      have hrest : as' <+: Lines.join d ls := ⟨cs, by simpa using hcs⟩
      obtain ⟨k, hk, hlines, hleft⟩ := ih (fun l' hl' => hls l' (List.mem_cons_of_mem _ hl')) hrest
      rw [Lines.split_append_line hl]
      exact ⟨k + 1, Nat.succ_le_succ hk, by rw [hlines, List.take_succ_cons],
        fun n hn => hleft n fun l' hl' => hn l' (List.mem_cons_of_mem _ hl')⟩
    · rw [Lines.split_of_notMem hd]
      refine ⟨0, Nat.zero_le _, rfl, fun n hn => Nat.le_trans ?_ (hn l (List.mem_cons_self ..))⟩
      show as.length ≤ l.length
      by_contra hlong
      -- a piece longer than the line would hold its delimiter
      have hpre : l ++ [d] <+: as := by
        refine List.prefix_of_prefix_length_le ⟨Lines.join d ls, by simp⟩ h ?_
        simp only [List.length_append, List.length_singleton]
        omega
      exact hd (hpre.subset (by simp))

variable [Runtime]

/-! ## The writer's end -/

/-- The line of a frame, for one that can be encoded. -/
def Frame.wire? (f : Frame) : Option (List UInt8) := (encode f).toOption

/-- Where `_write_loop` stands: at `get`, inside `sendall` with bytes still to
pass on, returned after `_STOP`, or returned because the socket failed. -/
inductive WriterAt where
  | waiting
  | sending (left : List UInt8)
  | stopped
  | failed
deriving DecidableEq

/-- What the writer does with what it has taken out of the queue; `none` is
`_STOP`. -/
def WriterAt.taken : Option Frame → WriterAt
  | none => .stopped
  | some f =>
    match encode f with
    | .ok wire => .sending wire
    | .error _ => .waiting

theorem WriterAt.taken_skipped {f : Frame} {e : CodecErr} (h : encode f = .error e) : taken (some f) = .waiting := by
  rw [taken, h]

theorem WriterAt.taken_encoded {f : Frame} {wire : List UInt8} (h : encode f = .ok wire) :
    taken (some f) = .sending wire := by
  rw [taken, h]

/-- After `sendall` has passed some bytes on. -/
def WriterAt.after (left : List UInt8) : WriterAt := if left.isEmpty then .waiting else .sending left

/-- `RECV_BYTES`. -/
def recvBytes : Nat := 4096

/-- One direction of a connection, with all that was ever queued and what every
`recv` has returned. -/
structure Pipe where
  outbox : List (Option Frame) := []
  writer : WriterAt := .waiting
  flight : List UInt8 := []
  queued : List (Option Frame) := []
  chunks : List (List UInt8) := []

namespace Pipe

/-- What can happen to it. Any thread may queue a frame or `_STOP` while there is
room; the socket may fail at any moment. -/
inductive Step (limit : Nat) : Pipe → Pipe → Prop
  | put {p : Pipe} (x : Option Frame) (h : p.outbox.length < limit) :
      Step limit p { p with outbox := p.outbox ++ [x], queued := p.queued ++ [x] }
  | get {p : Pipe} {x : Option Frame} {rest : List (Option Frame)} (hw : p.writer = .waiting)
      (h : p.outbox = x :: rest) : Step limit p { p with outbox := rest, writer := .taken x }
  | sendall {p : Pipe} (bytes left : List UInt8) (hw : p.writer = .sending (bytes ++ left)) (h : bytes ≠ []) :
      Step limit p { p with flight := p.flight ++ bytes, writer := .after left }
  | fail {p : Pipe} {left : List UInt8} (hw : p.writer = .sending left) :
      Step limit p { p with writer := .failed }
  | recv {p : Pipe} (chunk rest : List UInt8) (hf : p.flight = chunk ++ rest) (h : chunk ≠ [])
      (hlen : chunk.length ≤ recvBytes) : Step limit p { p with flight := rest, chunks := p.chunks ++ [chunk] }

/-- What can come about from an idle connection. -/
inductive Reach (limit : Nat) : Pipe → Prop
  | start : Reach limit {}
  | step {p q : Pipe} (h : Reach limit p) (hs : Step limit p q) : Reach limit q

end Pipe

/-- The frames of a queue that go out: those before `_STOP` that can be encoded. -/
def outgoingFrames (queued : List (Option Frame)) : List Frame :=
  ((queued.takeWhile Option.isSome).filterMap id).filter fun f => f.wire?.isSome

/-- Their lines. -/
def wireOf (queued : List (Option Frame)) : List UInt8 :=
  ((outgoingFrames queued).filterMap Frame.wire?).flatten

section Sent

variable {xs : List (Option Frame)}

/-- What the writer has dealt with: frames, `_STOP` not among them. -/
def Frames (xs : List (Option Frame)) : Prop := ∀ x ∈ xs, x.isSome = true

omit [Runtime] in
theorem Frames.snoc (h : Frames xs) (f : Frame) : Frames (xs ++ [some f]) := by
  intro x hx
  rcases List.mem_append.mp hx with hx | hx
  · exact h x hx
  · rw [List.mem_singleton.mp hx]
    rfl

theorem wireOf_append (h : Frames xs) (ys : List (Option Frame)) : wireOf (xs ++ ys) = wireOf xs ++ wireOf ys := by
  have htake : (xs ++ ys).takeWhile Option.isSome = xs ++ ys.takeWhile Option.isSome :=
    List.takeWhile_append_of_pos h
  have hall : xs.takeWhile Option.isSome = xs := List.takeWhile_eq_self_iff.mpr h
  simp [wireOf, outgoingFrames, htake, hall]

theorem wireOf_stop (xs : List (Option Frame)) : wireOf (none :: xs) = [] := rfl

theorem wireOf_encoded {f : Frame} {wire : List UInt8} (h : encode f = .ok wire) : wireOf [some f] = wire := by
  simp [wireOf, outgoingFrames, Frame.wire?, h, Except.toOption]

theorem wireOf_skipped {f : Frame} {e : CodecErr} (h : encode f = .error e) : wireOf [some f] = [] := by
  simp [wireOf, outgoingFrames, Frame.wire?, h, Except.toOption]

end Sent

namespace Pipe

variable {limit : Nat} {p q : Pipe}

/-- What the writer has made of the queue: it is done with `done`, and of the
frame it is at it has passed on `sent`. -/
def WriterInv (p : Pipe) (done : List (Option Frame)) (sent : List UInt8) : WriterAt → Prop
  | .waiting => p.queued = done ++ p.outbox ∧ sent = []
  | .stopped => p.queued = done ++ none :: p.outbox ∧ sent = []
  | .sending left => ∃ f, p.queued = done ++ some f :: p.outbox ∧ encode f = .ok (sent ++ left) ∧ left ≠ []
  | .failed => ∃ f left, p.queued = done ++ some f :: p.outbox ∧ encode f = .ok (sent ++ left)

/-- Every byte of what the writer is done with, and what it has passed on since,
has arrived or is under way. -/
def Inv (p : Pipe) : Prop :=
  ∃ done sent, Frames done ∧ p.WriterInv done sent p.writer ∧ p.chunks.flatten ++ p.flight = wireOf done ++ sent

theorem encode_ne_nil {f : Frame} {wire : List UInt8} (h : encode f = .ok wire) : wire ≠ [] := by
  unfold encode at h
  split at h
  · cases h
  · split at h
    · cases h
    · split at h
      · cases h
      · cases h
        simp

theorem Step.inv (hs : Step limit p q) (h : p.Inv) : q.Inv := by
  obtain ⟨done, sent, hdone, hwriter, hbytes⟩ := h
  cases hs with
  | put x hroom =>
    refine ⟨done, sent, hdone, ?_, hbytes⟩
    unfold WriterInv at hwriter ⊢
    dsimp only
    cases hw : p.writer with
    | waiting =>
      rw [hw] at hwriter
      exact ⟨by rw [hwriter.1, List.append_assoc], hwriter.2⟩
    | stopped =>
      rw [hw] at hwriter
      exact ⟨by rw [hwriter.1, List.append_assoc, List.cons_append], hwriter.2⟩
    | sending left =>
      rw [hw] at hwriter
      obtain ⟨f, hqueued, hf⟩ := hwriter
      exact ⟨f, by rw [hqueued, List.append_assoc, List.cons_append], hf⟩
    | failed =>
      rw [hw] at hwriter
      obtain ⟨f, left, hqueued, hf⟩ := hwriter
      exact ⟨f, left, by rw [hqueued, List.append_assoc, List.cons_append], hf⟩
  | @get x rest hw hout =>
    rw [hw] at hwriter
    obtain ⟨hqueued, rfl⟩ := hwriter
    rw [hout] at hqueued
    cases x with
    | none => exact ⟨done, [], hdone, ⟨hqueued, rfl⟩, hbytes⟩
    | some f =>
      cases he : encode f with
      | error e =>
        -- skipped: it counts as dealt with, and has no bytes
        refine ⟨done ++ [some f], [], hdone.snoc f, ?_, ?_⟩
        · rw [WriterAt.taken_skipped he]
          exact ⟨by rw [hqueued, List.append_assoc, List.singleton_append], rfl⟩
        · rw [wireOf_append hdone, wireOf_skipped he, List.append_nil]
          exact hbytes
      | ok wire =>
        refine ⟨done, [], hdone, ?_, hbytes⟩
        rw [WriterAt.taken_encoded he]
        exact ⟨f, hqueued, he, encode_ne_nil he⟩
  | sendall bytes left hw hne =>
    rw [hw] at hwriter
    obtain ⟨f, hqueued, he, -⟩ := hwriter
    have hsent : p.chunks.flatten ++ (p.flight ++ bytes) = wireOf done ++ (sent ++ bytes) := by
      rw [← List.append_assoc, hbytes, List.append_assoc]
    cases left with
    | nil =>
      -- the whole frame has been passed on
      rw [List.append_nil] at he
      refine ⟨done ++ [some f], [], hdone.snoc f, ⟨?_, rfl⟩, ?_⟩
      · rw [hqueued, List.append_assoc, List.singleton_append]
      · rw [wireOf_append hdone, wireOf_encoded he, List.append_nil]
        exact hsent
    | cons b left => exact ⟨done, sent ++ bytes, hdone, ⟨f, hqueued, by rwa [List.append_assoc], by simp⟩, hsent⟩
  | @fail left hw =>
    rw [hw] at hwriter
    obtain ⟨f, hqueued, he, -⟩ := hwriter
    exact ⟨done, sent, hdone, ⟨f, left, hqueued, he⟩, hbytes⟩
  | recv chunk rest hf hne hlen =>
    refine ⟨done, sent, hdone, hwriter, ?_⟩
    rw [← hbytes, hf]
    simp

theorem Reach.inv (h : Reach limit p) : p.Inv := by
  induction h with
  | start =>
    have hnone : Frames [] := by
      intro x hx
      cases hx
    exact ⟨[], [], hnone, ⟨rfl, rfl⟩, rfl⟩
  | step _ hs ih => exact hs.inv ih

/-- Nothing is left to do: the queue is empty or was stopped, and nothing is under way. -/
def RunDry (p : Pipe) : Prop := ((p.writer = .waiting ∧ p.outbox = []) ∨ p.writer = .stopped) ∧ p.flight = []

/-- **What arrives is the beginning of what was queued**, and once the pipe has
run dry all of it. -/
theorem Reach.arrived (h : Reach limit p) :
    p.chunks.flatten <+: wireOf p.queued ∧ (p.RunDry → p.chunks.flatten = wireOf p.queued) := by
  obtain ⟨done, sent, hdone, hwriter, hbytes⟩ := h.inv
  -- what the writer is at belongs to the frame after those it is done with
  have hsent : wireOf done ++ sent <+: wireOf p.queued := by
    cases hw : p.writer with
    | waiting =>
      rw [hw] at hwriter
      rw [hwriter.1, hwriter.2, wireOf_append hdone, List.append_nil]
      exact List.prefix_append ..
    | stopped =>
      rw [hw] at hwriter
      rw [hwriter.1, hwriter.2, wireOf_append hdone, List.append_nil]
      exact List.prefix_append ..
    | sending left =>
      rw [hw] at hwriter
      obtain ⟨f, hqueued, he, -⟩ := hwriter
      rw [hqueued, List.append_cons, wireOf_append (hdone.snoc f), wireOf_append hdone, wireOf_encoded he]
      exact ⟨left ++ wireOf p.outbox, by simp⟩
    | failed =>
      rw [hw] at hwriter
      obtain ⟨f, left, hqueued, he⟩ := hwriter
      rw [hqueued, List.append_cons, wireOf_append (hdone.snoc f), wireOf_append hdone, wireOf_encoded he]
      exact ⟨left ++ wireOf p.outbox, by simp⟩
  refine ⟨(hbytes ▸ List.prefix_append ..).trans hsent, ?_⟩
  rintro ⟨hended, hflight⟩
  rw [hflight, List.append_nil] at hbytes
  rw [hbytes]
  rcases hended with ⟨hw, hout⟩ | hw
  · rw [hw] at hwriter
    rw [hwriter.1, hwriter.2, hout, List.append_nil, List.append_nil]
  · rw [hw] at hwriter
    rw [hwriter.1, hwriter.2, wireOf_append hdone, wireOf_stop]

/-- What is under way can be received. -/
theorem Reach.received (h : Reach limit p) :
    ∃ chunks, Reach limit { p with flight := [], chunks } := by
  generalize hn : p.flight.length = n
  induction n using Nat.strong_induction_on generalizing p with
  | _ n ih =>
    by_cases hflight : p.flight = []
    · refine ⟨p.chunks, ?_⟩
      rw [← hflight]
      exact h
    · have hrecv := h.step (.recv (p.flight.take recvBytes) (p.flight.drop recvBytes)
        (List.take_append_drop ..).symm ?_ (List.length_take_le ..))
      · have hpos := List.length_pos_iff.mpr hflight
        have hshort : (p.flight.drop recvBytes).length < n := by
          rw [List.length_drop]
          simp only [recvBytes]
          omega
        obtain ⟨chunks, hlast⟩ := ih _ hshort hrecv rfl
        exact ⟨chunks, hlast⟩
      · intro hnil
        rcases List.take_eq_nil_iff.mp hnil with hzero | hnil
        · cases hzero
        · exact hflight hnil

/-- The writer can get to the end of its queue. -/
theorem Reach.written (h : Reach limit p) (hw : p.writer ≠ .failed) :
    ∃ q, Reach limit q ∧ ((q.writer = .waiting ∧ q.outbox = []) ∨ q.writer = .stopped) ∧ q.queued = p.queued := by
  generalize hn : p.outbox.length = n
  induction n using Nat.strong_induction_on generalizing p with
  | _ n ih =>
    -- from `get`, with the frame it gets passed on whole
    have hwaiting : ∀ p, Reach limit p → p.writer = .waiting → p.outbox.length = n →
        ∃ q, Reach limit q ∧ ((q.writer = .waiting ∧ q.outbox = []) ∨ q.writer = .stopped) ∧ q.queued = p.queued := by
      intro p h hw hlen
      cases hout : p.outbox with
      | nil => exact ⟨p, h, .inl ⟨hw, hout⟩, rfl⟩
      | cons x rest =>
        have hget := h.step (.get hw hout)
        have hshort : rest.length < n := by
          rw [← hlen, hout]
          exact Nat.lt_succ_self _
        have hne : WriterAt.taken x ≠ .failed := by
          unfold WriterAt.taken
          split
          · simp
          · split <;> simp
        obtain ⟨q, hq⟩ := ih _ hshort hget hne rfl
        exact ⟨q, hq⟩
    cases hat : p.writer with
    | waiting => exact hwaiting p h hat hn
    | stopped => exact ⟨p, h, .inr hat, rfl⟩
    | failed => exact absurd hat hw
    | sending left =>
      obtain ⟨done, sent, -, hwriter, -⟩ := h.inv
      rw [hat] at hwriter
      obtain ⟨f, -, -, hleft⟩ := hwriter
      have hsent := h.step (.sendall left [] (by rwa [List.append_nil]) hleft)
      obtain ⟨q, hq⟩ := hwaiting _ hsent rfl hn
      exact ⟨q, hq⟩

/-- **The pipe can always run dry**, as long as the socket has not failed. -/
theorem Reach.runsDry (h : Reach limit p) (hw : p.writer ≠ .failed) :
    ∃ q, Reach limit q ∧ q.RunDry ∧ q.queued = p.queued := by
  obtain ⟨q, hq, hended, hqueued⟩ := h.written hw
  obtain ⟨chunks, hdry⟩ := hq.received
  exact ⟨_, hdry, ⟨hended, rfl⟩, hqueued⟩

end Pipe

/-! ## The reader's end -/

variable [JsonErrors]

/-- The line that a frame is read back from. -/
structure Conveys (limit : Nat) (f : Frame) (line : List UInt8) : Prop where
  whole : delimiter ∉ line
  short : line.length ≤ limit
  text : ∃ t, LineBuffer.lineText line = some t ∧ t ≠ [] ∧ ∀ newId now, decode newId now t = .ok f

/-- What is in the buffer and what is still to come are the beginning of the
lines of these frames. -/
structure LineBuffer.Due (b : LineBuffer) (more : List UInt8) (fs : List Frame) (lines : List (List UInt8)) : Prop where
  partial' : delimiter ∉ b.buffer
  conveys : List.Forall₂ (Conveys b.maxLineBytes) fs lines
  begins : b.buffer ++ more <+: Lines.join delimiter lines

theorem lineTexts_conveys {limit : Nat} {fs : List Frame} {lines : List (List UInt8)}
    (h : List.Forall₂ (Conveys limit) fs lines) :
    ∃ texts, LineBuffer.lineTexts lines = some texts ∧
      List.Forall₂ (fun t f => ∀ newId now, decode newId now t = .ok f) texts fs := by
  induction h with
  | nil => exact ⟨[], rfl, .nil⟩
  | @cons f line fs lines hf _ ih =>
    obtain ⟨texts, htexts, hdecode⟩ := ih
    obtain ⟨t, ht, hne, hd⟩ := hf.text
    refine ⟨t :: texts, ?_, .cons hd hdecode⟩
    have hkeep : LineBuffer.keep t texts = t :: texts := by
      rw [LineBuffer.keep, if_neg]
      simpa using hne
    rw [LineBuffer.lineTexts, ht, htexts, ← hkeep]
    rfl

omit [Runtime] [JsonErrors] in
theorem Lines.join_take_drop {α : Type} (d : α) (ls : List (List α)) (k : Nat) :
    Lines.join d ls = Lines.join d (ls.take k) ++ Lines.join d (ls.drop k) := by
  rw [Lines.join, Lines.join, Lines.join, ← List.flatten_append, ← List.map_append, List.take_append_drop]

theorem conveys_lines {limit : Nat} {fs : List Frame} {lines : List (List UInt8)}
    (h : List.Forall₂ (Conveys limit) fs lines) : ∀ l ∈ lines, delimiter ∉ l ∧ l.length ≤ limit := by
  induction h with
  | nil => simp
  | cons hf _ ih =>
    intro l hl
    rcases List.mem_cons.mp hl with rfl | hl
    · exact ⟨hf.whole, hf.short⟩
    · exact ih l hl

/-- **One `recv`**: some more of the frames, and the rest is still due. -/
theorem LineBuffer.Due.feed {b : LineBuffer} {chunk more : List UInt8} {fs : List Frame} {lines : List (List UInt8)}
    (h : b.Due (chunk ++ more) fs lines) :
    ∃ k ≤ fs.length, ∃ texts left, b.feed chunk = (.ok texts, { b with buffer := left }) ∧
      List.Forall₂ (fun t f => ∀ newId now, decode newId now t = .ok f) texts (fs.take k) ∧
      LineBuffer.Due { b with buffer := left } more (fs.drop k) (lines.drop k) ∧
      (b.buffer ++ (chunk ++ more) = Lines.join delimiter lines →
        left ++ more = Lines.join delimiter (lines.drop k)) := by
  obtain ⟨-, hconveys, more', hbegins⟩ := h
  have hlines := conveys_lines hconveys
  have hnow : b.buffer ++ chunk <+: Lines.join delimiter lines := ⟨more ++ more', by simpa using hbegins⟩
  obtain ⟨k, hk, hsplit, hleft⟩ := Lines.split_prefix_join (fun l hl => (hlines l hl).1) hnow
  obtain ⟨texts, htexts, hdecode⟩ := lineTexts_conveys (List.forall₂_take k hconveys)
  have hfeed := LineBuffer.feed_eq b chunk
  rw [hsplit, htexts] at hfeed
  dsimp only at hfeed
  rw [if_neg (Nat.not_lt.mpr (hleft _ fun l hl => (hlines l hl).2))] at hfeed
  -- the bytes so far are the lines handed back and what is left
  have hsofar := Lines.join_split (d := delimiter) (b.buffer ++ chunk)
  rw [hsplit] at hsofar
  have hrest : ∀ tail, b.buffer ++ (chunk ++ tail) = Lines.join delimiter lines →
      (Lines.split delimiter (b.buffer ++ chunk)).2 ++ tail = Lines.join delimiter (lines.drop k) := by
    intro tail htail
    rw [← List.append_assoc, ← hsofar, Lines.join_take_drop delimiter lines k, List.append_assoc] at htail
    exact List.append_cancel_left htail
  refine ⟨k, hconveys.length_eq ▸ hk, texts, _, hfeed, hdecode, ⟨?_, List.forall₂_drop k hconveys, more', ?_⟩, hrest more⟩
  · exact (Lines.split_notMem _).2
  · have hcut := hrest (more ++ more') (by simpa using hbegins)
    simpa using hcut

/-- When nothing is left to come and the frames are complete, none is due any more. -/
theorem LineBuffer.Due.ended {b : LineBuffer} {fs : List Frame} {lines : List (List UInt8)} (h : b.Due [] fs lines)
    (hall : b.buffer ++ [] = Lines.join delimiter lines) : fs = [] := by
  cases hl : lines with
  | nil =>
    have hconveys := h.conveys
    rw [hl] at hconveys
    cases hconveys
    rfl
  | cons l ls =>
    rw [hl, List.append_nil, Lines.join_cons] at hall
    refine absurd ?_ h.partial'
    rw [hall]
    simp

/-- Plain frames that `json.loads` reads as they were written are carried. -/
theorem conveys_of_plain {limit : Nat} {f : Frame} {line : List UInt8} (hfloats : Json.FloatsVisible)
    (hloads : ∀ d, f.toDict = .ok d → Runtime.loads (Json.dict d).text = .ok (.dict d)) (hplain : f.Plain)
    (hline : encode f = .ok (line ++ [delimiter])) (hshort : line.length ≤ limit) : Conveys limit f line := by
  obtain ⟨d, hd, henc, rfl⟩ := encode_cases hline
  refine ⟨delimiter_notMem hfloats henc, hshort, _, lineText_text henc, ?_, fun newId now => ?_⟩
  · obtain ⟨front, hfront⟩ := Json.text_dict_last d
    rw [hfront]
    simp
  · rw [decode, hloads d hd]
    show (Frame.fromDict newId now (.dict d)).mapError CodecErr.protocol = .ok f
    rw [Frame.fromDict_toDict hplain hd]
    rfl

end Ciphertext
