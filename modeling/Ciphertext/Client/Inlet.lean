import Ciphertext.Common.Pipe
import Ciphertext.Server.ReadLoop

/-!
# Both ends of a pipe

`ServerConnection._read_loop` and `ClientHandler._read_loop` read alike: what
`recv` returns goes through a `LineBuffer`, and each line that decodes is passed
on. They differ in what they do about the rest. `readOver` is the loop they
share, and `readOver_due` what it does with the lines of frames that can be read
back: it passes them on in order, and never finds anything else.

With `Pipe.Reach.arrived` this makes a connection a queue, in either direction:
`Pipe.Reach.fifo`.

What has to be asked of the frames is `Frame.Readable`: that each, if it can be encoded,
is read back from its line, and that the line is no longer than `MAX_LINE_BYTES`. The
server writes one that is longer where a page of history is, and the client's reader
gives up there. `Pipe.Reach.fifo` is about all interleavings of what is queued, written,
cut and received.
-/

namespace Ciphertext

open Prog MessageRouter

/-! ## The loop -/

/-- The loop over what `recv` returns. `closed k` says whether the connection is
closed when that is tested for the `k`th time. -/
def readOver {σ : Type} (readChunk : List UInt8 → σ → LoopStatus × σ) (closed : Nat → Bool) :
    Nat → List (List UInt8) → σ → LoopStatus × σ
  | k, [], r => (if closed k then .returned else .reading, r)
  | k, chunk :: chunks, r =>
    if closed k then (.returned, r)
    else
      match readChunk chunk r with
      | (.reading, r') => readOver readChunk closed (k + 1) chunks r'
      | ended => ended

section Due

variable [Runtime] [JsonErrors] {σ β : Type} {buffer : σ → LineBuffer} {out : σ → List β} {pass : Frame → β}

/-- What is passed on of the frames that are due, and what is due after. -/
def PassesOn (buffer : σ → LineBuffer) (out : σ → List β) (pass : Frame → β) (more more' : List UInt8)
    (fs : List Frame) (lines : List (List UInt8)) (r : σ) (done : LoopStatus × σ) : Prop :=
  ∃ k ≤ fs.length, out done.2 = out r ++ (fs.take k).map pass ∧
    (done.1 = .reading → (buffer done.2).Due more' (fs.drop k) (lines.drop k) ∧
      ((buffer r).buffer ++ more = Lines.join delimiter lines →
        (buffer done.2).buffer ++ more' = Lines.join delimiter (lines.drop k)))

variable (buffer out pass) in
/-- **A loop over chunks passes on what each of them completes.** -/
theorem readOver_due {readChunk : List UInt8 → σ → LoopStatus × σ}
    (hchunk : ∀ chunk r more fs lines, chunk ≠ [] → (buffer r).Due (chunk ++ more) fs lines →
      PassesOn buffer out pass (chunk ++ more) more fs lines r (readChunk chunk r))
    (closed : Nat → Bool) (j : Nat) {chunks : List (List UInt8)} (hne : ∀ c ∈ chunks, c ≠ []) {r : σ}
    {fs : List Frame} {lines : List (List UInt8)} (h : (buffer r).Due chunks.flatten fs lines) :
    PassesOn buffer out pass chunks.flatten [] fs lines r (readOver readChunk closed j chunks r) := by
  induction chunks generalizing j r fs lines with
  | nil => exact ⟨0, Nat.zero_le _, by simp [readOver], fun _ => ⟨by simpa [readOver] using h, by simp [readOver]⟩⟩
  | cons chunk chunks ih =>
    unfold readOver
    by_cases hclosed : closed j = true
    · rw [if_pos hclosed]
      refine ⟨0, Nat.zero_le _, by simp, ?_⟩
      rintro ⟨⟩
    · rw [if_neg hclosed]
      obtain ⟨k, hk, hout, hdue⟩ := hchunk chunk r chunks.flatten fs lines (hne _ (List.mem_cons_self ..)) h
      rcases hread : readChunk chunk r with ⟨status, r'⟩
      rw [hread] at hout hdue
      cases status with
      | reading =>
        obtain ⟨hdue, hall⟩ := hdue rfl
        obtain ⟨m, hm, hout', hdue'⟩ := ih (j + 1) (fun c hc => hne c (List.mem_cons_of_mem _ hc)) hdue
        rw [List.length_drop] at hm
        refine ⟨k + m, by omega, ?_, fun hreading => ?_⟩
        · rw [hout', hout, List.append_assoc, List.take_add, List.map_append]
        · obtain ⟨hdue', hall'⟩ := hdue' hreading
          rw [List.drop_drop, List.drop_drop] at hdue'
          rw [List.drop_drop] at hall'
          exact ⟨hdue', fun heq => hall' (hall heq)⟩
      | returned =>
        refine ⟨k, hk, hout, ?_⟩
        rintro ⟨⟩
      | raised e =>
        refine ⟨k, hk, hout, ?_⟩
        rintro ⟨⟩

end Due

/-! ## The server's end -/

namespace ClientHandler

variable [Runtime] [JsonErrors] {cfg : Config} {s : Sid}

theorem readLoop_eq (closed : Nat → Bool) (j : Nat) (chunks : List (List UInt8)) (r : Reader) :
    readLoop cfg s closed j chunks r = readOver (readChunk cfg s) closed j chunks r := by
  induction chunks generalizing j r with
  | nil => rfl
  | cons chunk chunks ih =>
    unfold readLoop readOver
    split
    · rfl
    · rcases readChunk cfg s chunk r with ⟨status, r'⟩
      cases status with
      | reading => exact ih (j + 1) r'
      | returned => rfl
      | raised e => rfl

variable (cfg s) in
/-- Lines that decode are handed to the router, as far as it goes on. -/
theorem serveLines_decoded {texts : List Str} {fs : List Frame}
    (h : List.Forall₂ (fun t f => ∀ newId now, decode newId now t = .ok f) texts fs) (r : Reader) :
    ∃ k ≤ fs.length, (serveLines cfg s texts r).2.replies = r.replies ++ (fs.take k).map .handed ∧
      ((serveLines cfg s texts r).1 = none → k = fs.length) ∧ (serveLines cfg s texts r).2.buffer = r.buffer := by
  induction h generalizing r with
  | nil => exact ⟨0, Nat.le_refl _, by simp [serveLines], fun _ => rfl, rfl⟩
  | @cons t f texts fs hd _ ih =>
    unfold serveLines serveLine
    dsimp only
    rw [hd]
    dsimp only
    cases hdone : ((handle cfg s f).exec
        { r.world with uuids := r.world.uuids + 1, reads := r.world.reads + 1 }).1 with
    | error e =>
      refine ⟨1, by simp, by simp, ?_, rfl⟩
      rintro ⟨⟩
    | ok _ =>
      obtain ⟨k, hk, hreplies, hall, hbuffer⟩ := ih { r with
        world := ((handle cfg s f).exec { r.world with uuids := r.world.uuids + 1, reads := r.world.reads + 1 }).2
        replies := r.replies ++ [.handed f] }
      refine ⟨k + 1, Nat.succ_le_succ hk, ?_, fun hnone => congrArg Nat.succ (hall hnone), hbuffer⟩
      rw [hreplies, List.append_assoc]
      rfl

theorem readChunk_due {chunk : List UInt8} {r : Reader} {more : List UInt8} {fs : List Frame}
    {lines : List (List UInt8)} (hne : chunk ≠ []) (h : r.buffer.Due (chunk ++ more) fs lines) :
    PassesOn Reader.buffer Reader.replies .handed (chunk ++ more) more fs lines r (readChunk cfg s chunk r) := by
  obtain ⟨k, hk, texts, left, hfeed, hdecode, hdue, hall⟩ := h.feed
  have hempty : chunk.isEmpty = false := by simpa using hne
  unfold readChunk
  rw [hempty, hfeed]
  dsimp only
  rw [if_neg (by simp)]
  obtain ⟨m, hm, hreplies, hdone, hbuffer⟩ := serveLines_decoded cfg s hdecode
    { r with buffer := { r.buffer with buffer := left } }
  rw [List.length_take] at hm hdone
  rcases hserve : serveLines cfg s texts { r with buffer := { r.buffer with buffer := left } } with ⟨- | e, r'⟩
  · rw [hserve] at hreplies hdone hbuffer
    obtain rfl : m = k := by
      have := hdone rfl
      omega
    refine ⟨m, hk, ?_, fun _ => ?_⟩
    · rw [hreplies, List.take_take, Nat.min_self]
    · dsimp only at hbuffer ⊢
      rw [hbuffer]
      exact ⟨hdue, hall⟩
  · rw [hserve] at hreplies
    refine ⟨m, by omega, ?_, ?_⟩
    · rw [hreplies, List.take_take, Nat.min_eq_left (by omega)]
    · rintro ⟨⟩

end ClientHandler

/-! ## The client's end -/

namespace Client

variable [Runtime] [JsonErrors]

/-- The loop's own state: the unfinished line, what `_deliver` was given, and how
many lines it has decoded. -/
structure Inlet where
  buffer : LineBuffer := {}
  delivered : List Frame := []
  decoded : Nat := 0

namespace Inlet

/-- `for line in lines`. A line that is not a frame is skipped; what `_deliver`
calls may raise, which it catches. -/
def serveLines (supply : Nat → Str × Int) : List Str → Inlet → Option PyErr × Inlet
  | [], r => (none, r)
  | line :: rest, r =>
    let r := { r with decoded := r.decoded + 1 }
    match decode (supply r.decoded).1 (supply r.decoded).2 line with
    | .ok f => serveLines supply rest { r with delivered := r.delivered ++ [f] }
    | .error (.protocol _) => serveLines supply rest r
    | .error (.raised e) => (some e, r)

/-- What one `recv` returned. The loop is left when the server hung up or sent
something unreadable. -/
def readChunk (supply : Nat → Str × Int) (chunk : List UInt8) (r : Inlet) : LoopStatus × Inlet :=
  if chunk.isEmpty then (.returned, r)
  else
    match r.buffer.feed chunk with
    | (.error _, buffer) => (.returned, { r with buffer })
    | (.ok lines, buffer) =>
      match serveLines supply lines { r with buffer } with
      | (none, r') => (.reading, r')
      | (some e, r') => (.raised e, r')

/-- `_read_loop`, up to the `finally`. -/
def readLoop (supply : Nat → Str × Int) (closing : Nat → Bool) (chunks : List (List UInt8)) : LoopStatus × Inlet :=
  readOver (readChunk supply) closing 0 chunks {}

variable {supply : Nat → Str × Int}

variable (supply) in
theorem serveLines_decoded {texts : List Str} {fs : List Frame}
    (h : List.Forall₂ (fun t f => ∀ newId now, decode newId now t = .ok f) texts fs) (r : Inlet) :
    ∃ n, serveLines supply texts r = (none, { r with delivered := r.delivered ++ fs, decoded := n }) := by
  induction h generalizing r with
  | nil => exact ⟨r.decoded, by simp [serveLines]⟩
  | @cons t f texts fs hd _ ih =>
    unfold serveLines
    dsimp only
    rw [hd]
    obtain ⟨n, hn⟩ := ih { r with decoded := r.decoded + 1, delivered := r.delivered ++ [f] }
    refine ⟨n, hn.trans ?_⟩
    simp

theorem readChunk_due {chunk : List UInt8} {r : Inlet} {more : List UInt8} {fs : List Frame}
    {lines : List (List UInt8)} (hne : chunk ≠ []) (h : r.buffer.Due (chunk ++ more) fs lines) :
    PassesOn Inlet.buffer Inlet.delivered id (chunk ++ more) more fs lines r (readChunk supply chunk r) := by
  obtain ⟨k, hk, texts, left, hfeed, hdecode, hdue, hall⟩ := h.feed
  have hempty : chunk.isEmpty = false := by simpa using hne
  obtain ⟨n, hn⟩ := serveLines_decoded supply hdecode { r with buffer := { r.buffer with buffer := left } }
  unfold readChunk
  rw [hempty, hfeed]
  dsimp only
  rw [if_neg (by simp), hn]
  exact ⟨k, hk, by simp, fun _ => ⟨hdue, hall⟩⟩

end Inlet

end Client

/-! ## The two together -/

section Fifo

variable [Runtime] [JsonErrors] {limit : Nat} {p : Pipe}

omit [JsonErrors] in
theorem Pipe.Reach.nonempty (h : Pipe.Reach limit p) : ∀ c ∈ p.chunks, c ≠ [] := by
  induction h with
  | start => simp
  | step _ hs ih =>
    cases hs with
    | recv chunk rest hf hne hlen =>
      intro c hc
      rcases List.mem_append.mp hc with hc | hc
      · exact ih c hc
      · rw [List.mem_singleton.mp hc]
        exact hne
    | _ => exact ih

/-- The frame can be read back from its line. -/
def Frame.Readable (limit : Nat) (f : Frame) : Prop :=
  ∀ line, encode f = .ok (line ++ [delimiter]) → Conveys limit f line

omit [JsonErrors] in
theorem encode_line {f : Frame} {wire : List UInt8} (h : encode f = .ok wire) : ∃ line, wire = line ++ [delimiter] := by
  unfold encode at h
  split at h
  · cases h
  · split at h
    · cases h
    · split at h
      · cases h
      · cases h
        exact ⟨_, rfl⟩

/-- The lines of frames that can be encoded and read back. -/
theorem lines_of_readable {fs : List Frame} (hsome : ∀ f ∈ fs, f.wire?.isSome = true)
    (hread : ∀ f ∈ fs, f.Readable maxLineBytes) :
    ∃ lines, List.Forall₂ (Conveys maxLineBytes) fs lines ∧
      (fs.filterMap Frame.wire?).flatten = Lines.join delimiter lines := by
  induction fs with
  | nil => exact ⟨[], .nil, rfl⟩
  | cons f fs ih =>
    obtain ⟨lines, hlines, hjoin⟩ := ih (fun g hg => hsome g (List.mem_cons_of_mem _ hg))
      fun g hg => hread g (List.mem_cons_of_mem _ hg)
    obtain ⟨wire, hwire⟩ := Option.isSome_iff_exists.mp (hsome f (List.mem_cons_self ..))
    have hencode : encode f = .ok wire := by
      unfold Frame.wire? at hwire
      cases he : encode f with
      | error e =>
        rw [he] at hwire
        cases hwire
      | ok wire' =>
        rw [he] at hwire
        exact congrArg Except.ok (Option.some.inj hwire)
    obtain ⟨line, rfl⟩ := encode_line hencode
    refine ⟨line :: lines, .cons (hread f (List.mem_cons_self ..) line hencode) hlines, ?_⟩
    rw [List.filterMap_cons, hwire, Lines.join_cons, ← hjoin]
    simp

theorem Pipe.Reach.due (h : Pipe.Reach limit p) (hread : ∀ f ∈ outgoingFrames p.queued, f.Readable maxLineBytes) :
    ∃ lines, LineBuffer.Due {} p.chunks.flatten (outgoingFrames p.queued) lines ∧
      (p.RunDry → ([] : List UInt8) ++ p.chunks.flatten = Lines.join delimiter lines) := by
  obtain ⟨lines, hlines, hjoin⟩ := lines_of_readable (fun f hf => (List.mem_filter.mp hf).2) hread
  obtain ⟨hbegun, hall⟩ := h.arrived
  have hwire : wireOf p.queued = Lines.join delimiter lines := hjoin
  rw [hwire] at hbegun hall
  exact ⟨lines, ⟨List.not_mem_nil, hlines, hbegun⟩, hall⟩

/-- What is passed on when the pipe has run dry and the loop still reads is all. -/
theorem PassesOn.all {σ β : Type} {buffer : σ → LineBuffer} {out : σ → List β} {pass : Frame → β} {more : List UInt8}
    {fs : List Frame} {lines : List (List UInt8)} {r : σ} {done : LoopStatus × σ}
    (h : PassesOn buffer out pass more [] fs lines r done) :
    ∃ k, out done.2 = out r ++ (fs.take k).map pass ∧
      ((buffer r).buffer ++ more = Lines.join delimiter lines → done.1 = .reading →
        out done.2 = out r ++ fs.map pass) := by
  obtain ⟨k, hk, hout, hdue⟩ := h
  refine ⟨k, hout, fun heq hreading => ?_⟩
  obtain ⟨hdue, hall⟩ := hdue hreading
  have hnone := hdue.ended (hall heq)
  rw [hout, List.take_of_length_le (List.drop_eq_nil_iff.mp hnone)]

/-- **A connection is a queue, in either direction.** Whatever the threads at both ends and the
network do: the server hands to its router, and the client to `_deliver`, frames that were put in
the other end's outbox, in that order, each once and none left out before the last, and nothing
else; not one line is refused. Once the pipe has run dry, an end that still reads has passed on
all of them. -/
theorem Pipe.Reach.fifo (h : Pipe.Reach limit p)
    (hread : ∀ f ∈ outgoingFrames p.queued, f.Readable maxLineBytes) (closed : Nat → Bool) :
    (∀ cfg s w, ∃ k, let done := ClientHandler.readLoop cfg s closed 0 p.chunks { world := w }
      done.2.replies = ((outgoingFrames p.queued).take k).map .handed ∧
        (p.RunDry → done.1 = .reading → done.2.replies = (outgoingFrames p.queued).map .handed)) ∧
    ∀ supply, ∃ k, let done := Client.Inlet.readLoop supply closed p.chunks
      done.2.delivered = (outgoingFrames p.queued).take k ∧
        (p.RunDry → done.1 = .reading → done.2.delivered = outgoingFrames p.queued) := by
  obtain ⟨lines, hdue, hall⟩ := h.due hread
  refine ⟨fun cfg s w => ?_, fun supply => ?_⟩
  · obtain ⟨k, hout, hdone⟩ := (readOver_due Reader.buffer Reader.replies .handed
      (fun chunk r more fs lines hne h => ClientHandler.readChunk_due hne h)
      closed 0 h.nonempty (r := { world := w }) hdue).all
    rw [← ClientHandler.readLoop_eq] at hout hdone
    exact ⟨k, hout, fun hdry hreading => hdone (hall hdry) hreading⟩
  · obtain ⟨k, hout, hdone⟩ := (readOver_due Client.Inlet.buffer Client.Inlet.delivered id
      (fun chunk r more fs lines hne h => Client.Inlet.readChunk_due hne h)
      closed 0 h.nonempty (r := {}) hdue).all
    refine ⟨k, hout.trans ?_, fun hdry hreading => (hdone (hall hdry) hreading).trans ?_⟩
    · rw [List.map_id, List.nil_append]
    · rw [List.map_id, List.nil_append]

end Fifo

/-! ## A frame and the end -/

section Concrete

open Sample

attribute [local instance] wireRuntime wireErrors

/-- The line of the sample. -/
def greetingWire : List UInt8 := (Json.dict greetingDict).text.utf8 ++ [delimiter]

/-- The sample is queued, the connection closed behind it, and everything sent and received. -/
def greeted : Pipe where
  writer := .stopped
  queued := [some greeting, none]
  chunks := [greetingWire]

theorem greeting_encode : encode greeting = .ok greetingWire := by decide +kernel

theorem greeted_reach : Pipe.Reach 100 greeted := by
  have hqueued : Pipe.Reach 100 { outbox := [some greeting, none], queued := [some greeting, none] } :=
    (Pipe.Reach.start.step (.put (some greeting) (by decide))).step (.put none (by decide))
  have htaken : WriterAt.taken (some greeting) = .sending (greetingWire ++ []) := by
    rw [List.append_nil]
    exact WriterAt.taken_encoded greeting_encode
  have hgot := hqueued.step (.get rfl rfl)
  rw [htaken] at hgot
  have hsent := hgot.step (.sendall greetingWire [] rfl (by decide +kernel))
  have hended := hsent.step (.get rfl rfl)
  exact hended.step (.recv greetingWire [] (by rw [List.append_nil]; rfl) (by decide +kernel) (by decide +kernel))

/-- The client's loop delivers it. -/
theorem greeted_fifo :
    (Client.Inlet.readLoop (fun _ => ("", 0)) (fun _ => false) greeted.chunks).2.delivered = [greeting] := by
  have hframes : outgoingFrames greeted.queued = [greeting] := by
    have hsome : greeting.wire?.isSome = true := congrArg (fun r => (Except.toOption r).isSome) greeting_encode
    show [greeting].filter (fun f => f.wire?.isSome) = [greeting]
    rw [List.filter_cons, if_pos hsome, List.filter_nil]
  have hdict : greeting.toDict = .ok greetingDict := by decide +kernel
  have hplain : greeting.Plain :=
    ⟨rfl, ⟨_, rfl, by decide⟩, fun v hv => .inr (by
      simp only [List.mem_cons, List.not_mem_nil, or_false] at hv
      rcases hv with rfl | rfl | rfl | rfl <;> exact ⟨_, rfl⟩)⟩
  have hread : greeting.Readable maxLineBytes := by
    intro line hline
    refine conveys_of_plain (fun x => (by decide : (Str.ofString "0.5").visible)) (fun d hd => ?_) hplain hline ?_
    · obtain rfl := Except.ok.inj (hdict.symm.trans hd)
      decide +kernel
    · have hwire : line ++ [delimiter] = greetingWire := Except.ok.inj (hline.symm.trans greeting_encode)
      have hlen := congrArg List.length hwire
      have hshort : greetingWire.length ≤ maxLineBytes := by decide +kernel
      simp only [List.length_append, List.length_singleton] at hlen
      omega
  obtain ⟨-, hclient⟩ := greeted_reach.fifo (by
    intro f hf
    rw [hframes] at hf
    rw [List.mem_singleton.mp hf]
    exact hread) fun _ => false
  obtain ⟨k, -, hall⟩ := hclient fun _ => ("", 0)
  rw [hall ⟨.inr rfl, rfl⟩ (by decide +kernel), hframes]

end Concrete

end Ciphertext
