import Ciphertext.Common.RoundTrip
import Ciphertext.Server.Runs

/-!
# `ClientHandler._read_loop`

The thread that reads one connection: it feeds what the socket delivers to a
`LineBuffer`, decodes each line, passes a frame to the router and answers a line
that is not one. A line it cannot decode is meant to harm only itself, and that
is so for a line that is not JSON or not a frame. One that is not UTF-8 raises
out of `feed` instead, which the loop takes for a line that is too long: it
answers LINE_TOO_LONG and hangs up, and the lines of the same chunk before it are
gone.

`harmless_iff` says exactly when the loop reads on with a reply for every line, for
every stream without overlong lines and every way of cutting it: if every line is UTF-8,
the unfinished one is not too long, no line makes the parser or the router raise, and
nobody closes the connection. A reply is a frame that is handed to the router, or
BAD_FRAME; which of the two a line has does not depend on the lines around it.
-/

namespace Ciphertext

open Prog MessageRouter

/-- What the loop did about a line. -/
inductive Reply where
  | handed (f : Frame)
  | answered (code message : Str)
deriving DecidableEq

/-- Where the loop stands: waiting for more, returned, or ended by an exception
that nothing in it catches. After either of the last two `serve` closes the
connection. -/
inductive LoopStatus where
  | reading
  | returned
  | raised (e : PyErr)
deriving DecidableEq

/-- The loop's own state beside the server's. -/
structure Reader where
  world : World
  buffer : LineBuffer := {}
  replies : List Reply := []

namespace ClientHandler

variable [Runtime] [JsonErrors]

/-- `self.send(error(code, message))`. -/
def answer (s : Sid) (code message : Str) (r : Reader) : Reader :=
  { r with world := ((refuse s code message).exec r.world).2
           replies := r.replies ++ [.answered code message] }

/-- One line's turn; the exception is one that leaves the loop. The supplies of
ids and readings are endless, so drawing one for every line is drawing one for
the lines without. -/
def serveLine (cfg : Config) (s : Sid) (line : Str) (r : Reader) : Option PyErr × Reader :=
  let w := r.world
  let drawn : World := { w with uuids := w.uuids + 1, reads := w.reads + 1 }
  match decode (w.uuid w.uuids) (w.clock w.reads) line with
  | .ok f =>
    let done := (handle cfg s f).exec drawn
    (match done.1 with | .ok _ => none | .error e => some e,
      { r with world := done.2, replies := r.replies ++ [.handed f] })
  | .error (.protocol message) => (none, answer s "BAD_FRAME" message { r with world := drawn })
  | .error (.raised e) => (some e, { r with world := drawn })

/-- `for line in lines`. -/
def serveLines (cfg : Config) (s : Sid) : List Str → Reader → Option PyErr × Reader
  | [], r => (none, r)
  | line :: rest, r =>
    match serveLine cfg s line r with
    | (none, r') => serveLines cfg s rest r'
    | (some e, r') => (some e, r')

/-- What one `recv` delivered. Nothing means that the peer hung up. -/
def readChunk (cfg : Config) (s : Sid) (chunk : List UInt8) (r : Reader) : LoopStatus × Reader :=
  if chunk.isEmpty then (.returned, r)
  else
    match r.buffer.feed chunk with
    | (.error message, buffer) => (.returned, answer s "LINE_TOO_LONG" message { r with buffer })
    | (.ok lines, buffer) =>
      match serveLines cfg s lines { r with buffer } with
      | (none, r') => (.reading, r')
      | (some e, r') => (.raised e, r')

/-- The loop over what the socket delivers. `closed k` says whether `_closed` is
set when the loop tests it for the `k`th time: another thread may have closed
the connection, or found its outbox full. -/
def readLoop (cfg : Config) (s : Sid) (closed : Nat → Bool) :
    Nat → List (List UInt8) → Reader → LoopStatus × Reader
  | k, [], r => (if closed k then .returned else .reading, r)
  | k, chunk :: chunks, r =>
    if closed k then (.returned, r)
    else
      match readChunk cfg s chunk r with
      | (.reading, r') => readLoop cfg s closed (k + 1) chunks r'
      | ended => ended

/-! ## What becomes of a line -/

/-- What a line that is text should lead to: a frame passed on, or one answer
that it is none. -/
def Answers (line : Str) : Reply → Prop
  | .handed f => ∃ newId now, decode newId now line = .ok f
  | .answered code message =>
    code = "BAD_FRAME" ∧ ∀ newId now, decode newId now line = .error (.protocol message)

/-- Whether a line is a frame, and why not, does not depend on the defaults. -/
theorem decode_protocol {newId : Str} {now : Int} {line message : Str}
    (h : decode newId now line = .error (.protocol message)) (newId' : Str) (now' : Int) :
    decode newId' now' line = .error (.protocol message) := by
  unfold decode at h ⊢
  cases hl : Runtime.loads line with
  | error e =>
    rw [hl] at h
    exact h
  | ok raw =>
    rw [hl] at h
    dsimp only at h ⊢
    unfold Frame.fromDict at h ⊢
    cases raw with
    | dict kvs =>
      dsimp only at h ⊢
      split at h
      next hv =>
        rw [if_pos hv]
        exact h
      next hv =>
        rw [if_neg hv]
        split at h
        next ht =>
          rw [if_pos ht]
          exact h
        next ht =>
          rw [if_neg ht]
          cases hty : MessageType.ofJson (Json.get kvs "type") with
          | none =>
            rw [hty] at h
            exact h
          | some type =>
            rw [hty] at h
            dsimp only at h ⊢
            unfold Json.getD at h ⊢
            cases hts : List.lookup (Str.ofString "ts") kvs with
            | none =>
              rw [hts] at h
              cases h
            | some ts =>
              rw [hts] at h
              cases ts <;> first | exact h | cases h
    | _ => exact h

/-- `json.loads` raises nothing but a `JSONDecodeError` on these lines, and
`router.handle` returns for every frame among them. -/
def Smooth (cfg : Config) (s : Sid) : List Str → World → Prop
  | [], _ => True
  | line :: rest, w =>
    let drawn : World := { w with uuids := w.uuids + 1, reads := w.reads + 1 }
    match decode (w.uuid w.uuids) (w.clock w.reads) line with
    | .ok f => ((handle cfg s f).exec drawn).1 = .ok () ∧ Smooth cfg s rest ((handle cfg s f).exec drawn).2
    | .error (.protocol message) => Smooth cfg s rest ((refuse s "BAD_FRAME" message).exec drawn).2
    | .error (.raised _) => False

variable {cfg : Config} {s : Sid}

theorem serveLines_append (xs ys : List Str) (r : Reader) :
    serveLines cfg s (xs ++ ys) r =
      match serveLines cfg s xs r with
      | (none, r') => serveLines cfg s ys r'
      | (some e, r') => (some e, r') := by
  induction xs generalizing r with
  | nil => rfl
  | cons x xs ih =>
    rw [List.cons_append, serveLines, serveLines]
    rcases serveLine cfg s x r with ⟨- | e, r'⟩
    · exact ih r'
    · rfl

/-- **What serving some lines does**: nothing escapes exactly when they are
smooth, and then every line has its reply. -/
theorem serveLines_replies (lines : List Str) (r : Reader) :
    ((serveLines cfg s lines r).1 = none ↔ Smooth cfg s lines r.world) ∧
      ((serveLines cfg s lines r).1 = none → ∃ replies,
        (serveLines cfg s lines r).2.replies = r.replies ++ replies ∧
          List.Forall₂ Answers lines replies) := by
  induction lines generalizing r with
  | nil => exact ⟨by simp [serveLines, Smooth], fun _ => ⟨[], by simp [serveLines], .nil⟩⟩
  | cons line lines ih =>
    rw [serveLines, Smooth, serveLine]
    dsimp only
    cases hd : decode (r.world.uuid r.world.uuids) (r.world.clock r.world.reads) line with
    | ok f =>
      dsimp only
      cases hh : ((handle cfg s f).exec
          { r.world with uuids := r.world.uuids + 1, reads := r.world.reads + 1 }).1 with
      | error e => simp
      | ok _ =>
        obtain ⟨hiff, hrep⟩ := ih { r with
          world := ((handle cfg s f).exec
            { r.world with uuids := r.world.uuids + 1, reads := r.world.reads + 1 }).2
          replies := r.replies ++ [.handed f] }
        refine ⟨by simpa using hiff, fun hnone => ?_⟩
        obtain ⟨replies, hreplies, hall⟩ := hrep hnone
        refine ⟨.handed f :: replies, ?_, .cons ⟨_, _, hd⟩ hall⟩
        rw [hreplies, List.append_assoc, List.singleton_append]
    | error err =>
      cases err with
      | raised e => simp
      | protocol message =>
        dsimp only
        obtain ⟨hiff, hrep⟩ := ih (answer s "BAD_FRAME" message { r with
          world := { r.world with uuids := r.world.uuids + 1, reads := r.world.reads + 1 } })
        refine ⟨hiff, fun hnone => ?_⟩
        obtain ⟨replies, hreplies, hall⟩ := hrep hnone
        refine ⟨.answered "BAD_FRAME" message :: replies, ?_, .cons ⟨rfl, decode_protocol hd⟩ hall⟩
        rw [hreplies, answer, List.append_assoc, List.singleton_append]

/-- Serving lines neither reads nor writes the buffer. -/
theorem serveLines_buffer (lines : List Str) (r : Reader) (b : LineBuffer) :
    serveLines cfg s lines { r with buffer := b } =
      ((serveLines cfg s lines r).1, { (serveLines cfg s lines r).2 with buffer := b }) := by
  induction lines generalizing r with
  | nil => rfl
  | cons line lines ih =>
    have hline : serveLine cfg s line { r with buffer := b } =
        ((serveLine cfg s line r).1, { (serveLine cfg s line r).2 with buffer := b }) := by
      unfold serveLine
      dsimp only
      split <;> rfl
    rw [serveLines, serveLines, hline]
    rcases serveLine cfg s line r with ⟨- | e, r'⟩
    · exact ih r'
    · rfl

/-! ## The loop -/

/-- The stream `chunks` continues, read as lines. -/
abbrev linesOf (b : LineBuffer) (chunks : List (List UInt8)) : List (List UInt8) × List UInt8 :=
  Lines.split delimiter (b.buffer ++ chunks.flatten)

/-- The loop reads on through these chunks: nothing closes the connection
meanwhile, the unfinished line is not too long, every line is UTF-8, and serving
them ends in `r'`. -/
def ReadsOn (cfg : Config) (s : Sid) (closed : Nat → Bool) (k : Nat) (chunks : List (List UInt8))
    (r r' : Reader) : Prop :=
  (∀ j ≤ chunks.length, closed (k + j) = false) ∧
    (linesOf r.buffer chunks).2.length ≤ r.buffer.maxLineBytes ∧
    ∃ texts, LineBuffer.lineTexts (linesOf r.buffer chunks).1 = some texts ∧
      serveLines cfg s texts r = (none, r')

/-- One chunk that the loop survives: it is fed, and its lines are served. -/
theorem readChunk_reading {c : List UInt8} {r r₁ : Reader} (hc : c ≠ []) :
    readChunk cfg s c r = (.reading, r₁) ↔
      (linesOf r.buffer [c]).2.length ≤ r.buffer.maxLineBytes ∧
        ∃ texts r', LineBuffer.lineTexts (linesOf r.buffer [c]).1 = some texts ∧
          serveLines cfg s texts r = (none, r') ∧
          r₁ = { r' with buffer := { r.buffer with buffer := (linesOf r.buffer [c]).2 } } := by
  have hempty : c.isEmpty = false := by simpa using hc
  have hfeed := LineBuffer.feed_eq r.buffer c
  rw [linesOf, List.flatten_cons, List.flatten_nil, List.append_nil, readChunk, hempty]
  generalize Lines.split delimiter (r.buffer.buffer ++ c) = first at *
  simp only [Bool.false_eq_true, if_false]
  cases ht : LineBuffer.lineTexts first.1 with
  | none =>
    rw [ht] at hfeed
    obtain ⟨b', hb'⟩ := hfeed
    simp [hb']
  | some texts =>
    rw [ht] at hfeed
    dsimp only at hfeed
    by_cases hleft : r.buffer.maxLineBytes < first.2.length
    · rw [if_pos hleft] at hfeed
      obtain ⟨e, he⟩ := hfeed
      simp [he, Nat.not_le.mpr hleft]
    · rw [if_neg hleft] at hfeed
      rw [hfeed]
      dsimp only
      rw [serveLines_buffer]
      rcases hserve : serveLines cfg s texts r with ⟨- | e, r'⟩
      · simp [hserve, Nat.not_lt.mp hleft, eq_comm]
      · simp [hserve]

/-- **When the loop is still reading** after some chunks. -/
theorem readLoop_reading {closed : Nat → Bool} {k : Nat} {chunks : List (List UInt8)} {r : Reader}
    (hne : ∀ c ∈ chunks, c ≠ []) (hbuf : delimiter ∉ r.buffer.buffer)
    (hlen : r.buffer.buffer.length ≤ r.buffer.maxLineBytes)
    (hlong : ∀ l ∈ (linesOf r.buffer chunks).1, l.length ≤ r.buffer.maxLineBytes)
    (replies : List Reply) :
    (∃ r', readLoop cfg s closed k chunks r = (.reading, r') ∧ r'.replies = replies) ↔
      ∃ r', ReadsOn cfg s closed k chunks r r' ∧ r'.replies = replies := by
  induction chunks generalizing k r with
  | nil =>
    unfold ReadsOn
    rw [linesOf, List.flatten_nil, List.append_nil, Lines.split_of_notMem hbuf, readLoop]
    cases hk : closed k <;> simp [LineBuffer.lineTexts, serveLines, hlen, hk]
  | cons c cs ih =>
    have hc := hne c (List.mem_cons_self ..)
    have hpieces := Lines.split_notMem (d := delimiter) (r.buffer.buffer ++ c)
    -- The lines the first chunk completes, then those of what is left and the rest.
    have hsplit : linesOf r.buffer (c :: cs) =
        ((linesOf r.buffer [c]).1 ++
            (linesOf { r.buffer with buffer := (linesOf r.buffer [c]).2 } cs).1,
          (linesOf { r.buffer with buffer := (linesOf r.buffer [c]).2 } cs).2) := by
      simp only [linesOf, List.flatten_cons, List.flatten_nil, List.append_nil]
      rw [← List.append_assoc, Lines.split_append]
    rw [hsplit] at hlong
    have hleft_free : delimiter ∉ (linesOf r.buffer [c]).2 := by
      simpa only [linesOf, List.flatten_cons, List.flatten_nil, List.append_nil] using hpieces.2
    have hlater := fun l hl => hlong l (List.mem_append_right _ hl)
    have hserved := fun texts₁ texts₂ => @serveLines_append _ _ cfg s texts₁ texts₂ r
    constructor
    · rintro ⟨r', hloop, hrep⟩
      rw [readLoop] at hloop
      by_cases hk : closed k = true
      · rw [if_pos hk] at hloop
        cases hloop
      rw [if_neg hk] at hloop
      rcases hread : readChunk cfg s c r with ⟨status, r₁⟩
      rw [hread] at hloop
      cases status with
      | returned => cases hloop
      | raised e => cases hloop
      | reading =>
        obtain ⟨hleft, texts₁, r₂, ht₁, hserve₁, rfl⟩ := (readChunk_reading hc).mp hread
        obtain ⟨r₃, ⟨hclosed, hrest, texts₂, ht₂, hserve₂⟩, hrep₃⟩ :=
          (ih (fun c' hc' => hne c' (List.mem_cons_of_mem _ hc')) hleft_free hleft hlater).mp
            ⟨r', hloop, hrep⟩
        rw [serveLines_buffer] at hserve₂
        obtain ⟨hnone, rfl⟩ := Prod.mk.inj hserve₂
        refine ⟨(serveLines cfg s texts₂ r₂).2, ⟨fun j hj => ?_, ?_, texts₁ ++ texts₂, ?_, ?_⟩, hrep₃⟩
        · cases j with
          | zero => simpa using hk
          | succ j =>
            have := hclosed j (by simpa using hj)
            rwa [Nat.add_assoc, Nat.add_comm 1 j] at this
        · rw [hsplit]
          exact hrest
        · rw [hsplit]
          exact LineBuffer.lineTexts_append.mpr ⟨texts₁, texts₂, ht₁, ht₂, rfl⟩
        · rw [hserved, hserve₁]
          exact Prod.ext hnone rfl
    · rintro ⟨r', ⟨hclosed, hrest, texts, htexts, hserve⟩, hrep⟩
      rw [hsplit] at hrest htexts
      obtain ⟨texts₁, texts₂, ht₁, ht₂, rfl⟩ := LineBuffer.lineTexts_append.mp htexts
      have hleft : (linesOf r.buffer [c]).2.length ≤ r.buffer.maxLineBytes :=
        Lines.length_le_of_split hleft_free hlater hrest
      rw [hserved] at hserve
      rcases hserve₁ : serveLines cfg s texts₁ r with ⟨- | e, r₂⟩ <;> rw [hserve₁] at hserve
      · have hread := (readChunk_reading hc).mpr ⟨hleft, texts₁, r₂, ht₁, hserve₁, rfl⟩
        dsimp only at hserve
        have hk : closed k = false := hclosed 0 (Nat.zero_le _)
        have hon : ReadsOn cfg s closed (k + 1) cs
            { r₂ with buffer := { r.buffer with buffer := (linesOf r.buffer [c]).2 } }
            { r' with buffer := { r.buffer with buffer := (linesOf r.buffer [c]).2 } } := by
          refine ⟨fun j hj => ?_, hrest, texts₂, ht₂, ?_⟩
          · have := hclosed (j + 1) (by simpa using hj)
            rwa [Nat.add_comm j 1, ← Nat.add_assoc] at this
          · rw [serveLines_buffer, hserve]
        rw [readLoop, hk]
        simp only [Bool.false_eq_true, if_false, hread]
        exact (ih (fun c' hc' => hne c' (List.mem_cons_of_mem _ hc')) hleft_free hleft hlater).mpr
          ⟨_, hon, hrep⟩
      · cases hserve

/-! ## A bad line harms only itself -/

omit [Runtime] [JsonErrors] in
/-- A line there is something to say about: it is not UTF-8, or text is left when
its carriage returns are stripped. -/
def nonblank (raw : List UInt8) : Bool := LineBuffer.lineText raw ≠ some []

/-- What a line of the stream should lead to; one that is not UTF-8 is a bad
line like any other. -/
def AnswersRaw (raw : List UInt8) (reply : Reply) : Prop :=
  match LineBuffer.lineText raw with
  | some line => Answers line reply
  | none => ∃ message, reply = .answered "BAD_FRAME" message

/-- The loop is still reading, and every line of the stream got its reply, in
order, and nothing else did. -/
def Harmless (cfg : Config) (s : Sid) (closed : Nat → Bool) (chunks : List (List UInt8))
    (w : World) : Prop :=
  ∃ r, readLoop cfg s closed 0 chunks { world := w } = (.reading, r) ∧
    List.Forall₂ AnswersRaw ((Lines.split delimiter chunks.flatten).1.filter nonblank) r.replies

/-- The lines handed back are those with something on them. -/
theorem forall₂_lineTexts {ls : List (List UInt8)} {texts : List Str} {replies : List Reply}
    (h : LineBuffer.lineTexts ls = some texts) :
    List.Forall₂ AnswersRaw (ls.filter nonblank) replies ↔ List.Forall₂ Answers texts replies := by
  induction ls generalizing texts replies with
  | nil =>
    rw [← Option.some.inj h]
    simp
  | cons l ls ih =>
    obtain ⟨texts₁, texts₂, h₁, h₂, rfl⟩ := LineBuffer.lineTexts_append.mp
      (show LineBuffer.lineTexts ([l] ++ ls) = some texts from h)
    cases hl : LineBuffer.lineText l with
    | none => simp [LineBuffer.lineTexts, hl] at h₁
    | some text =>
      have hkeep : texts₁ = LineBuffer.keep text [] := by
        simpa [LineBuffer.lineTexts, hl, eq_comm] using h₁
      subst hkeep
      cases text with
      | nil =>
        have hblank : nonblank l = false := by simp [nonblank, hl]
        rw [List.filter_cons_of_neg (by simp [hblank])]
        exact ih h₂
      | cons ch text =>
        have hsome : nonblank l = true := by simp [nonblank, hl]
        rw [List.filter_cons_of_pos hsome]
        show _ ↔ List.Forall₂ Answers ((ch :: text) :: texts₂) replies
        cases replies with
        | nil => simp
        | cons p replies =>
          rw [List.forall₂_cons, List.forall₂_cons, ih h₂]
          simp only [AnswersRaw, hl]

/-- **A bad line harms only itself, if it is UTF-8.** However a stream without
overlong lines is cut, the loop reads on with a reply for every line exactly when
every line is UTF-8, the unfinished one is not too long, no line makes the parser
or the router raise, and nobody closes the connection. -/
theorem harmless_iff {closed : Nat → Bool} {chunks : List (List UInt8)} {w : World}
    (hne : ∀ c ∈ chunks, c ≠ [])
    (hlong : ∀ l ∈ (Lines.split delimiter chunks.flatten).1, l.length ≤ maxLineBytes) :
    Harmless cfg s closed chunks w ↔
      (∀ j ≤ chunks.length, closed j = false) ∧
      (Lines.split delimiter chunks.flatten).2.length ≤ maxLineBytes ∧
      ∃ texts, LineBuffer.lineTexts (Lines.split delimiter chunks.flatten).1 = some texts ∧
        Smooth cfg s texts w := by
  -- reading the chunks is serving the complete lines of the whole stream
  have hreads := fun replies => @readLoop_reading _ _ cfg s closed 0 chunks { world := w } hne
    (by simp) (Nat.zero_le _)
    (by rw [linesOf, List.nil_append]; exact hlong) replies
  simp only [ReadsOn, linesOf, List.nil_append, Nat.zero_add] at hreads
  constructor
  · rintro ⟨r, hloop, -⟩
    obtain ⟨r', ⟨hclosed, hrest, texts, htexts, hserve⟩, -⟩ := (hreads _).mp ⟨r, hloop, rfl⟩
    refine ⟨hclosed, hrest, texts, htexts, ?_⟩
    exact (serveLines_replies texts { world := w }).1.mp (by rw [hserve])
  · rintro ⟨hclosed, hrest, texts, htexts, hsmooth⟩
    obtain ⟨hiff, hreplies⟩ := @serveLines_replies _ _ cfg s texts { world := w }
    have hnone := hiff.mpr hsmooth
    obtain ⟨replies, hrep, hall⟩ := hreplies hnone
    rw [List.nil_append] at hrep
    obtain ⟨r, hloop, hr⟩ := (hreads replies).mpr
      ⟨_, ⟨hclosed, hrest, texts, htexts, Prod.ext hnone rfl⟩, hrep⟩
    exact ⟨r, hloop, by rw [hr]; exact (forall₂_lineTexts htexts).mpr hall⟩

end ClientHandler

/-! ## A line that is not UTF-8 -/

section Concrete

open Sample

attribute [local instance] sampleRuntime wireErrors

/-- Two lines in one chunk, `hi` and one that is not UTF-8: the first is not
answered, the second is answered as too long, and the loop returns. -/
theorem notUtf8_hangsUp :
    (∀ l ∈ (Lines.split delimiter [104, 105, 10, 255, 10]).1, l.length ≤ maxLineBytes) ∧
      (ClientHandler.readLoop chatServer 0 (fun _ => false) 0 [[104, 105, 10, 255, 10]]
        { world := fresh }).2.replies = [.answered "LINE_TOO_LONG" "line is not valid UTF-8"] ∧
      ¬ ClientHandler.Harmless chatServer 0 (fun _ => false) [[104, 105, 10, 255, 10]] fresh := by
  have hstatus : (ClientHandler.readLoop chatServer 0 (fun _ => false) 0 [[104, 105, 10, 255, 10]]
      { world := fresh }).1 = .returned := by decide +kernel
  refine ⟨by decide +kernel, by decide +kernel, ?_⟩
  rintro ⟨r, hloop, -⟩
  rw [hloop] at hstatus
  cases hstatus

/-- `hi`, in two pieces: answered once, and the loop reads on. -/
theorem prose_harmless :
    ClientHandler.Harmless chatServer 0 (fun _ => false) [[104], [105, 13, 10, 10]] fresh := by
  refine (ClientHandler.harmless_iff (by decide) (by decide +kernel)).mpr
    ⟨fun _ _ => rfl, by decide +kernel, [Str.ofString "hi"], by decide +kernel, ?_⟩
  have hdecode : decode (fresh.uuid fresh.uuids) (fresh.clock fresh.reads) "hi" =
      .error (.protocol "line is not valid JSON: Expecting value") := by decide +kernel
  rw [ClientHandler.Smooth]
  simp only [hdecode]
  trivial

end Concrete

end Ciphertext
