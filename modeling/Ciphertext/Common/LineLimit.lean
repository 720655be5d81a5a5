import Mathlib.Data.List.Induction
import Ciphertext.Common.RoundTrip

/-!
# The limit on a line, and where the stream is cut

`LineBuffer.feed` compares a length with the limit once, after it has taken off every
complete line: what it measures is the unfinished one. So a line is refused when a chunk
ends in it past the limit, and passes when its newline comes in the chunk that takes it
there. `limitKept_iff` says this of every stream and every way of cutting it. The buffer
is followed past a refusal too, although both of the source's readers stop at the first.

`docs/protocol.md` has the connection closed where a line exceeds the limit, so the
equivalence counts as broken every cut in which an overlong line is completed and handed
on. Which lines are handed on is a matter of where chunks end and of nothing else: of
two ways of cutting one stream, one may raise and the other not.
-/

namespace Ciphertext

namespace LineBuffer

variable {b : LineBuffer} {chunk : List UInt8} {chunks : List (List UInt8)}

/-- The complete lines of what is held and what comes, and the bytes after them. -/
abbrev pieces (b : LineBuffer) (chunk : List UInt8) : List (List UInt8) × List UInt8 :=
  Lines.split delimiter (b.buffer ++ chunk)

/-- The chunk completes a line that is not UTF-8, or ends too far into one. -/
def Unfit (b : LineBuffer) (chunk : List UInt8) : Prop :=
  (∃ l ∈ (b.pieces chunk).1, Str.ofUtf8 l = none) ∨ b.maxLineBytes < (b.pieces chunk).2.length

theorem lineTexts_eq_none {ls : List (List UInt8)} : lineTexts ls = none ↔ ∃ l ∈ ls, Str.ofUtf8 l = none := by
  induction ls with
  | nil => simp [lineTexts]
  | cons l ls ih =>
    rw [lineTexts, lineText]
    cases hl : Str.ofUtf8 l with
    | none => simp [hl]
    | some text =>
      cases hls : lineTexts ls with
      | none => simpa [hl] using ih.mp hls
      | some texts =>
        have hall : ¬ ∃ l ∈ ls, Str.ofUtf8 l = none := fun h => by simp [ih.mpr h] at hls
        simpa [hl] using hall

/-- **When a feed raises.** -/
theorem feed_raises_iff : (∃ e, (b.feed chunk).1 = .error e) ↔ b.Unfit chunk := by
  have hfeed := feed_eq b chunk
  unfold Unfit
  rw [← lineTexts_eq_none]
  cases ht : lineTexts (b.pieces chunk).1 with
  | none =>
    rw [ht] at hfeed
    obtain ⟨b', hb'⟩ := hfeed
    simp [hb']
  | some texts =>
    rw [ht] at hfeed
    by_cases hrest : b.maxLineBytes < (b.pieces chunk).2.length
    · simp only [hrest, if_true] at hfeed
      obtain ⟨e, he⟩ := hfeed
      simp [he, hrest]
    · simp only [hrest, if_false] at hfeed
      simp [hfeed, hrest]

/-- Otherwise it keeps what follows the last delimiter. -/
theorem feed_buffer (h : ¬ b.Unfit chunk) : (b.feed chunk).2 = { b with buffer := (b.pieces chunk).2 } := by
  have hfeed := feed_eq b chunk
  obtain ⟨htexts, hrest⟩ := not_or.mp h
  rw [← lineTexts_eq_none, ← ne_eq, Option.ne_none_iff_exists'] at htexts
  obtain ⟨texts, ht⟩ := htexts
  rw [ht] at hfeed
  simp only [hrest, if_false] at hfeed
  rw [hfeed]

/-! ## A stream in chunks -/

/-- The buffer some chunks leave. -/
def fed (b : LineBuffer) (chunks : List (List UInt8)) : LineBuffer := chunks.foldl (fun b c => (b.feed c).2) b

theorem fed_concat (b : LineBuffer) (chunks : List (List UInt8)) (chunk : List UInt8) :
    b.fed (chunks ++ [chunk]) = ((b.fed chunks).feed chunk).2 := by
  rw [fed, List.foldl_append]
  rfl

/-- One of the feeds raises. -/
def Refuses (b : LineBuffer) (chunks : List (List UInt8)) : Prop :=
  ∃ pre chunk, pre ++ [chunk] <+: chunks ∧ ∃ e, ((b.fed pre).feed chunk).1 = .error e

theorem refuses_concat : b.Refuses (chunks ++ [chunk]) ↔ b.Refuses chunks ∨ (b.fed chunks).Unfit chunk := by
  constructor
  · intro h
    obtain ⟨pre, c, hpre, hraise⟩ := h
    rcases List.prefix_concat_iff.mp hpre with heq | hshort
    · obtain ⟨rfl, rfl⟩ := List.append_singleton_inj.mp heq
      exact .inr (feed_raises_iff.mp hraise)
    · exact .inl ⟨pre, c, hshort, hraise⟩
  · intro h
    rcases h with ⟨pre, c, hpre, hraise⟩ | hunfit
    · exact ⟨pre, c, hpre.trans (List.prefix_append _ _), hraise⟩
    · exact ⟨chunks, chunk, List.prefix_rfl, feed_raises_iff.mpr hunfit⟩

/-- Until a feed raises, the buffer is the unfinished line of the stream. -/
theorem fed_buffer (hb : delimiter ∉ b.buffer) (h : ¬ b.Refuses chunks) :
    (b.fed chunks).buffer = (Lines.split delimiter (b.buffer ++ chunks.flatten)).2 := by
  induction chunks using List.reverseRecOn with
  | nil => rw [List.flatten_nil, List.append_nil, Lines.split_of_notMem hb]; rfl
  | append_singleton chunks chunk ih =>
    obtain ⟨hbefore, hfit⟩ := not_or.mp (refuses_concat.not.mp h)
    rw [fed_concat, feed_buffer hfit, List.flatten_append, List.flatten_singleton, ← List.append_assoc,
      Lines.split_append, ← ih hbefore]

/-- The lines a chunk completes are then those the buffer sees. -/
theorem lines_concat (hb : delimiter ∉ b.buffer) (h : ¬ b.Refuses chunks) (chunk : List UInt8) :
    (Lines.split delimiter (b.buffer ++ (chunks ++ [chunk]).flatten)).1 =
      (Lines.split delimiter (b.buffer ++ chunks.flatten)).1 ++ ((b.fed chunks).pieces chunk).1 := by
  rw [List.flatten_append, List.flatten_singleton, ← List.append_assoc, Lines.split_append, ← fed_buffer hb h]

/-! ## The limit -/

/-- Nothing is left of the line to hand back. -/
def Blank (l : List UInt8) : Prop := lineText l = some []

/-- What the limit is for. No feed hands back a line that is longer, and where the
stream completes one, that feed raises or an earlier one did. -/
structure LimitKept (b : LineBuffer) (chunks : List (List UInt8)) : Prop where
  returned : ∀ pre chunk, pre ++ [chunk] <+: chunks → ∀ lines, ((b.fed pre).feed chunk).1 = .ok lines →
    ∀ l ∈ ((b.fed pre).pieces chunk).1, ¬ Blank l → l.length ≤ b.maxLineBytes
  refused : ∀ pre, pre <+: chunks →
    (∃ l ∈ (Lines.split delimiter (b.buffer ++ pre.flatten)).1, b.maxLineBytes < l.length) → b.Refuses pre

/-- The cuts that keep it. A chunk that completes a longer line also completes one that
is not UTF-8 or ends too far into another; a blank line is let off once something has
been refused. -/
def WellCut (b : LineBuffer) (chunks : List (List UInt8)) : Prop :=
  ∀ pre chunk, pre ++ [chunk] <+: chunks → (b.fed pre).Unfit chunk ∨
    ∀ l ∈ ((b.fed pre).pieces chunk).1, l.length ≤ b.maxLineBytes ∨
      Blank l ∧ ∃ pre' chunk', pre' ++ [chunk'] <+: pre ∧ (b.fed pre').Unfit chunk'

theorem refuses_iff : b.Refuses chunks ↔ ∃ pre chunk, pre ++ [chunk] <+: chunks ∧ (b.fed pre).Unfit chunk := by
  unfold Refuses
  simp only [feed_raises_iff]

/-- A line that is too long and comes without a raise is a blank one, after a raise. -/
theorem LimitKept.wellCut (hb : delimiter ∉ b.buffer) (h : LimitKept b chunks) : WellCut b chunks := by
  intro pre chunk hpre
  refine or_iff_not_imp_left.mpr fun hfit l hl => ?_
  by_cases hlong : b.maxLineBytes < l.length
  case neg => exact .inl (Nat.not_lt.mp hlong)
  right
  obtain ⟨lines, hlines⟩ : ∃ lines, ((b.fed pre).feed chunk).1 = .ok lines := by
    cases hr : ((b.fed pre).feed chunk).1 with
    | ok lines => exact ⟨lines, rfl⟩
    | error e => exact absurd (feed_raises_iff.mp ⟨e, hr⟩) hfit
  have hblank : Blank l := by
    by_contra hfull
    exact absurd (h.returned pre chunk hpre lines hlines l hl hfull) (Nat.not_le.mpr hlong)
  refine ⟨hblank, refuses_iff.mp ?_⟩
  -- nothing refused so far, so the stream completes the line here, and this feed refuses it
  by_contra hnone
  have hmem : l ∈ (Lines.split delimiter (b.buffer ++ (pre ++ [chunk]).flatten)).1 := by
    rw [lines_concat hb hnone]
    exact List.mem_append_right _ hl
  rcases refuses_concat.mp (h.refused (pre ++ [chunk]) hpre ⟨l, hmem, hlong⟩) with hbefore | hunfit
  · exact hnone hbefore
  · exact hfit hunfit

/-- A chunk at a time: the first that completes a line that is too long is not well cut. -/
theorem WellCut.refuses (hb : delimiter ∉ b.buffer) (h : WellCut b chunks) (pre : List (List UInt8)) :
    pre <+: chunks → (∃ l ∈ (Lines.split delimiter (b.buffer ++ pre.flatten)).1, b.maxLineBytes < l.length) →
      b.Refuses pre := by
  induction pre using List.reverseRecOn with
  | nil =>
    intro _ hlong
    rw [List.flatten_nil, List.append_nil, Lines.split_of_notMem hb] at hlong
    obtain ⟨l, hl, -⟩ := hlong
    cases hl
  | append_singleton pre chunk ih =>
    intro hpre hlong
    by_contra hnone
    obtain ⟨hbefore, hfit⟩ := not_or.mp (refuses_concat.not.mp hnone)
    obtain ⟨l, hl, hlen⟩ := hlong
    rw [lines_concat hb hbefore] at hl
    rcases List.mem_append.mp hl with hl | hl
    · exact hbefore (ih ((List.prefix_append _ _).trans hpre) ⟨l, hl, hlen⟩)
    · rcases ((h pre chunk hpre).resolve_left hfit) l hl with hle | hblank
      · omega
      · exact hbefore (refuses_iff.mpr hblank.2)

theorem WellCut.returned (h : WellCut b chunks) {pre : List (List UInt8)} (hpre : pre ++ [chunk] <+: chunks)
    {lines : List Str} (hlines : ((b.fed pre).feed chunk).1 = .ok lines) {l : List UInt8}
    (hl : l ∈ ((b.fed pre).pieces chunk).1) (hfull : ¬ Blank l) : l.length ≤ b.maxLineBytes := by
  rcases h pre chunk hpre with hunfit | hshort
  · obtain ⟨e, he⟩ := feed_raises_iff.mpr hunfit
    rw [he] at hlines
    cases hlines
  · exact (hshort l hl).resolve_right fun hblank => hfull hblank.1

/-- **Where the stream may be cut.** The limit is kept exactly when no chunk completes
an over-long line without a reason to raise of its own. -/
theorem limitKept_iff (maxLineBytes : Nat) (chunks : List (List UInt8)) :
    LimitKept { maxLineBytes } chunks ↔ WellCut { maxLineBytes } chunks := by
  have hb : delimiter ∉ ({ maxLineBytes } : LineBuffer).buffer := List.not_mem_nil
  constructor
  · exact fun h => h.wellCut hb
  · intro h
    exact ⟨fun _ _ hpre _ hlines _ hl hfull => h.returned hpre hlines hl hfull, h.refuses hb⟩

/-- Eight bytes and their newline at once, where four are allowed. -/
theorem oneChunk_passes :
    (({ maxLineBytes := 4 } : LineBuffer).feed [120, 120, 120, 120, 120, 120, 120, 120, 10]).1 = .ok ["xxxxxxxx"] ∧
      ¬ LimitKept { maxLineBytes := 4 } [[120, 120, 120, 120, 120, 120, 120, 120, 10]] := by
  have hfeed : (({ maxLineBytes := 4 } : LineBuffer).feed [120, 120, 120, 120, 120, 120, 120, 120, 10]).1 =
      .ok ["xxxxxxxx"] := by
    decide +kernel
  refine ⟨hfeed, fun h => ?_⟩
  have hle := h.returned [] _ List.prefix_rfl _ hfeed [120, 120, 120, 120, 120, 120, 120, 120] (by decide)
    (show ¬ lineText _ = some [] by decide +kernel)
  exact absurd hle (by decide)

end LineBuffer

end Ciphertext
