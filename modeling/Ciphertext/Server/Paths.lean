import Ciphertext.Server.Origin

/-!
# Live, queued and historical delivery

Three paths bring a message to somebody: the frame sent to a live connection,
the frame a login hands over, and the entry of a page of history. The last two
read the stored row through `historyEntry`, the first never sees it. This file
follows an accepted message from the step that stores it into every later world,
and compares the three.

`Accepted` is a MSG that goes through, with an id of any type and the text that sqlite
keeps it as, and `Accepted.effect` is what its step does: one row with everything in it,
and each copy either sent or queued under the id. `Run.keeps_row` carries the row into any
later world, up to its receipt columns, and `historyEntry_of_content` says what a reader is
shown of it. The two kinds of message, with and without an env map, are then compared in
`Server/Envelopes.lean` and `Server/Plain.lean`.
-/

namespace Ciphertext

open Prog MessageRouter

section Runs

variable [Runtime] {cfg : Config} {w₀ w w' : World} {tr tr' : List Step}

/-! ## An accepted message -/

theorem Run.trans (h : Run cfg w₀ tr w) (h' : Run cfg w tr' w') : Run cfg w₀ (tr ++ tr') w' := by
  induction h' with
  | nil =>
    rw [List.append_nil]
    exact h
  | snoc _ i ih =>
    rw [← List.append_assoc]
    exact ih.snoc i

/-- A stored message stays, up to receipts. -/
theorem Run.keeps_row (h : Run cfg w tr w') {row : Row} (hr : row ∈ w.messages) :
    ∃ row' ∈ w'.messages, row'.unmarked = row.unmarked := by
  induction h with
  | nil => exact ⟨row, hr, rfl⟩
  | snoc _ i ih =>
    obtain ⟨r, hr', heq⟩ := ih
    obtain ⟨r', hr'', heq'⟩ := step_keeps_row cfg _ i hr'
    exact ⟨r', hr'', heq'.trans heq⟩

/-- A MSG that goes through: submitted by a session logged in as `me`, under an
id of any type that sqlite keeps as `key` (`none` is `NULL`) and that nothing is
stored under, to a target that admits it; and the handler returns. -/
structure Accepted (cfg : Config) (w : World) (s : Sid) (me : Json) (f : Frame) (target : Str)
    (key : Option Str) : Prop where
  type : f.type = .msg
  session : w.username s = some me
  id : Sql.text f.id = .ok key
  fresh : w.fresh key
  accepts : Accepts cfg w me f target
  returned : (Step.of cfg w (.frame s f)).outcome = .ok ()

/-- It is stored, every copy of it is settled, and the copies are all the MSG
frames its step puts in outboxes. -/
theorem Accepted.effect {s : Sid} {me : Json} {f : Frame} {target : Str} {key : Option Str}
    (h : Accepted cfg w s me f target key) (hw : Wired w) (hc : cfg.messages = true) :
    (∃ row, (Step.of cfg w (.frame s f)).after.messages = w.messages ++ [row] ∧ row.id = key ∧
        Stores me f row) ∧
      (Step.of cfg w (.frame s f)).after.pending =
        queueAll key (away w (copies w me f target)) w.pending ∧
      (Step.of cfg w (.frame s f)).out.filter (fun d => d.frame.type = .msg) =
        live w (copies w me f target) := by
  have hrun := handle_msg cfg s h.type h.session
  have hafter : (Step.of cfg w (.frame s f)).after = ((message cfg s me f).exec w).2 :=
    congrArg Prod.snd hrun
  have hok : ((message cfg s me f).exec w).1 = .ok () :=
    (congrArg Prod.fst hrun).symm.trans h.returned
  have hmsgs := Step.msgs_of cfg w (.frame s f)
  rw [hafter] at hmsgs ⊢
  rcases message_effect cfg w s me f with ⟨-, hnot⟩ | ⟨target', hacc, done, rest, hcop, hrest, hd⟩
  · exact (hnot hok target h.accepts).elim
  obtain rfl : target' = target := Json.str.inj (hacc.1.symm.trans h.accepts.1)
  rw [hrest hok, List.append_nil] at hcop
  have hrow : ∃ row, ((message cfg s me f).exec w).2.messages = w.messages ++ [row] ∧
      row.id = key ∧ Stores me f row := by
    obtain ⟨w₁, hf, hm⟩ := hd.filed
    rcases hf with ⟨hno, -⟩ | ⟨-, -, hnone | ⟨t, ht, hnf⟩⟩ | ⟨-, row, hst, -, rfl⟩
    · simp [hc] at hno
    · obtain ⟨a, -, ha⟩ := hw.text_orEmpty h.session
      simp [ha] at hnone
    · obtain rfl : key = t := Except.ok.inj (h.id.symm.trans ht)
      exact (hnf h.fresh).elim
    · exact ⟨row, hm, Except.ok.inj (hst.id.symm.trans h.id), hst⟩
  refine ⟨hrow, ?_, ?_⟩
  · have hq : queueId cfg f.id = key := by
      simp [queueId, hc, h.id, Except.toOption]
    rw [hd.pending, hq, hcop]
  · rw [hd.msgs] at hmsgs
    rw [← List.append_cancel_left hmsgs, hcop]

/-! ## The stored paths -/

/-- A page or a hand-over shows the reader what `contentFor` finds. -/
theorem historyEntry_of_content {row : Row} {reader : Json} {c : Option (Json × Json)}
    (h : contentFor row reader = .ok c) :
    historyEntry row reader = .ok (c.map fun c => entryOf row c.1 c.2) := by
  unfold historyEntry
  rw [h]
  rfl

/-- A hand-over that returns has handed over every queued row that holds
something for the reader. -/
theorem handed_complete {u : Json} {rows : List Row} (h : (handed u rows).2 = .ok ()) {row : Row}
    {entry : Dict} (hr : row ∈ rows) (he : historyEntry row u = .ok (some entry)) :
    flushed row entry ∈ (handed u rows).1 := by
  induction rows with
  | nil => cases hr
  | cons r rows ih =>
    unfold handed at h ⊢
    rcases List.mem_cons.mp hr with rfl | hr
    · rw [he]
      exact List.mem_cons_self ..
    · split at h
      · cases h
      · exact ih h hr
      · exact List.mem_cons_of_mem _ (ih h hr)

end Runs

end Ciphertext
