import Ciphertext.Server.Message

/-!
# What a HISTORY request does

It sends one page of one conversation to the asker, or refuses, or raises; it
changes nothing. Every entry of the page is a stored row as the asker may see it.

`history_effect` is its whole effect. The asker may read a room they are a member of and
their own conversation with anybody (`Readable`); the page is that of the rows sqlite picks
for the bound and the limit, in their order, and a row that holds nothing for the asker is
skipped (`Page`). Which rows are picked is the subject of `Server/Slices.lean`, and what a
client comes to see by asking again and again that of `Server/Paging.lean`.
-/

namespace Ciphertext

open Prog MessageRouter

variable [Runtime]

/-! ## Rows and entries -/

omit [Runtime] in
/-- A row of a page is a stored row of that conversation. -/
theorem MessageStore.mem_history {w : World} {conversation : Str} {before : Option Int}
    {limit : Int} {rows : List Row} {row : Row}
    (h : MessageStore.history w conversation before limit = .ok rows) (hr : row ∈ rows) :
    row ∈ w.messages ∧ row.conversation = conversation := by
  rw [MessageStore.history_eq] at h
  simp only [Bind.bind, Except.bind, Pure.pure, Except.pure] at h
  split at h
  · cases h
  next c hc =>
    obtain ⟨-, rfl⟩ := Sql.str_ok.mp hc
    cases before with
    | none =>
      cases h
      have hmem := (List.mem_insertionSort _).mp (List.mem_of_mem_drop hr)
      obtain ⟨hm, hcv⟩ := List.mem_filter.mp hmem
      exact ⟨hm, by simpa using hcv⟩
    | some b =>
      dsimp only at h
      split at h
      · cases h
      next b' hb =>
        cases h
        have hmem := (List.mem_insertionSort _).mp (List.mem_of_mem_drop hr)
        obtain ⟨hm, hcv⟩ := List.mem_filter.mp hmem
        simp only [Bool.and_eq_true, beq_iff_eq] at hcv
        exact ⟨hm, hcv.1⟩

/-- A page's entries, row by row. -/
theorem entries_cons {row : Row} {rows : List Row} {reader : Json} {es : List Dict} :
    entries (row :: rows) reader = .ok es ↔
      ∃ e rest, historyEntry row reader = .ok e ∧ entries rows reader = .ok rest ∧
        es = e.toList ++ rest := by
  unfold entries
  simp only [List.mapM_cons, Bind.bind, Except.bind, Pure.pure, Except.pure]
  cases historyEntry row reader with
  | error e => simp
  | ok e =>
    cases rows.mapM fun row => historyEntry row reader with
    | error err => simp
    | ok rest => cases e <;> simp [eq_comm]

/-- An entry comes from one of the rows. -/
theorem mem_entries {rows : List Row} {reader : Json} {es : List Dict} {e : Dict}
    (h : entries rows reader = .ok es) (he : e ∈ es) :
    ∃ row ∈ rows, historyEntry row reader = .ok (some e) := by
  induction rows generalizing es with
  | nil =>
    simp only [entries, List.mapM_nil, Bind.bind, Except.bind, Pure.pure, Except.pure,
      List.filterMap_nil, Except.ok.injEq] at h
    subst h
    cases he
  | cons row rows ih =>
    obtain ⟨e', rest, hrow, hrest, rfl⟩ := entries_cons.mp h
    rcases List.mem_append.mp he with he | he
    · cases e' with
      | none => simp at he
      | some e' =>
        obtain rfl : e = e' := by simpa using he
        exact ⟨row, List.mem_cons_self .., hrow⟩
    · obtain ⟨r, hr, hre⟩ := ih hrest he
      exact ⟨r, List.mem_cons_of_mem _ hr, hre⟩

/-! ## The request -/

/-- The frame that carries a page, up to its id and timestamp. -/
structure Page (w : World) (me : Json) (f : Frame) (name conversation : Str) (g : Frame) :
    Prop where
  type : g.type = .historyResult
  target : g.target = .str name
  room : g.get "room" = .str name
  rows : ∃ before limit rows es, intIf (f.get "before") = .ok before ∧
    intIf (f.get "limit") = .ok limit ∧
    MessageStore.history w conversation before (limit.getD defaultLimit) = .ok rows ∧
    entries rows (orEmpty me) = .ok es ∧ g.get "messages" = .list (es.map .dict)

/-- Sending a page raises, or sends that one frame and stores nothing. -/
theorem sendPage_exec (s : Sid) (me : Json) (f : Frame) (target conversation : Str) (w : World) :
    (∃ e, (sendPage s me f target conversation).exec w = (.error e, w)) ∨
      ∃ g w', Page w me f target conversation g ∧
        (sendPage s me f target conversation).exec w = (.ok (), w') ∧
        w'.messages = w.messages ∧ w'.sent = w.sent ++ [⟨s, w.username s, g⟩] := by
  unfold sendPage
  cases hb : intIf (f.get "before") with
  | error e => exact .inl ⟨e, rfl⟩
  | ok before =>
    cases hl : intIf (f.get "limit") with
    | error e => exact .inl ⟨e, rfl⟩
    | ok limit =>
      simp only [lift, pure_bind']
      rw [RouterM.exec_bind, RouterM.exec_call]
      simp only [exec]
      cases hh : MessageStore.history w conversation before (limit.getD defaultLimit) with
      | error e => exact .inl ⟨e, rfl⟩
      | ok rows =>
        dsimp only
        cases he : entries rows (orEmpty me) with
        | error e => exact .inl ⟨e, rfl⟩
        | ok es =>
          exact .inr ⟨_, _, ⟨rfl, rfl, rfl, before, limit, rows, es, hb, hl, hh, he, rfl⟩,
            rfl, rfl, rfl⟩

/-- The conversation a target names, for a reader who may read it. -/
def Readable (w : World) (me : Json) (target conversation : Str) : Prop :=
  if target.startsWith roomPrefix then
    conversation = target ∧ me ∈ (memberNames w target).map Json.str
  else directConversation (orEmpty me) (.str target) = .ok conversation

/-- Which conversation is meant: it raises, refuses, or finds one the reader may read. -/
theorem conversationOf_exec (s : Sid) (me : Json) (target : Str) (w : World) :
    (∃ e, (conversationOf s me target).exec w = (.error e, w)) ∨
      (∃ w' g, (conversationOf s me target).exec w = (.ok none, w') ∧ w'.messages = w.messages ∧
        w'.sent = w.sent ++ [⟨s, w.username s, g⟩] ∧ g.type = .error) ∨
      ∃ conversation, (conversationOf s me target).exec w = (.ok (some conversation), w) ∧
        Readable w me target conversation := by
  unfold conversationOf Readable
  cases hd : target.startsWith roomPrefix with
  | false =>
    simp only [Bool.false_eq_true, if_false]
    cases hc : directConversation (orEmpty me) (.str target) with
    | error e => exact .inl ⟨e, rfl⟩
    | ok conversation => exact .inr (.inr ⟨conversation, rfl, rfl⟩)
  | true =>
    simp only [if_true]
    rw [RouterM.exec_bind, RouterM.exec_call]
    simp only [exec]
    by_cases henc : target.encodable = true
    case neg =>
      refine .inl ⟨.unicodeEncodeError, ?_⟩
      simp [SqliteRooms.members, Sql.str, henc, Bind.bind, Except.bind]
    have hmem : SqliteRooms.members w target = .ok (memberNames w target) := by
      simp [SqliteRooms.members, memberNames, Sql.str, henc, Bind.bind, Except.bind, Pure.pure,
        Except.pure]
    rw [hmem]
    by_cases hin : me ∈ (memberNames w target).map Json.str
    · have hc : ((memberNames w target).map Json.str).contains me = true := by simpa using hin
      simp only [hc, Bool.not_true, Bool.false_eq_true, if_false]
      exact .inr (.inr ⟨target, rfl, rfl, hin⟩)
    · have hc : ((memberNames w target).map Json.str).contains me = false := by simpa using hin
      simp only [hc, Bool.not_false, if_true]
      exact .inr (.inl ⟨_, _, rfl, rfl, rfl, rfl⟩)

/-- **What a HISTORY request does.** -/
theorem history_effect (cfg : Config) (s : Sid) (me : Json) (f : Frame) (w : World) :
    ((history cfg s me f).exec w).2.messages = w.messages ∧
      ((∃ ds, ((history cfg s me f).exec w).2.sent = w.sent ++ ds ∧
          ∀ d ∈ ds, d.frame.type = .error) ∨
        ∃ conversation g, cfg.messages = true ∧ (asked f).truthy = true ∧
          Readable w me (asked f).pyStr conversation ∧
          Page w me f (asked f).pyStr conversation g ∧
          ((history cfg s me f).exec w).1 = .ok () ∧
          ((history cfg s me f).exec w).2.sent = w.sent ++ [⟨s, w.username s, g⟩]) := by
  unfold history
  cases hm : cfg.messages with
  | false =>
    simp only [Bool.not_false, if_true]
    refine ⟨rfl, .inl ⟨_, rfl, fun d hd => ?_⟩⟩
    rw [List.mem_singleton.mp hd]
  | true =>
    simp only [Bool.not_true, Bool.false_eq_true, if_false]
    cases ht : (asked f).truthy with
    | false =>
      simp only [Bool.not_false, if_true]
      refine ⟨rfl, .inl ⟨_, rfl, fun d hd => ?_⟩⟩
      rw [List.mem_singleton.mp hd]
    | true =>
      simp only [Bool.not_true, Bool.false_eq_true, if_false]
      rw [RouterM.exec_bind]
      rcases conversationOf_exec s me (asked f).pyStr w with
        ⟨e, hrun⟩ | ⟨w', g, hrun, hmsg, hsent, hg⟩ | ⟨conversation, hrun, hread⟩
      · rw [hrun]
        exact ⟨rfl, .inl ⟨[], by simp, by simp⟩⟩
      · rw [hrun]
        exact ⟨hmsg, .inl ⟨_, hsent, by simpa using hg⟩⟩
      · rw [hrun]
        dsimp only
        rcases sendPage_exec s me f (asked f).pyStr conversation w with
          ⟨e, hrun'⟩ | ⟨g, w', hpage, hrun', hmsg, hsent⟩
        · rw [hrun']
          exact ⟨rfl, .inl ⟨[], by simp, by simp⟩⟩
        · rw [hrun']
          exact ⟨hmsg, .inr ⟨conversation, g, trivial, trivial, hread, hpage, rfl, hsent⟩⟩

end Ciphertext
