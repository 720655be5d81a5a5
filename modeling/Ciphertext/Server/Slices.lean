import Ciphertext.Server.Paging
import Ciphertext.Server.Ticks

/-!
# A history page is a slice of one order

`MessageStore.history` asks for the newest rows first, cuts, and turns the result round.
The rows of a conversation have one order, by timestamp and, where that is the same, by
when they were put in; what comes back is the end of it. Rows are never taken out, and
of a row that is in only the receipts change, so two pages never disagree about the rows
they share, whatever happened between them.

The method raises on two arguments, a name UTF-8 cannot carry and a bound sqlite cannot
hold. `limit` is brought into its range first, `before` is bound as it comes.

`rightSlice_iff` says both of a page and of any later one, after any calls in between,
and that it fails for exactly the arguments sqlite refuses. The sorting is `Ranked`'s
`newest_reverse`; that later pages agree is `Grown`, that rows keep their places and
their contents (`exec_grown` in `Ticks`).
-/

namespace Ciphertext

open Prog MessageRouter

namespace MessageStore

/-- The rows of a conversation older than the bound, each with its rowid, by timestamp
and then by when they were put in. -/
def inOrder (messages : List Row) (conversation : Str) (before : Option Int) : List (Row × Nat) :=
  Ranked.ascending Row.ts (messages.zipIdx.filter fun r => r.1.conversation == conversation && isBefore before r.1)

/-- The last `min(n, k)` of them. -/
def slice (messages : List Row) (conversation : Str) (before : Option Int) (limit : Int) : List (Row × Nat) :=
  let rows := inOrder messages conversation before
  rows.drop (rows.length - min rows.length (max 1 (min limit maxLimit)).toNat)

/-- What two pages have in common, as the first shows it, receipts aside. -/
def shared (page page' : List (Row × Nat)) : List (Row × Nat) :=
  (page.filter fun r => page'.any fun r' => r'.2 == r.2).map fun r => (r.1.unmarked, r.2)

/-- Sqlite can bind both. -/
def Bindable (conversation : Str) (before : Option Int) : Prop :=
  conversation.encodable = true ∧ ∀ b, before = some b → -2 ^ 63 ≤ b ∧ b < 2 ^ 63

/-- The ranks apart, a slice is the newest of the rows before the bound. -/
theorem slice_map_fst (messages : List Row) (conversation : Str) (before : Option Int) (limit : Int) :
    (slice messages conversation before limit).map Prod.fst =
      newest (pageSize limit) (rowsBefore messages conversation before) := by
  have hsort : (inOrder messages conversation before).map Prod.fst = rowsBefore messages conversation before := by
    unfold inOrder rowsBefore
    rw [Ranked.ascending_map_fst ((Ranked.zipIdx_pairwise messages 0).filter _),
      Ranked.filter_zipIdx_map_fst messages fun r => r.conversation == conversation && isBefore before r]
  have hlength := congrArg List.length hsort
  rw [List.length_map] at hlength
  unfold slice newest pageSize
  rw [List.map_drop, hsort, hlength]
  congr 1
  omega

/-- A call that returned had an encodable conversation and a bound of 64 bits. -/
theorem bindable_of_ok {w : World} {conversation : Str} {before : Option Int} {limit : Int} {rows : List Row}
    (h : history w conversation before limit = .ok rows) : Bindable conversation before := by
  rw [history_eq] at h
  simp only [Bind.bind, Except.bind, Pure.pure, Except.pure] at h
  cases hc : Sql.str conversation with
  | error e =>
    rw [hc] at h
    cases h
  | ok c =>
    refine ⟨(Sql.str_ok.mp hc).1, fun b hb => ?_⟩
    subst hb
    rw [hc] at h
    dsimp only at h
    cases hn : Sql.int b with
    | error e =>
      rw [hn] at h
      cases h
    | ok n => exact (Sql.int_ok.mp hn).1

/-- **The page is the slice exactly when sqlite can bind the arguments.** -/
theorem history_slice_iff (w : World) (conversation : Str) (before : Option Int) (limit : Int) :
    history w conversation before limit = .ok ((slice w.messages conversation before limit).map Prod.fst) ↔
      Bindable conversation before := by
  constructor
  · exact bindable_of_ok
  · intro h
    rw [history_rows h.1 h.2, slice_map_fst]

/-- Any answer is the slice. -/
theorem history_ok {w : World} {conversation : Str} {before : Option Int} {limit : Int} {rows : List Row}
    (h : history w conversation before limit = .ok rows) :
    rows = (slice w.messages conversation before limit).map Prod.fst := by
  have hslice := (history_slice_iff w conversation before limit).mpr (bindable_of_ok h)
  exact (Except.ok.inj (hslice.symm.trans h)).symm

/-! ## Two pages -/

/-- A rank is where the row stands in the store. -/
theorem mem_slice {messages : List Row} {conversation : Str} {before : Option Int} {limit : Int} {r : Row × Nat}
    (h : r ∈ slice messages conversation before limit) : messages[r.2]? = some r.1 := by
  have hmem := (Ranked.ascending_perm _).mem_iff.mp (List.mem_of_mem_drop h)
  exact List.mem_zipIdx_iff_getElem?.mp (List.mem_of_mem_filter hmem)

/-- A page is in order: by `ts`, and by rank where that is the same. -/
theorem slice_pairwise (messages : List Row) (conversation : Str) (before : Option Int) (limit : Int) :
    (slice messages conversation before limit).Pairwise (Ranked.Before Row.ts) :=
  (Ranked.ascending_pairwise _).sublist (List.drop_sublist _ _)

/-- No row is on a page twice. -/
theorem slice_nodup (messages : List Row) (conversation : Str) (before : Option Int) (limit : Int) :
    (slice messages conversation before limit).Nodup := by
  have hplaces : (messages.zipIdx.filter fun r => r.1.conversation == conversation && isBefore before r.1).Nodup :=
    ((Ranked.zipIdx_pairwise messages 0).imp fun h heq => by simp [heq] at h).filter _
  exact ((Ranked.ascending_perm _).nodup_iff.mpr hplaces).sublist (List.drop_sublist _ _)

/-- Rows of a table, each at its place, in order. -/
structure PageOf (messages : List Row) (page : List (Row × Nat)) : Prop where
  placed : ∀ r ∈ page, messages[r.2]? = some r.1
  ordered : page.Pairwise (Ranked.Before Row.ts)
  nodup : page.Nodup

/-- A slice is a page of the store. -/
theorem slice_pageOf (messages : List Row) (conversation : Str) (before : Option Int) (limit : Int) :
    PageOf messages (slice messages conversation before limit) :=
  ⟨fun _ h => mem_slice h, slice_pairwise .., slice_nodup ..⟩

variable {messages messages' : List Row} {page page' : List (Row × Nat)}

/-- What is shared is on the first page, unmarked, and its rank is on the second. -/
theorem mem_shared {u : Row × Nat} :
    u ∈ shared page page' ↔ ∃ r ∈ page, (∃ r' ∈ page', r'.2 = r.2) ∧ (r.1.unmarked, r.2) = u := by
  unfold shared
  simp only [List.mem_map, List.mem_filter, List.any_eq_true, beq_iff_eq, and_assoc]

/-- Two rows of a page that have one rank are one row. -/
theorem PageOf.eq_of_rank (h : PageOf messages page) {r r' : Row × Nat} (hr : r ∈ page) (hr' : r' ∈ page)
    (heq : r.2 = r'.2) : r = r' := by
  have hrow := h.placed r hr
  rw [heq, h.placed r' hr'] at hrow
  exact Prod.ext (Option.some.inj hrow).symm heq

/-- What two pages share is in order. -/
theorem PageOf.shared_pairwise (h : PageOf messages page) (page' : List (Row × Nat)) :
    (shared page page').Pairwise (Ranked.Before Row.ts) :=
  List.pairwise_map.mpr (h.ordered.filter _)

/-- Nothing is shared twice. -/
theorem PageOf.shared_nodup (h : PageOf messages page) (page' : List (Row × Nat)) :
    (shared page page').Nodup := by
  refine (h.nodup.filter _).map_on fun r hr r' hr' heq => ?_
  exact h.eq_of_rank (List.mem_of_mem_filter hr) (List.mem_of_mem_filter hr') (Prod.mk.inj heq).2

/-- The rows of the one table that are at their places in the other, receipts aside. -/
theorem unmarked_eq (h : Grown messages messages') {r r' : Row × Nat} (hr : messages[r.2]? = some r.1)
    (hr' : messages'[r'.2]? = some r'.1) (heq : r.2 = r'.2) : r.1.unmarked = r'.1.unmarked := by
  obtain ⟨row, hrow, hsame, -⟩ := h r.2 r.1 hr
  rw [heq, hr'] at hrow
  rw [← hsame, Option.some.inj hrow]

/-- **Two pages show what they share alike**, in the same order and with the same fields. -/
theorem shared_comm (h : Grown messages messages') (hpage : PageOf messages page)
    (hpage' : PageOf messages' page') : shared page page' = shared page' page := by
  refine Ranked.eq_of_pairwise ?_ ?_ (hpage'.shared_pairwise page) (hpage.shared_pairwise page')
  · intro a ha b hb heq
    obtain ⟨r, hr, -, rfl⟩ := mem_shared.mp ha
    obtain ⟨r', hr', -, rfl⟩ := mem_shared.mp hb
    rw [hpage'.eq_of_rank hr hr' heq]
  · rw [List.perm_ext_iff_of_nodup (hpage.shared_nodup page') (hpage'.shared_nodup page)]
    intro u
    rw [mem_shared, mem_shared]
    constructor
    · intro hu
      obtain ⟨r, hr, ⟨r', hr', heq⟩, rfl⟩ := hu
      have hsame := unmarked_eq h (hpage.placed r hr) (hpage'.placed r' hr') heq.symm
      exact ⟨r', hr', ⟨r, hr, heq.symm⟩, Prod.ext hsame.symm heq⟩
    · intro hu
      obtain ⟨r', hr', ⟨r, hr, heq⟩, rfl⟩ := hu
      have hsame := unmarked_eq h (hpage.placed r hr) (hpage'.placed r' hr') heq
      exact ⟨r, hr, ⟨r', hr', heq.symm⟩, Prod.ext hsame heq⟩

/-! ## Between two pages -/

section Calls

variable [Runtime]

/-- The world after some calls. -/
def afterCalls (w : World) (ops : List Op) : World := ops.foldl (fun w o => (exec o w).2) w

/-- Over any calls the rows stay where they are, and their receipts may advance. -/
theorem afterCalls_grown (w : World) (ops : List Op) : Grown w.messages (afterCalls w ops).messages := by
  induction ops generalizing w with
  | nil => exact .refl _
  | cons o ops ih => exact (exec_grown o w).trans (ih (exec o w).2)

/-- What a history page is: the right rows, and with any later page in agreement about
the rows they share. -/
structure RightSlice (w : World) (conversation : Str) (before : Option Int) (limit : Int) : Prop where
  rows : history w conversation before limit = .ok ((slice w.messages conversation before limit).map Prod.fst)
  stable : ∀ ops conversation' before' limit' rows,
    history (afterCalls w ops) conversation' before' limit' = .ok rows →
      rows = (slice (afterCalls w ops).messages conversation' before' limit').map Prod.fst ∧
        shared (slice w.messages conversation before limit)
            (slice (afterCalls w ops).messages conversation' before' limit') =
          shared (slice (afterCalls w ops).messages conversation' before' limit')
            (slice w.messages conversation before limit)

/-- **A history page is the right slice, in a stable order, exactly when sqlite can bind
what is asked for.** -/
theorem rightSlice_iff (w : World) (conversation : Str) (before : Option Int) (limit : Int) :
    RightSlice w conversation before limit ↔ Bindable conversation before := by
  constructor
  · intro h
    exact (history_slice_iff w conversation before limit).mp h.rows
  · intro h
    refine ⟨(history_slice_iff w conversation before limit).mpr h, ?_⟩
    intro ops conversation' before' limit' rows hrows
    exact ⟨history_ok hrows, shared_comm (afterCalls_grown w ops) (slice_pageOf ..) (slice_pageOf ..)⟩

end Calls

end MessageStore

section Concrete

open Sample MessageStore

attribute [local instance] sampleRuntime

/-- A bound of 64 bits and one more. -/
theorem farBound_raises :
    history fresh "c" (some (2 ^ 63)) 50 = .error .overflowError ∧ ¬ RightSlice fresh "c" (some (2 ^ 63)) 50 := by
  have hraises : history fresh "c" (some (2 ^ 63)) 50 = .error .overflowError := by rfl
  refine ⟨hraises, fun h => ?_⟩
  have hrows := h.rows
  rw [hraises] at hrows
  cases hrows

end Concrete

end Ciphertext
