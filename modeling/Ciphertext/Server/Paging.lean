import Ciphertext.Server.Access
import Ciphertext.Server.Returns

/-!
# Reading a conversation page by page

A client pages backwards by asking for the rows before the oldest timestamp it was
shown. What a page shows is cut twice: `LIMIT` takes the newest rows first, and the
rows that hold nothing for the reader are left out of those afterwards. Three things
can then go wrong, and `CutsWell` rules them out at one bound: the timestamp at the cut
is shared with a row that was left out, a page in which nothing was for the reader
looks like the end, and a bound of 0 counts as no bound. `pages_iff` says that
nothing else can.

`Run.paging` is the same of the server's answers, in every reachable state, for every
stored conversation, each of its readers and every limit: the requests end, and have
sent each message for the reader exactly once, if and only if every bound that comes up
cuts well. `tied_lost` is two messages of one millisecond at the end of a page; the
older of them is never shown.
-/

namespace Ciphertext

open Prog MessageRouter

/-! ## Rows, pages and bounds -/

/-- The row is older than the bound, if there is one. -/
def isBefore (before : Option Int) (r : Row) : Bool := before.all fun b => r.ts < b

/-- The rows of a conversation older than a bound, oldest first. -/
def rowsBefore (messages : List Row) (conversation : Str) (before : Option Int) : List Row :=
  (messages.filter fun r => r.conversation == conversation && isBefore before r).insertionSort
    fun a b => a.ts ≤ b.ts

/-- How many rows a page takes. -/
def pageSize (limit : Int) : Nat := (max 1 (min limit maxLimit)).toNat

/-- The rows a page takes. -/
def newest (size : Nat) (rows : List Row) : List Row := rows.drop (rows.length - size)

/-- The rows it leaves for later. -/
def leftOut (size : Nat) (rows : List Row) : List Row := rows.take (rows.length - size)

theorem leftOut_append_newest (size : Nat) (rows : List Row) : leftOut size rows ++ newest size rows = rows :=
  List.take_append_drop ..

theorem mem_rowsBefore {messages : List Row} {conversation : Str} {before : Option Int} {r : Row} :
    r ∈ rowsBefore messages conversation before ↔
      r ∈ messages ∧ r.conversation = conversation ∧ isBefore before r = true := by
  unfold rowsBefore
  rw [List.mem_insertionSort, List.mem_filter, Bool.and_eq_true, beq_iff_eq]

theorem rowsBefore_sorted (messages : List Row) (conversation : Str) (before : Option Int) :
    (rowsBefore messages conversation before).Pairwise fun a b => a.ts ≤ b.ts := by
  have : Std.Total fun a b : Row => a.ts ≤ b.ts := ⟨fun a b => le_total a.ts b.ts⟩
  have : IsTrans Row fun a b => a.ts ≤ b.ts := ⟨fun a b c hab hbc => le_trans hab hbc⟩
  exact List.pairwise_insertionSort _ _

/-- The rows before a timestamp that is itself before the bound. -/
theorem rowsBefore_perm {messages : List Row} {conversation : Str} {before : Option Int} {r₀ : Row}
    (h : isBefore before r₀ = true) :
    (rowsBefore messages conversation (some r₀.ts)).Perm
      ((rowsBefore messages conversation before).filter fun r => r.ts < r₀.ts) := by
  have hperm : (rowsBefore messages conversation before).Perm
      (messages.filter fun r => r.conversation == conversation && isBefore before r) :=
    List.perm_insertionSort _ _
  refine (List.perm_insertionSort _ _).trans ((hperm.filter _).trans ?_).symm
  rw [List.filter_filter]
  refine List.Perm.of_eq (List.filter_congr fun r _ => ?_)
  cases before with
  | none => simp [isBefore, Bool.and_comm]
  | some b =>
    have hb : r₀.ts < b := by simpa [isBefore] using h
    by_cases hr : r.ts < r₀.ts
    · have hrb : r.ts < b := by omega
      simp [isBefore, hr, hrb]
    · simp [isBefore, hr]

section PageReader

variable [Runtime]

/-- A row as a reader is shown it, `none` when it holds nothing for them. -/
def shown (reader : Json) (r : Row) : Option Dict := (historyEntry r reader).toOption.join

/-- The entries of a page: a row that cannot be read makes the whole request raise. -/
theorem entries_eq_ok {rows : List Row} {reader : Json} {es : List Dict} :
    entries rows reader = .ok es ↔
      (∀ r ∈ rows, ∃ e, historyEntry r reader = .ok e) ∧ es = rows.filterMap (shown reader) := by
  induction rows generalizing es with
  | nil =>
    rw [show entries [] reader = .ok [] from rfl]
    simp [eq_comm]
  | cons r rows ih =>
    rw [entries_cons]
    constructor
    · intro h
      obtain ⟨e, rest, he, hrest, rfl⟩ := h
      obtain ⟨hall, rfl⟩ := ih.mp hrest
      have hshown : shown reader r = e := by
        rw [shown, he]
        rfl
      refine ⟨fun x hx => ?_, ?_⟩
      · rcases List.mem_cons.mp hx with rfl | hx
        · exact ⟨e, he⟩
        · exact hall x hx
      · rw [List.filterMap_cons, hshown]
        cases e <;> rfl
    · intro h
      obtain ⟨hall, rfl⟩ := h
      obtain ⟨e, he⟩ := hall r (List.mem_cons_self ..)
      have hshown : shown reader r = e := by
        rw [shown, he]
        rfl
      refine ⟨e, rows.filterMap (shown reader), he, ih.mpr ⟨fun x hx => hall x (List.mem_cons_of_mem _ hx), rfl⟩, ?_⟩
      rw [List.filterMap_cons, hshown]
      cases e <;> rfl

/-- A row that is not legible raises, whoever reads it. -/
theorem historyEntry_ok_iff {r : Row} {reader : Json} :
    (∃ e, historyEntry r reader = .ok e) ↔ legible r.body r.nonce := by
  constructor
  · intro h hn
    obtain ⟨e, he⟩ := h
    unfold historyEntry contentFor at he
    rw [if_pos hn] at he
    dsimp only at he
    generalize Runtime.loads _ = parsed at he ⊢
    rcases parsed with err | v
    · cases err <;> trivial
    · cases v <;> trivial
  · intro h
    exact historyEntry_legible h reader

theorem shown_ts {reader : Json} {r : Row} {e : Dict} (h : shown reader r = some e) :
    Json.get e "ts" = .int r.ts := by
  unfold shown at h
  cases he : historyEntry r reader with
  | error err => rw [he] at h; cases h
  | ok e' =>
    rw [he] at h
    obtain rfl : e' = some e := h
    obtain ⟨b, n, -, rfl⟩ := historyEntry_some.mp he
    rfl

/-- The oldest row of a page that its reader is shown. -/
def oldest (reader : Json) (page : List Row) : Option Row := page.find? fun r => (shown reader r).isSome

theorem oldest_eq_none {reader : Json} {page : List Row} :
    oldest reader page = none ↔ page.filterMap (shown reader) = [] := by
  unfold oldest
  rw [List.find?_eq_none, List.filterMap_eq_nil_iff]
  simp

/-- The first entry of a page is that of its oldest shown row. -/
theorem oldest_of_entries {reader : Json} {page : List Row} {e : Dict} {es : List Dict}
    (h : page.filterMap (shown reader) = e :: es) :
    ∃ r, oldest reader page = some r ∧ shown reader r = some e := by
  obtain ⟨pre, r, post, rfl, hpre, hr, -⟩ := List.filterMap_eq_cons_iff.mp h
  refine ⟨r, ?_, hr⟩
  unfold oldest
  rw [List.find?_append, List.find?_eq_none.mpr fun x hx => by simp [hpre x hx], Option.none_or]
  simp [hr]

variable {messages : List Row} {conversation : Str} {reader : Json} {size : Nat} {before : Option Int} {r₀ : Row}

/-- **What the next bound lets through** is what the page left out and is strictly
older: rows of the page older than its first shown row hold nothing for the reader. -/
theorem shown_before_perm (h : oldest reader (newest size (rowsBefore messages conversation before)) = some r₀) :
    ((rowsBefore messages conversation (some r₀.ts)).filterMap (shown reader)).Perm
      (((leftOut size (rowsBefore messages conversation before)).filter fun r => r.ts < r₀.ts).filterMap
        (shown reader)) := by
  have hmem : r₀ ∈ rowsBefore messages conversation before :=
    List.mem_of_mem_drop (List.mem_of_find?_eq_some h)
  have hperm := @rowsBefore_perm messages conversation before r₀ (mem_rowsBefore.mp hmem).2.2
  refine (hperm.filterMap _).trans (List.Perm.of_eq ?_)
  have hsplit := leftOut_append_newest size (rowsBefore messages conversation before)
  have hsorted : (newest size (rowsBefore messages conversation before)).Pairwise fun a b => a.ts ≤ b.ts :=
    (rowsBefore_sorted messages conversation before).sublist (List.drop_sublist ..)
  have hpage : ((newest size (rowsBefore messages conversation before)).filter fun r => r.ts < r₀.ts).filterMap
      (shown reader) = [] := by
    rw [List.filterMap_eq_nil_iff]
    intro r hr
    obtain ⟨hr, hts⟩ := List.mem_filter.mp hr
    obtain ⟨pre, post, hpage, hpre⟩ := List.find?_eq_some_iff_append.mp h |>.2
    rw [hpage] at hr hsorted
    rcases List.mem_append.mp hr with hr | hr
    · simpa using hpre r hr
    · -- the rows from the first shown one on are no older than it
      have hge : r₀.ts ≤ r.ts := by
        rcases List.mem_cons.mp hr with rfl | hr
        · exact le_refl _
        · exact (List.pairwise_cons.mp (List.pairwise_append.mp hsorted).2.1).1 r hr
      have hlt : r.ts < r₀.ts := by simpa using hts
      omega
  conv_lhs => rw [← hsplit]
  rw [List.filter_append, List.filterMap_append, hpage, List.append_nil]

/-- Every step back leaves fewer rows. -/
theorem length_rowsBefore_lt (h : oldest reader (newest size (rowsBefore messages conversation before)) = some r₀) :
    (rowsBefore messages conversation (some r₀.ts)).length < (rowsBefore messages conversation before).length := by
  have hmem : r₀ ∈ rowsBefore messages conversation before :=
    List.mem_of_mem_drop (List.mem_of_find?_eq_some h)
  rw [(rowsBefore_perm (mem_rowsBefore.mp hmem).2.2).length_eq]
  refine List.length_filter_lt_length_iff_exists.mpr ⟨r₀, hmem, by simp⟩

omit [Runtime] in
/-- Filtering first can only lose results. -/
theorem length_filter_filterMap_le {α β : Type} (p : α → Bool) (f : α → Option β) (l : List α) :
    ((l.filter p).filterMap f).length ≤ (l.filterMap f).length :=
  (List.filter_sublist.filterMap f).length_le

omit [Runtime] in
/-- If none is lost, the filter let through everything that has a result. -/
theorem forall_of_length_filter_filterMap {α β : Type} {p : α → Bool} {f : α → Option β} {l : List α}
    (h : (l.filterMap f).length ≤ ((l.filter p).filterMap f).length) : ∀ x ∈ l, (f x).isSome = true → p x = true := by
  induction l with
  | nil => nofun
  | cons a l ih =>
    have hle := length_filter_filterMap_le p f l
    rw [List.filterMap_cons] at h
    by_cases hp : p a = true
    · rw [List.filter_cons_of_pos hp, List.filterMap_cons] at h
      have htail : (l.filterMap f).length ≤ ((l.filter p).filterMap f).length := by
        cases hf : f a with
        | none => simpa [hf] using h
        | some b => simpa [hf] using h
      intro x hx hsome
      rcases List.mem_cons.mp hx with rfl | hx
      · exact hp
      · exact ih htail x hx hsome
    · rw [List.filter_cons_of_neg hp] at h
      cases hf : f a with
      | none =>
        rw [hf] at h
        intro x hx hsome
        rcases List.mem_cons.mp hx with rfl | hx
        · rw [hf] at hsome
          cases hsome
        · exact ih h x hx hsome
      | some b =>
        rw [hf] at h
        simp only [List.length_cons] at h
        omega

/-! ## Going back -/

/-- A bound of 0 is falsy, and so is no bound. -/
def bound (before : Option Int) : Option Int := if before = some 0 then none else before

variable (messages conversation reader size)

/-- The rows of the page that a request with this bound is answered with. -/
def pageRows (before : Option Int) : List Row := newest size (rowsBefore messages conversation (bound before))

/-- The rows it leaves out. -/
def restRows (before : Option Int) : List Row := leftOut size (rowsBefore messages conversation (bound before))

/-- Asking with a bound, and then with the timestamp of the oldest entry of each
page, comes to an end after so many more pages, with these entries in all. -/
inductive Pages : Nat → Option Int → List Dict → Prop
  | done {before : Option Int} (h : entries (pageRows messages conversation size before) reader = .ok []) :
      Pages 0 before []
  | more {before : Option Int} {e : Dict} {es rest : List Dict} {ts : Int} {n : Nat}
      (h : entries (pageRows messages conversation size before) reader = .ok (e :: es))
      (hts : Json.get e "ts" = .int ts) (hrest : Pages n (some ts) rest) :
      Pages (n + 1) before (rest ++ e :: es)

/-- The bounds that come up on the way: none, and then the timestamp of the oldest
row the reader is shown of each page. -/
inductive Comes : Option Int → Prop
  | first : Comes none
  | next {before : Option Int} {r : Row} (h : Comes before)
      (hr : oldest reader (pageRows messages conversation size before) = some r) : Comes (some r.ts)

/-- Nothing goes wrong at this bound. -/
structure CutsWell (before : Option Int) : Prop where
  /-- no row of the page makes the request raise -/
  readable : ∀ r ∈ pageRows messages conversation size before, legible r.body r.nonce
  /-- a page with nothing for the reader is the end -/
  ends : oldest reader (pageRows messages conversation size before) = none →
    ∀ r ∈ restRows messages conversation size before, shown reader r = none
  /-- the oldest row shown is not stamped 0, and older are all the others still to be shown -/
  tie : ∀ r₀, oldest reader (pageRows messages conversation size before) = some r₀ → r₀.ts ≠ 0 ∧
    ∀ r ∈ restRows messages conversation size before, (shown reader r).isSome = true → r.ts < r₀.ts

variable {messages conversation reader size}

omit [Runtime] in
@[simp] theorem bound_none : bound none = none := rfl

omit [Runtime] in
theorem bound_of_ne {before : Option Int} (h : before ≠ some 0) : bound before = before := if_neg h

variable (messages conversation size) in
omit [Runtime] in
theorem rowsBefore_split (before : Option Int) : restRows messages conversation size before ++
    pageRows messages conversation size before = rowsBefore messages conversation (bound before) :=
  leftOut_append_newest ..

theorem Pages.unique {n n' : Nat} {es es' : List Dict} (h : Pages messages conversation reader size n before es)
    (h' : Pages messages conversation reader size n' before es') : n = n' ∧ es = es' := by
  induction h generalizing n' es' with
  | done he =>
    cases h' with
    | done _ => exact ⟨rfl, rfl⟩
    | more he' _ _ =>
      rw [he] at he'
      cases he'
  | @more before e es rest ts n he hts _ ih =>
    cases h' with
    | done he' =>
      rw [he] at he'
      cases he'
    | @more _ e' es' rest' ts' n' he' hts' hrest' =>
      rw [he] at he'
      obtain ⟨rfl, rfl⟩ := List.cons.inj (Except.ok.inj he')
      rw [hts] at hts'
      obtain rfl := Json.int.inj hts'
      obtain ⟨rfl, rfl⟩ := ih hrest'
      exact ⟨rfl, rfl⟩

/-- Asking with the bound 0 is asking from the start. -/
theorem Pages.zero {n : Nat} {es : List Dict} (h : Pages messages conversation reader size n (some 0) es) :
    Pages messages conversation reader size n none es := by
  have hsame : pageRows messages conversation size (some 0) = pageRows messages conversation size none := rfl
  cases h with
  | done he => exact .done (hsame ▸ he)
  | more he hts hrest => exact .more (hsame ▸ he) hts hrest

/-- The first entry of a page carries the timestamp of its oldest shown row. -/
theorem oldest_of_page {e : Dict} {es : List Dict} {ts : Int} {rows : List Row}
    (h : entries rows reader = .ok (e :: es)) (hts : Json.get e "ts" = .int ts) :
    ∃ r, oldest reader rows = some r ∧ r.ts = ts := by
  obtain ⟨r, hr, he⟩ := oldest_of_entries (entries_eq_ok.mp h).2.symm
  rw [shown_ts he] at hts
  exact ⟨r, hr, Json.int.inj hts⟩

/-! ### If nothing goes wrong -/

/-- From a bound that comes up, everything before it is shown once. -/
theorem pages_of_cutsWell (hcuts : ∀ b, Comes messages conversation reader size b → CutsWell messages conversation reader size b)
    {before : Option Int} (hb : Comes messages conversation reader size before) (hne : before ≠ some 0) :
    ∃ n es, Pages messages conversation reader size n before es ∧
      es.Perm ((rowsBefore messages conversation before).filterMap (shown reader)) := by
  generalize hlen : (rowsBefore messages conversation before).length = len
  induction len using Nat.strongRecOn generalizing before with
  | ind len ih =>
    have hc := hcuts before hb
    have hsplit := rowsBefore_split messages conversation size before
    rw [bound_of_ne hne] at hsplit
    have hentries := entries_eq_ok.mpr
      ⟨fun r hr => historyEntry_legible (hc.readable r hr) reader, rfl⟩
    cases ho : oldest reader (pageRows messages conversation size before) with
    | none =>
      have hpage := oldest_eq_none.mp ho
      rw [hpage] at hentries
      refine ⟨0, [], .done hentries, ?_⟩
      rw [← hsplit, List.filterMap_append, hpage, List.filterMap_eq_nil_iff.mpr (hc.ends ho)]
      exact .refl _
    | some r₀ =>
      obtain ⟨hzero, hlt⟩ := hc.tie r₀ ho
      have ho' := ho
      unfold pageRows at ho'
      rw [bound_of_ne hne] at ho'
      have hshorter := length_rowsBefore_lt ho'
      rw [hlen] at hshorter
      have hnext : some r₀.ts ≠ some 0 := fun he => hzero (Option.some.inj he)
      obtain ⟨n, rest, hpages, hperm⟩ := ih _ hshorter (hb.next ho) hnext rfl
      cases hfirst : (pageRows messages conversation size before).filterMap (shown reader) with
      | nil => rw [oldest_eq_none.mpr hfirst] at ho; cases ho
      | cons e es =>
        rw [hfirst] at hentries
        obtain ⟨r, hr, he⟩ := oldest_of_entries hfirst
        rw [ho] at hr
        obtain rfl := Option.some.inj hr
        refine ⟨n + 1, rest ++ e :: es, .more hentries (shown_ts he) hpages, ?_⟩
        rw [← hsplit, List.filterMap_append, hfirst]
        refine List.Perm.append_right _ (hperm.trans ((shown_before_perm ho').trans (List.Perm.of_eq ?_)))
        -- nothing that the page left out is lost to the next bound
        have hrest : leftOut size (rowsBefore messages conversation before) = restRows messages conversation size before := by
          rw [restRows, bound_of_ne hne]
        rw [hrest, List.filterMap_filter]
        refine List.filterMap_congr fun r' hr' => ?_
        by_cases hs : (shown reader r').isSome = true
        · simp [hlt r' hr' hs]
        · have hnone : shown reader r' = none := by simpa using hs
          simp [hnone]

/-! ### If something does -/

section Ended

variable {n₀ : Nat} {es₀ : List Dict} (h₀ : Pages messages conversation reader size n₀ none es₀)
include h₀

/-- On the way to an end the bound 0 does not come up: it leads back to the start. -/
theorem Pages.ne_zero {n : Nat} {es : List Dict} (h : Pages messages conversation reader size n before es)
    (hn : n < n₀) : before ≠ some 0 := by
  intro he
  rw [he] at h
  have hsame := (h.zero.unique h₀).1
  omega

/-- No row is shown twice, and none that is not before the bound. -/
theorem Pages.length_le {n : Nat} {es : List Dict} (h : Pages messages conversation reader size n before es)
    (hn : n ≤ n₀) (hne : before ≠ some 0) :
    es.length ≤ ((rowsBefore messages conversation before).filterMap (shown reader)).length := by
  induction h with
  | done _ => exact Nat.zero_le _
  | @more before e es rest ts n he hts hrest ih =>
    obtain ⟨r₀, ho, rfl⟩ := oldest_of_page he hts
    have hstep := ih (by omega) (Pages.ne_zero h₀ hrest (by omega))
    have hpage := (entries_eq_ok.mp he).2
    unfold pageRows at ho hpage
    rw [bound_of_ne hne] at ho hpage
    have hback := (shown_before_perm ho).length_eq
    have hless := length_filter_filterMap_le (fun r : Row => decide (r.ts < r₀.ts)) (shown reader)
      (leftOut size (rowsBefore messages conversation before))
    rw [← leftOut_append_newest size (rowsBefore messages conversation before), List.filterMap_append, ← hpage,
      List.length_append, List.length_append]
    omega

/-- Where everything was shown, every bound that comes up is part of the way, and
everything before it was shown after it. -/
theorem comes_pages (hall : es₀.length = ((rowsBefore messages conversation none).filterMap (shown reader)).length)
    (hb : Comes messages conversation reader size before) :
    before ≠ some 0 ∧ (∃ n es, n ≤ n₀ ∧ Pages messages conversation reader size n before es ∧
      es.length = ((rowsBefore messages conversation before).filterMap (shown reader)).length) ∧
      CutsWell messages conversation reader size before := by
  -- Pages that show as many as there are show all: what one page leaves out has to come after it.
  have hcuts : ∀ before n es, n ≤ n₀ → before ≠ some 0 → Pages messages conversation reader size n before es →
      es.length = ((rowsBefore messages conversation before).filterMap (shown reader)).length →
      (∀ r₀, oldest reader (pageRows messages conversation size before) = some r₀ → ∃ n' rest, n' < n₀ ∧
        Pages messages conversation reader size n' (some r₀.ts) rest ∧ rest.length =
          ((rowsBefore messages conversation (some r₀.ts)).filterMap (shown reader)).length) ∧
        CutsWell messages conversation reader size before := by
    intro before n es hn hne hpages hlen
    have hsplit := rowsBefore_split messages conversation size before
    rw [bound_of_ne hne] at hsplit
    rw [← hsplit, List.filterMap_append, List.length_append] at hlen
    cases hpages with
    | done he =>
      obtain ⟨hall', hpage⟩ := entries_eq_ok.mp he
      have hread := fun r hr => historyEntry_ok_iff.mp (hall' r hr)
      have hnone := oldest_eq_none.mpr hpage.symm
      refine ⟨fun r₀ hr => ?_, hread, fun _ => ?_, fun r₀ hr => ?_⟩
      · rw [hnone] at hr
        cases hr
      · rw [← hpage] at hlen
        have hrest : (restRows messages conversation size before).filterMap (shown reader) = [] := by
          refine List.eq_nil_of_length_eq_zero ?_
          simp only [List.length_nil] at hlen
          omega
        exact List.filterMap_eq_nil_iff.mp hrest
      · rw [hnone] at hr
        cases hr
    | @more _ e es rest ts n he hts hrest =>
      obtain ⟨r₀, ho, rfl⟩ := oldest_of_page he hts
      obtain ⟨hall', hpage⟩ := entries_eq_ok.mp he
      have hread := fun r hr => historyEntry_ok_iff.mp (hall' r hr)
      have hnext := Pages.ne_zero h₀ hrest (by omega)
      have hle := Pages.length_le h₀ hrest (by omega) hnext
      have ho' := ho
      unfold pageRows at ho'
      rw [bound_of_ne hne] at ho'
      have hback := (shown_before_perm ho').length_eq
      have hleft : leftOut size (rowsBefore messages conversation before) = restRows messages conversation size before := by
        rw [restRows, bound_of_ne hne]
      rw [hleft] at hback
      have hless := length_filter_filterMap_le (fun r : Row => decide (r.ts < r₀.ts)) (shown reader)
        (restRows messages conversation size before)
      rw [List.length_append, hpage] at hlen
      -- the bound of the next page is the one the reader took
      have huniq : ∀ r, oldest reader (pageRows messages conversation size before) = some r → r = r₀ := by
        intro r hr
        rw [ho] at hr
        exact (Option.some.inj hr).symm
      refine ⟨fun r hr => ?_, hread, fun hnone => ?_, fun r hr => ?_⟩
      · rw [huniq r hr]
        exact ⟨n, rest, by omega, hrest, by omega⟩
      · rw [ho] at hnone
        cases hnone
      · rw [huniq r hr]
        refine ⟨fun hzero => hnext (congrArg some hzero), fun r' hr' hs => ?_⟩
        have hforall := forall_of_length_filter_filterMap (p := fun r : Row => decide (r.ts < r₀.ts))
          (f := shown reader) (l := restRows messages conversation size before) (by omega)
        simpa using hforall r' hr' hs
  -- each bound that comes up is that of a page further on, so the number of pages left falls
  induction hb with
  | first =>
    have hne : (none : Option Int) ≠ some 0 := nofun
    exact ⟨hne, ⟨n₀, es₀, le_refl _, h₀, hall⟩, (hcuts none n₀ es₀ (le_refl _) hne h₀ hall).2⟩
  | @next before r _ hr ih =>
    obtain ⟨hne, ⟨n, es, hn, hpages, hlen⟩, -⟩ := ih
    obtain ⟨n', rest, hn', hrest, hlen'⟩ := (hcuts before n es hn hne hpages hlen).1 r hr
    have hne' := Pages.ne_zero h₀ hrest hn'
    exact ⟨hne', ⟨n', rest, by omega, hrest, hlen'⟩, (hcuts _ n' rest (by omega) hne' hrest hlen').2⟩

end Ended

/-- **Paging back shows everything once, and ends, exactly if every bound that comes
up cuts well.** -/
theorem pages_iff : (∃ n es, Pages messages conversation reader size n none es ∧
      es.Perm ((messages.filter fun r => r.conversation == conversation).filterMap (shown reader))) ↔
    ∀ b, Comes messages conversation reader size b → CutsWell messages conversation reader size b := by
  have hall : ((rowsBefore messages conversation none).filterMap (shown reader)).Perm
      ((messages.filter fun r => r.conversation == conversation).filterMap (shown reader)) := by
    refine List.Perm.filterMap _ ((List.perm_insertionSort _ _).trans (List.Perm.of_eq ?_))
    exact List.filter_congr fun r _ => by simp [isBefore]
  constructor
  · intro h b hb
    obtain ⟨n, es, hpages, hperm⟩ := h
    exact (comes_pages hpages (hperm.trans hall.symm).length_eq hb).2.2
  · intro hcuts
    obtain ⟨n, es, hpages, hperm⟩ := pages_of_cutsWell hcuts .first nofun
    exact ⟨n, es, hpages, hperm.trans hall⟩

end PageReader

/-! ## The requests -/

/-- A stored row can be looked up by its key and its timestamp. -/
def Findable (w : World) : Prop :=
  ∀ r ∈ w.messages, r.conversation.encodable = true ∧ -2 ^ 63 ≤ r.ts ∧ r.ts < 2 ^ 63

section Requests

variable [Runtime] {cfg : Config} {w : World} {s : Sid} {me : Json} {conversation : Str}

theorem record_findable {w' : World} {id sender body nonce : Json} {recipient : Str} {ts : Int}
    (h : MessageStore.record w id conversation sender recipient body nonce ts = .ok w') (hw : Findable w) :
    Findable w' := by
  unfold MessageStore.record at h
  simp only [Bind.bind, Except.bind, Pure.pure, Except.pure] at h
  split at h
  · cases h
  split at h
  · cases h
  next c hc =>
  split at h
  · cases h
  split at h
  · cases h
  split at h
  · cases h
  split at h
  · cases h
  split at h
  · cases h
  next n hts =>
  split at h
  · cases h
    exact hw
  split at h
  · cases h
    exact hw
  cases h
  intro r hr
  rcases List.mem_append.mp hr with hr | hr
  · exact hw r hr
  · obtain rfl := List.mem_singleton.mp hr
    obtain ⟨henc, rfl⟩ := Sql.str_ok.mp hc
    obtain ⟨hrange, rfl⟩ := Sql.int_ok.mp hts
    exact ⟨henc, hrange⟩

theorem exec_findable (o : Op) (w : World) (h : Findable w) : Findable (exec o w).2 := by
  by_cases hx : Field.messages ∈ o.writesTo
  · cases o with
    | messagesRecord id conversation sender recipient body nonce ts =>
      show Findable (commit' w (MessageStore.record w id conversation sender recipient body nonce ts)).2
      cases hr : MessageStore.record w id conversation sender recipient body nonce ts with
      | error e => exact h
      | ok w' => exact record_findable hr h
    | messagesMark id state now =>
      show Findable (commit w (MessageStore.mark w id state now)).2
      cases hr : MessageStore.mark w id state now with
      | error e => exact h
      | ok res =>
        obtain ⟨b, w'⟩ := res
        obtain ⟨-, ⟨-, rfl, -⟩ | ⟨row, -, -, rfl⟩⟩ := MessageStore.mark_cases hr
        · exact h
        · intro r hr
          obtain ⟨r₀, hr₀, rfl⟩ := List.mem_map.mp hr
          have hr₀ := h r₀ hr₀
          -- marks fill in the receipts only
          split
          · unfold MessageStore.markRow
            split <;> exact hr₀
          · exact hr₀
    | _ => simp [Op.writesTo] at hx
  · have hsame : (exec o w).2.messages = w.messages := exec_same o w hx
    intro r hr
    rw [hsame] at hr
    exact h r hr

omit [Runtime] in
/-- The rows a lookup takes. -/
theorem history_rows {before : Option Int} (henc : conversation.encodable = true)
    (hb : ∀ b, before = some b → -2 ^ 63 ≤ b ∧ b < 2 ^ 63) (limit : Int) :
    MessageStore.history w conversation before limit =
      .ok (newest (pageSize limit) (rowsBefore w.messages conversation before)) := by
  rw [MessageStore.history_eq]
  simp only [Bind.bind, Except.bind, Pure.pure, Except.pure, Sql.str, henc, if_true]
  cases before with
  | none =>
    have hall : (w.messages.filter fun r => r.conversation == conversation) =
        w.messages.filter fun r => r.conversation == conversation && isBefore none r :=
      List.filter_congr fun r _ => by simp [isBefore]
    dsimp only
    rw [hall]
    rfl
  | some b =>
    dsimp only
    rw [Sql.int, if_pos (hb b rfl)]
    rfl

/-- A reader whose request reaches the stored rows of a conversation. -/
structure PageReader (cfg : Config) (w : World) (s : Sid) (me : Json) (target conversation : Str) : Prop where
  store : cfg.messages = true
  user : w.username s = some me
  named : target ≠ []
  readable : Readable w me target conversation
  encodable : conversation.encodable = true

/-- The request asks for a page of the conversation, at this limit and before
this timestamp, if any. -/
structure Asks (f : Frame) (target : Str) (limit before : Option Int) : Prop where
  type : f.type = .history
  target : f.get "room" = .str target
  limit : intIf (f.get "limit") = .ok limit
  before : f.get "before" = (before.map Json.int).getD .null

/-- The step sends one page, with these entries, to the connection, and nothing else. -/
def Shows (st : Step) (s : Sid) (es : List Dict) : Prop :=
  ∃ d, st.out = [d] ∧ d.session = s ∧ d.frame.type = .historyResult ∧
    d.frame.get "messages" = .list (es.map .dict)

variable {target : Str} {limit before : Option Int} {f : Frame}

theorem Asks.asked_eq (h : Asks f target limit before) (ht : target ≠ []) : asked f = .str target := by
  rw [MessageRouter.asked, h.target]
  cases target with
  | nil => exact (ht rfl).elim
  | cons c cs => rfl

/-- The bound 0 is falsy. -/
theorem Asks.intIf_before (h : Asks f target limit before) : intIf (f.get "before") = .ok (bound before) := by
  rw [h.before]
  cases before with
  | none => rfl
  | some b =>
    by_cases hb : b = 0
    · subst hb
      rfl
    · have hne : some b ≠ some 0 := fun he => hb (Option.some.inj he)
      rw [bound_of_ne hne]
      have htruthy : (Json.int b).truthy = true := by simpa [Json.truthy] using hb
      show intIf (.int b) = .ok (some b)
      rw [intIf, if_pos htruthy]
      rfl

/-- A reader's request comes down to sending the page. -/
theorem PageReader.history_exec (h : PageReader cfg w s me target conversation) (hf : Asks f target limit before) :
    (handle cfg s f).exec w = (sendPage s me f target conversation).exec w := by
  have ht := hf.type
  rw [handle_dispatch cfg s (by simp [ht]) (by simp [ht]) (by simp [ht]) h.user]
  have hasked := hf.asked_eq h.named
  have htruthy : (asked f).truthy = true := by
    rw [hasked]
    cases htt : target with
    | nil => exact (h.named htt).elim
    | cons c cs => rfl
  have hstr : (asked f).pyStr = target := by rw [hasked]; rfl
  have hdisp : dispatch cfg s me f = history cfg s me f := by
    unfold dispatch
    rw [ht]
  rw [hdisp]
  unfold history
  rw [h.store, htruthy, hstr]
  simp only [Bool.not_true, Bool.false_eq_true, if_false]
  have hconv : (conversationOf s me target).exec w = (.ok (some conversation), w) := by
    have hread := h.readable
    unfold Readable at hread
    unfold conversationOf
    by_cases hroom : target.startsWith roomPrefix = true
    · rw [if_pos hroom] at hread ⊢
      obtain ⟨rfl, hin⟩ := hread
      have hmem : SqliteRooms.members w conversation = .ok (memberNames w conversation) := by
        simp [SqliteRooms.members, memberNames, Sql.str, h.encodable, Bind.bind, Except.bind, Pure.pure,
          Except.pure]
      have hc : ((memberNames w conversation).map Json.str).contains me = true := by simpa using hin
      rw [RouterM.exec_bind, RouterM.exec_call]
      simp only [exec, hmem, hc, Bool.not_true, Bool.false_eq_true, if_false]
      rfl
    · rw [if_neg hroom] at hread ⊢
      rw [hread]
      rfl
  rw [RouterM.exec_bind, hconv]

/-- **One page**: the step shows these entries exactly if they are those of the
page's rows. -/
theorem PageReader.shows_iff (h : PageReader cfg w s me target conversation)
    (hf : Asks f target limit before) (hb : ∀ b, before = some b → -2 ^ 63 ≤ b ∧ b < 2 ^ 63) {es : List Dict} :
    Shows (Step.of cfg w (.frame s f)) s es ↔
      entries (pageRows w.messages conversation (pageSize (limit.getD defaultLimit)) before) (orEmpty me) = .ok es := by
  have hrun : (Step.of cfg w (.frame s f)).after = ((sendPage s me f target conversation).exec w).2 :=
    congrArg Prod.snd (h.history_exec hf)
  have hbound : ∀ b, bound before = some b → -2 ^ 63 ≤ b ∧ b < 2 ^ 63 := by
    intro b he
    unfold bound at he
    split at he
    · cases he
    · exact hb b he
  have hrows := history_rows (w := w) h.encodable hbound (limit.getD defaultLimit)
  have hpage : (sendPage s me f target conversation).exec w =
      match entries (pageRows w.messages conversation (pageSize (limit.getD defaultLimit)) before) (orEmpty me) with
      | .error e => (.error e, w)
      | .ok messages => ((do send s (← frame .historyResult .null (.str target)
          [("room", .str target), ("messages", .list (messages.map .dict))])) : RouterM Unit).exec w := by
    unfold sendPage
    rw [hf.intIf_before, hf.limit]
    simp only [lift, pure_bind']
    rw [RouterM.exec_bind, RouterM.exec_call]
    simp only [exec, hrows]
    show RouterM.exec (lift (entries (pageRows _ _ _ _) _) >>= _) w = _
    cases entries (pageRows w.messages conversation (pageSize (limit.getD defaultLimit)) before) (orEmpty me) <;> rfl
  rw [hpage] at hrun
  -- a row that cannot be read raises before anything is sent
  cases he : entries (pageRows w.messages conversation (pageSize (limit.getD defaultLimit)) before) (orEmpty me) with
  | error e =>
    rw [he] at hrun
    have hout : (Step.of cfg w (.frame s f)).out = [] := by
      rw [Step.out, hrun]
      exact List.drop_length
    constructor
    · intro hs
      obtain ⟨d, hd, -⟩ := hs
      rw [hout] at hd
      cases hd
    · intro hs
      cases hs
  | ok messages =>
    rw [he] at hrun
    have hout : ∃ d, (Step.of cfg w (.frame s f)).out = [d] ∧ d.session = s ∧ d.frame.type = .historyResult ∧
        d.frame.get "messages" = .list (messages.map .dict) := by
      rw [Step.out, hrun]
      exact ⟨_, List.drop_left, rfl, rfl, rfl⟩
    obtain ⟨d, hd, hs, ht, hm⟩ := hout
    constructor
    · intro hshow
      obtain ⟨d', hd', -, -, hm'⟩ := hshow
      obtain rfl := List.singleton_inj.mp (hd.symm.trans hd')
      have hlist := Json.list.inj (hm.symm.trans hm')
      exact congrArg Except.ok (List.map_injective_iff.mpr (fun _ _ => Json.dict.inj) hlist)
    · intro hes
      cases hes
      exact ⟨d, hd, hs, ht, hm⟩

/-- A request leaves what it reads alone. -/
theorem Asks.same (hf : Asks f target limit before) (cfg : Config) (w : World) (s : Sid) :
    (Step.of cfg w (.frame s f)).after.messages = w.messages ∧
      (Step.of cfg w (.frame s f)).after.memberships = w.memberships ∧
      (Step.of cfg w (.frame s f)).after.username = w.username :=
  ⟨handle_same cfg s f w (x := .messages) (by simp) (by simp [hf.type, MessageType.fields]),
    handle_same cfg s f w (x := .memberships) (by simp) (by simp [hf.type, MessageType.fields]),
    handle_same cfg s f w (x := .username) (by simp) (by simp [hf.type, MessageType.fields])⟩

theorem PageReader.after (h : PageReader cfg w s me target conversation) (hf : Asks f target limit before) :
    PageReader cfg (Step.of cfg w (.frame s f)).after s me target conversation := by
  obtain ⟨-, hm, hu⟩ := hf.same cfg w s
  refine ⟨h.store, by rw [hu]; exact h.user, h.named, ?_, h.encodable⟩
  have hread := h.readable
  unfold Readable at hread ⊢
  rwa [show memberNames (Step.of cfg w (.frame s f)).after target = memberNames w target by
    unfold memberNames; rw [hm]]

/-- Requesting a page at this bound, and then before the timestamp of the first
entry of each page, ends with an empty page after so many more requests, and
these are all the entries that were sent. -/
inductive PagesBack (cfg : Config) (s : Sid) (request : Option Int → Frame) :
    World → Option Int → Nat → List Dict → Prop
  | done {w : World} {before : Option Int} (h : Shows (Step.of cfg w (.frame s (request before))) s []) :
      PagesBack cfg s request w before 0 []
  | more {w : World} {before : Option Int} {e : Dict} {es rest : List Dict} {ts : Int} {n : Nat}
      (h : Shows (Step.of cfg w (.frame s (request before))) s (e :: es)) (hts : Json.get e "ts" = .int ts)
      (hrest : PagesBack cfg s request (Step.of cfg w (.frame s (request before))).after (some ts) n rest) :
      PagesBack cfg s request w before (n + 1) (rest ++ e :: es)

variable {request : Option Int → Frame} {messages : List Row} {n : Nat} {es : List Dict}

/-- The timestamp of a shown row is one that can be asked before. -/
theorem range_of_entries (hw : Findable w) {size : Nat} {e : Dict} {ts : Int}
    (h : entries (pageRows w.messages conversation size before) (orEmpty me) = .ok (e :: es))
    (hts : Json.get e "ts" = .int ts) : -2 ^ 63 ≤ ts ∧ ts < 2 ^ 63 := by
  obtain ⟨r, hr, rfl⟩ := oldest_of_page h hts
  have hmem := List.mem_of_mem_drop (List.mem_of_find?_eq_some hr)
  exact (hw r (mem_rowsBefore.mp hmem).1).2

/-- What the requests are answered with is what the pages hold. -/
theorem pagesBack_iff (hreq : ∀ b, Asks (request b) target limit b) (hfind : Findable w)
    (h : PageReader cfg w s me target conversation) (hb : ∀ b, before = some b → -2 ^ 63 ≤ b ∧ b < 2 ^ 63) :
    PagesBack cfg s request w before n es ↔
      Pages w.messages conversation (orEmpty me) (pageSize (limit.getD defaultLimit)) n before es := by
  induction n generalizing w before es with
  | zero =>
    constructor
    · intro hp
      cases hp with
      | done hs => exact .done ((h.shows_iff (hreq before) hb).mp hs)
    · intro hp
      cases hp with
      | done he => exact .done ((h.shows_iff (hreq before) hb).mpr he)
  | succ n ih =>
    have hmsg := ((hreq before).same cfg w s).1
    have hfind' : Findable (Step.of cfg w (.frame s (request before))).after := by
      intro r hr
      rw [hmsg] at hr
      exact hfind r hr
    have hnext : ∀ {e : Dict} {es rest : List Dict} {ts : Int}, Json.get e "ts" = .int ts →
        entries (pageRows w.messages conversation (pageSize (limit.getD defaultLimit)) before) (orEmpty me) =
          .ok (e :: es) →
        (PagesBack cfg s request (Step.of cfg w (.frame s (request before))).after (some ts) n rest ↔
          Pages w.messages conversation (orEmpty me) (pageSize (limit.getD defaultLimit)) n (some ts) rest) := by
      intro e es rest ts hts he
      have hrange := range_of_entries hfind he hts
      have hiff := @ih _ (some ts) rest hfind' (h.after (hreq before)) fun b hb => by
        cases hb
        exact hrange
      rwa [hmsg] at hiff
    constructor
    · intro hp
      cases hp with
      | more hs hts hrest =>
        have he := (h.shows_iff (hreq before) hb).mp hs
        exact .more he hts ((hnext hts he).mp hrest)
    · intro hp
      cases hp with
      | more he hts hrest =>
        exact .more ((h.shows_iff (hreq before) hb).mpr he) hts ((hnext hts he).mpr hrest)

/-- The messages of a conversation that hold something for the reader, as entries. -/
def entitledEntries (w : World) (conversation : Str) (reader : Json) : List Dict :=
  (w.messages.filter fun r => r.conversation == conversation).filterMap (shown reader)

/-- **Paging back**: in every state a run reaches, for every stored conversation,
every reader of it and every limit, the requests come to an end and have sent each
message that is for the reader exactly once, if and only if every bound that comes
up on the way cuts well. -/
theorem Run.paging {tr : List Step} {uuid : Nat → Str} {clock : Nat → Int} {salt : Nat → List UInt8}
    (h : Run cfg (World.start uuid clock salt) tr w) (hstore : cfg.messages = true)
    (hu : w.username s = some me) (ht : target ≠ []) (hread : Readable w me target conversation)
    (hstored : ∃ r ∈ w.messages, r.conversation = conversation)
    (hreq : ∀ b, Asks (request b) target limit b) :
    (∃ n es, PagesBack cfg s request w none n es ∧ es.Perm (entitledEntries w conversation (orEmpty me))) ↔
      ∀ b, Comes w.messages conversation (orEmpty me) (pageSize (limit.getD defaultLimit)) b →
        CutsWell w.messages conversation (orEmpty me) (pageSize (limit.getD defaultLimit)) b := by
  have hfind : Findable w := h.call_inv Findable (fun _ hr => by cases hr) exec_findable
  obtain ⟨r, hr, rfl⟩ := hstored
  have hreader : PageReader cfg w s me target r.conversation := ⟨hstore, hu, ht, hread, (hfind r hr).1⟩
  rw [← pages_iff]
  constructor
  · intro hp
    obtain ⟨n, es, hp, hperm⟩ := hp
    exact ⟨n, es, (pagesBack_iff hreq hfind hreader fun _ hb => by cases hb).mp hp, hperm⟩
  · intro hp
    obtain ⟨n, es, hp, hperm⟩ := hp
    exact ⟨n, es, (pagesBack_iff hreq hfind hreader fun _ hb => by cases hb).mpr hp, hperm⟩

end Requests

/-! ## Timestamps that differ -/

section Distinct

variable [Runtime] {messages : List Row} {conversation : Str} {reader : Json} {size : Nat} {before : Option Int}

/-- Where no two messages of the conversation share a timestamp, none is stamped 0
and all are for the reader, every bound cuts well. -/
theorem cutsWell_of_distinct (hsize : 0 < size)
    (hrows : ∀ r ∈ messages, r.conversation = conversation →
      legible r.body r.nonce ∧ r.ts ≠ 0 ∧ (shown reader r).isSome = true)
    (hdistinct : (messages.filter fun r => r.conversation == conversation).Pairwise fun a b => a.ts ≠ b.ts) :
    CutsWell messages conversation reader size before := by
  have hin : ∀ r ∈ rowsBefore messages conversation (bound before), r ∈ messages ∧ r.conversation = conversation :=
    fun r hr => ⟨(mem_rowsBefore.mp hr).1, (mem_rowsBefore.mp hr).2.1⟩
  have hsplit := rowsBefore_split messages conversation size before
  have hpage : ∀ r ∈ pageRows messages conversation size before, r ∈ rowsBefore messages conversation (bound before) :=
    fun r hr => List.mem_of_mem_drop hr
  refine ⟨fun r hr => ?_, fun hnone r hr => ?_, fun r₀ hr₀ => ?_⟩
  · obtain ⟨hm, hc⟩ := hin r (hpage r hr)
    exact (hrows r hm hc).1
  · -- a page without an oldest row is empty, and then so is what it was cut from
    have hempty : pageRows messages conversation size before = [] := by
      refine List.eq_nil_iff_forall_not_mem.mpr fun x hx => ?_
      obtain ⟨hm, hc⟩ := hin x (hpage x hx)
      have hshown := List.find?_eq_none.mp hnone x hx
      exact hshown (hrows x hm hc).2.2
    have hlen := congrArg List.length hempty
    unfold pageRows newest at hlen
    have hrest := List.length_pos_of_mem hr
    unfold restRows leftOut at hrest
    rw [List.length_drop, List.length_nil] at hlen
    rw [List.length_take] at hrest
    omega
  · have hmem := hpage r₀ (List.mem_of_find?_eq_some hr₀)
    obtain ⟨hm, hc⟩ := hin r₀ hmem
    refine ⟨(hrows r₀ hm hc).2.1, fun r hr hs => ?_⟩
    have hsorted := rowsBefore_sorted messages conversation (bound before)
    have hperm : (rowsBefore messages conversation (bound before)).Perm
        (messages.filter fun r => r.conversation == conversation && isBefore (bound before) r) :=
      List.perm_insertionSort _ _
    have hne : (rowsBefore messages conversation (bound before)).Pairwise fun a b => a.ts ≠ b.ts := by
      refine hperm.symm.pairwise ?_ fun h => Ne.symm h
      have heq : (messages.filter fun r => r.conversation == conversation && isBefore (bound before) r) =
          (messages.filter fun r => r.conversation == conversation).filter (isBefore (bound before)) := by
        rw [List.filter_filter]
        exact List.filter_congr fun r _ => Bool.and_comm ..
      rw [heq]
      exact hdistinct.filter _
    rw [← hsplit] at hsorted hne
    have hle := (List.pairwise_append.mp hsorted).2.2 r hr r₀ (List.mem_of_find?_eq_some hr₀)
    have hne' := (List.pairwise_append.mp hne).2.2 r hr r₀ (List.mem_of_find?_eq_some hr₀)
    omega

end Distinct

namespace Sample

/-- A message with a timestamp of the sender's choice. -/
def stamped (s : Sid) (target id : Str) (ts : Int) : Input :=
  .frame s { type := .msg, target := .str target, body := .str "hi", nonce := .str "n", id := .str id, ts }

/-- A request for one message at a time. -/
def oneByOne (target : Str) : Option Int → Frame
  | none => ask .history [("room", .str target), ("limit", .int 1)]
  | some b => ask .history [("room", .str target), ("limit", .int 1), ("before", .int b)]

/-- `a` sends `b` two messages with these timestamps. -/
def pair (t t' : Int) : List Input :=
  [register "a", register "b", login 0 "a", login 1 "b", stamped 0 "b" "i" t, stamped 0 "b" "j" t']

theorem oneByOne_asks [Runtime] (target : Str) (before : Option Int) :
    Asks (oneByOne target before) target (some 1) before := by
  cases before <;> exact ⟨rfl, rfl, rfl, rfl⟩

end Sample

section Concrete

open Sample

attribute [local instance] sampleRuntime

/-- Of two messages with one timestamp the second page misses the first. -/
theorem tied_lost :
    (∃ tr, Run chatServer fresh tr (fresh.after chatServer (pair 5 5))) ∧
      (fresh.after chatServer (pair 5 5)).username 1 = some (.str "b") ∧
      Readable (fresh.after chatServer (pair 5 5)) (.str "b") "a" "a\x1fb" ∧
      (∀ b, Asks (oneByOne "a" b) "a" (some 1) b) ∧
      ¬ ∃ n es, PagesBack chatServer 1 (oneByOne "a") (fresh.after chatServer (pair 5 5)) none n es ∧
        es.Perm (entitledEntries (fresh.after chatServer (pair 5 5)) "a\x1fb" (.str "b")) := by
  have hrun := Run.of_inputs chatServer fresh (pair 5 5)
  have huser : (fresh.after chatServer (pair 5 5)).username 1 = some (.str "b") := by decide +kernel
  have hread : Readable (fresh.after chatServer (pair 5 5)) (.str "b") "a" "a\x1fb" := by
    unfold Readable
    decide +kernel
  refine ⟨⟨_, hrun⟩, huser, hread, oneByOne_asks "a", fun hp => ?_⟩
  obtain ⟨n, es, hp, hperm⟩ := hp
  have hfind : Findable (fresh.after chatServer (pair 5 5)) :=
    hrun.call_inv Findable (fun _ hr => by cases hr) exec_findable
  have hpages := (pagesBack_iff (oneByOne_asks "a") hfind ⟨rfl, huser, by decide, hread, by decide⟩
    fun _ hb => by cases hb).mp hp
  have hcuts := pages_iff.mp ⟨n, es, hpages, hperm⟩ none .first
  have htied : (oldest (.str "b") (pageRows (fresh.after chatServer (pair 5 5)).messages "a\x1fb" 1 none)).toList.any
      (fun r₀ => (restRows (fresh.after chatServer (pair 5 5)).messages "a\x1fb" 1 none).any
        fun r => (shown (.str "b") r).isSome && !decide (r.ts < r₀.ts)) = true := by decide +kernel
  obtain ⟨r₀, hr₀, htied⟩ := List.any_eq_true.mp htied
  obtain ⟨r, hr, htied⟩ := List.any_eq_true.mp htied
  rw [Bool.and_eq_true] at htied
  have hlt := (hcuts.tie r₀ (Option.mem_toList.mp hr₀)).2 r hr htied.1
  simp [hlt] at htied

/-- Two messages with timestamps that differ are both shown, one a page. -/
theorem untied_shown :
    (entitledEntries (fresh.after chatServer (pair 5 6)) "a\x1fb" (.str "b")).length = 2 ∧
      ∃ n es, PagesBack chatServer 1 (oneByOne "a") (fresh.after chatServer (pair 5 6)) none n es ∧
        es.Perm (entitledEntries (fresh.after chatServer (pair 5 6)) "a\x1fb" (.str "b")) := by
  have hread : Readable (fresh.after chatServer (pair 5 6)) (.str "b") "a" "a\x1fb" := by
    unfold Readable
    decide +kernel
  refine ⟨by decide +kernel, ?_⟩
  refine (Run.paging (Run.of_inputs chatServer fresh (pair 5 6)) rfl (by decide +kernel) (by decide) hread
    (by decide +kernel) (oneByOne_asks "a")).mpr fun b _ => ?_
  refine cutsWell_of_distinct (by decide) (fun r hr hc => ?_) (by decide +kernel)
  have hall : (fresh.after chatServer (pair 5 6)).messages.all
      (fun r => r.nonce ≠ some envelopes ∧ r.ts ≠ 0 ∧ (shown (.str "b") r).isSome = true) = true := by
    decide +kernel
  obtain ⟨hn, hts, hs⟩ := of_decide_eq_true (List.all_eq_true.mp hall r hr)
  exact ⟨fun he => (hn he).elim, hts, hs⟩

end Concrete

end Ciphertext
