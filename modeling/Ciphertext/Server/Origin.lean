import Ciphertext.Server.Registry

/-!
# Where a stored message comes from

Every row of `messages` was stored by some MSG of the run, and everything in it
but the two receipt columns is still what that MSG put there. The ids of stored
messages are distinct.

`Run.origin` says the first: for every row there is a step of the run, a MSG by a session
with a name, that stored a row which is the same with its receipt columns blanked
(`Row.unmarked`). `Run.uniqueIds` says the second, of the ids that are not `NULL`, and
`Run.pendingStored` that whatever is queued for somebody is stored.

All three are inductions over the run with the inversions of `Server/Steps.lean`: no step
changes a row but by marking it, and a row is added only where its id is not there yet.
-/

namespace Ciphertext

open MessageRouter

/-- A row without what receipts add to it. -/
def Row.unmarked (r : Row) : Row := { r with deliveredAt := none, readAt := none }

/-- Marking changes nothing but the receipt. -/
theorem unmarked_markRow (r : Row) (state : Str) (now : Int) :
    (MessageStore.markRow r state now).unmarked = r.unmarked := by
  unfold MessageStore.markRow
  split <;> rfl

/-- Rows correspond one to one under a receipt. -/
theorem mem_markAll {rows : List Row} {id state : Str} {now : Int} {r : Row}
    (h : r ∈ markAll rows id state now) : ∃ r₀ ∈ rows, r.unmarked = r₀.unmarked := by
  obtain ⟨r₀, hr₀, rfl⟩ := List.mem_map.mp h
  refine ⟨r₀, hr₀, ?_⟩
  split
  · exact unmarked_markRow ..
  · rfl

theorem markAll_unmarked (rows : List Row) (id state : Str) (now : Int) :
    (markAll rows id state now).map Row.unmarked = rows.map Row.unmarked := by
  unfold markAll
  rw [List.map_map]
  refine List.map_congr_left fun r _ => ?_
  simp only [Function.comp]
  split
  · exact unmarked_markRow ..
  · rfl

variable [Runtime]

/-- What a reader finds in a row does not depend on the receipts. -/
theorem contentFor_unmarked {r r' : Row} (h : r.unmarked = r'.unmarked) (reader : Json) :
    contentFor r reader = contentFor r' reader := by
  have hn : r.nonce = r'.nonce := by
    show r.unmarked.nonce = r'.unmarked.nonce
    rw [h]
  have hb : r.body = r'.body := by
    show r.unmarked.body = r'.unmarked.body
    rw [h]
  unfold contentFor
  rw [hn, hb]

/-- A row has an entry exactly if there is content for the reader. -/
theorem historyEntry_some {row : Row} {reader : Json} {e : Dict} :
    historyEntry row reader = .ok (some e) ↔
      ∃ b n, contentFor row reader = .ok (some (b, n)) ∧ e = entryOf row b n := by
  unfold historyEntry
  rcases contentFor row reader with err | ⟨- | ⟨b, n⟩⟩ <;> simp [Except.map, eq_comm]

/-- The sender column of a stored message is the name of the session that sent
it: a session whose name is not text cannot store one. -/
theorem Stores.sender_eq {cfg : Config} {w : World} {me : Json} {f : Frame} {row : Row}
    (h : Stores me f row) (hme : me.truthy = true) (hadm : Admitted cfg w me row.recipient) :
    me = .str row.sender := by
  have hor : orEmpty me = me := if_pos hme
  have hstr : ∃ a, me = .str a := by
    by_cases hd : row.recipient.startsWith roomPrefix = true
    · simp only [Admitted, hd, if_true] at hadm
      obtain ⟨a, -, ha⟩ := List.mem_map.mp hadm.2
      exact ⟨a, ha.symm⟩
    · have hconv := h.conversation
      rw [if_neg hd, hor] at hconv
      cases me with
      | str a => exact ⟨a, rfl⟩
      | _ => simp [directConversation] at hconv
  obtain ⟨a, rfl⟩ := hstr
  have htext := h.sender
  rw [hor] at htext
  rw [Option.some.inj (Sql.text_str_ok.mp htext).2]

/-- A step of the run stored this message. -/
def Origin (cfg : Config) (tr : List Step) (row : Row) : Prop :=
  ∃ st ∈ tr, ∃ row₀, Recording cfg st row₀ ∧ row.unmarked = row₀.unmarked

variable {cfg : Config} {w₀ w : World} {tr : List Step}

/-- An origin stays one when the run goes on. -/
theorem Origin.mono {tr' : List Step} {row : Row} (h : Origin cfg tr row) :
    Origin cfg (tr ++ tr') row := by
  obtain ⟨st, hst, h⟩ := h
  exact ⟨st, List.mem_append_left _ hst, h⟩

/-- Every stored message was stored by a step of the run. -/
theorem Run.origin (h : Run cfg w₀ tr w) (h₀ : w₀.messages = []) :
    ∀ row ∈ w.messages, Origin cfg tr row := by
  induction h with
  | nil => simp [h₀]
  | @snoc tr w h i ih =>
    intro row hrow
    rcases step_messages cfg w i with hsame | ⟨row', hrec⟩ | ⟨id, state, now, hmark⟩
    · exact (ih row (hsame ▸ hrow)).mono
    · rw [hrec.after] at hrow
      rcases List.mem_append.mp hrow with hold | hnew
      · exact (ih row hold).mono
      · obtain rfl := List.mem_singleton.mp hnew
        exact ⟨_, List.mem_append_right _ (List.mem_singleton.mpr rfl), row, hrec, rfl⟩
    · rw [hmark] at hrow
      obtain ⟨r₀, hr₀, heq⟩ := mem_markAll hrow
      obtain ⟨st, hst, row₀, hrec, heq'⟩ := ih r₀ hr₀
      exact ⟨st, List.mem_append_left _ hst, row₀, hrec, heq.trans heq'⟩

/-- The ids that are not `NULL` are distinct. -/
def UniqueIds (rows : List Row) : Prop :=
  rows.Pairwise fun a b => a.id = none ∨ a.id ≠ b.id

omit [Runtime] in
/-- The receipts do not matter for it. -/
theorem UniqueIds.unmarked {rows : List Row} :
    UniqueIds (rows.map Row.unmarked) ↔ UniqueIds rows := by
  unfold UniqueIds
  rw [List.pairwise_map]
  rfl

omit [Runtime] in
/-- With distinct ids, an id names at most one message. -/
theorem UniqueIds.eq {rows : List Row} (h : UniqueIds rows) {a b : Row} {id : Str} (ha : a ∈ rows)
    (hb : b ∈ rows) (hai : a.id = some id) (hbi : b.id = some id) : a = b := by
  induction rows with
  | nil => cases ha
  | cons r rows ih =>
    obtain ⟨hr, hrows⟩ := List.pairwise_cons.mp h
    rcases List.mem_cons.mp ha with har | har <;> rcases List.mem_cons.mp hb with hbr | hbr
    · rw [har, hbr]
    · rcases hr b hbr with hn | hne
      · simp [← har, hai] at hn
      · exact (hne (by rw [← har, hai, hbi])).elim
    · rcases hr a har with hn | hne
      · simp [← hbr, hbi] at hn
      · exact (hne (by rw [← hbr, hai, hbi])).elim
    · exact ih hrows har hbr

/-- No two rows have one id. -/
theorem Run.uniqueIds (h : Run cfg w₀ tr w) (h₀ : w₀.messages = []) : UniqueIds w.messages := by
  refine h.inv (fun w => UniqueIds w.messages) (by rw [h₀]; exact .nil) fun w i ih => ?_
  rcases step_messages cfg w i with hsame | ⟨row, hrec⟩ | ⟨id, state, now, hmark⟩
  · rw [hsame]
    exact ih
  · rw [hrec.after]
    refine List.pairwise_append.mpr ⟨ih, List.pairwise_singleton .., fun a ha b hb => ?_⟩
    obtain rfl := List.mem_singleton.mp hb
    rcases hrec.fresh with hn | hne
    · rw [hn]
      cases a.id <;> simp
    · exact .inr (hne a ha)
  · rw [hmark, ← UniqueIds.unmarked, markAll_unmarked, UniqueIds.unmarked]
    exact ih

/-! ## The queue names stored messages -/

omit [Runtime] in
/-- A row is queued for a name if it is stored and pending for it. -/
theorem mem_queued_iff {row : Row} {name : Str} : row ∈ MessageStore.queued w name ↔
    row ∈ w.messages ∧ ∃ id, row.id = some id ∧ (id, name) ∈ w.pending := by
  unfold MessageStore.queued
  rw [List.mem_insertionSort, List.mem_filter]
  simp only [List.any_eq_true, Bool.and_eq_true, beq_iff_eq]
  constructor
  · intro h
    obtain ⟨hm, ⟨id, n⟩, hp, hid, rfl⟩ := h
    exact ⟨hm, id, hid.symm, hp⟩
  · intro h
    obtain ⟨hm, id, hid, hp⟩ := h
    exact ⟨hm, (id, name), hp, hid.symm, rfl⟩

/-- Everybody queued is queued for a message that is stored. -/
def PendingStored (w : World) : Prop := ∀ p ∈ w.pending, ∃ r ∈ w.messages, r.id = some p.1

/-- The messages of a world are still there after a step, up to marks. -/
theorem step_keeps_row (cfg : Config) (w : World) (i : Input) {r : Row} (h : r ∈ w.messages) :
    ∃ r' ∈ (Step.of cfg w i).after.messages, r'.unmarked = r.unmarked := by
  rcases step_messages cfg w i with hsame | ⟨row, hrec⟩ | ⟨id, state, now, hmark⟩
  · exact ⟨r, hsame ▸ h, rfl⟩
  · exact ⟨r, by rw [hrec.after]; exact List.mem_append_left _ h, rfl⟩
  · rw [hmark]
    refine ⟨_, List.mem_map.mpr ⟨r, h, rfl⟩, ?_⟩
    split
    · exact unmarked_markRow ..
    · rfl

omit [Runtime] in
theorem id_of_unmarked {r r' : Row} (h : r.unmarked = r'.unmarked) : r.id = r'.id := by
  show r.unmarked.id = r'.unmarked.id
  rw [h]

/-- The name of a session is stored as text. -/
theorem Wired.text_orEmpty {w : World} (h : Wired w) {s : Sid} {me : Json}
    (hu : w.username s = some me) :
    ∃ a ∈ w.accounts, Sql.text (orEmpty me) = .ok (some a.username) := by
  obtain ⟨a, ha, ht⟩ := h.account s me hu
  refine ⟨a, ha, ?_⟩
  rw [orEmpty, Json.orElse, if_pos (h.named s me hu), ht]

/-- A step keeps every pending message stored. -/
theorem step_pendingStored {w : World} (h : PendingStored w) (hw : Wired w) (cfg : Config)
    (i : Input) : PendingStored (Step.of cfg w i).after := by
  have hkeep : ∀ {id : Str}, (∃ r ∈ w.messages, r.id = some id) →
      ∃ r ∈ (Step.of cfg w i).after.messages, r.id = some id := by
    rintro id ⟨r, hr, hid⟩
    obtain ⟨r', hr', heq⟩ := step_keeps_row cfg w i hr
    exact ⟨r', hr', (id_of_unmarked heq).trans hid⟩
  intro p hp
  rcases step_pending cfg w i hp with hold | hq
  · exact hkeep (h p hold)
  · obtain ⟨s, f, me, target, g, hi, hmsg, hu, hacc, ht, hcopy, w₁, hf, hm⟩ := hq.origin
    rcases hf with ⟨hc, -⟩ | ⟨-, -, hnone | ⟨t, ht', hnf⟩⟩ | ⟨-, row, hst, -, rfl⟩
    · simp [hq.store] at hc
    · obtain ⟨a, -, ha⟩ := hw.text_orEmpty hu
      simp [ha] at hnone
    · obtain rfl : t = some p.1 := Except.ok.inj (ht'.symm.trans ht)
      simp only [World.fresh, reduceCtorEq, false_or, not_forall, not_not] at hnf
      obtain ⟨r, hr, hid⟩ := hnf
      exact hkeep ⟨r, hr, hid⟩
    · refine ⟨row, by rw [hm]; exact List.mem_append_right _ (List.mem_singleton.mpr rfl), ?_⟩
      exact Except.ok.inj (hst.id.symm.trans ht)

/-- What is pending is stored, in every state. -/
theorem Run.pendingStored (h : Run cfg w₀ tr w) (hw : Wired w₀) (hp : w₀.pending = []) :
    PendingStored w := by
  have := h.inv (fun w => Wired w ∧ PendingStored w)
    ⟨hw, fun p hmem => by rw [hp] at hmem; cases hmem⟩
    fun w i ⟨h₁, h₂⟩ => ⟨step_wired h₁ cfg i, step_pendingStored h₂ h₁ cfg i⟩
  exact this.2

end Ciphertext
