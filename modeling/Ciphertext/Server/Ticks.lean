import Ciphertext.Prog.Level
import Ciphertext.Server.Origin

/-!
# Stored receipts form a lattice

Two nullable columns hold a state of three values: `read_at` implies `delivered_at`,
and an `UPDATE` only fills what is `NULL`, so a receipt takes the state to the
maximum of what it was and what the receipt says. `state_of` reads the columns by
whether they are `NULL` and a history entry by whether they are truthy. With
positive times these are the same.

`receipts_lattice` is about any sequence of calls of `record` and `mark`, at positive
times: the state of a stored message is the highest that was marked since it was
recorded, whatever the order and however often, both readings of the columns agree on
it, and it never falls. The proof is one fact about one `UPDATE` (`markRow_tick`) and
the general matter of levels that events raise (`Prog/Level`).
-/

namespace Ciphertext

open Prog MessageRouter

/-- `SENT`, `DELIVERED`, `READ`, in this order. -/
inductive Tick where
  | sent
  | delivered
  | read
deriving DecidableEq

namespace Tick

/-- How far along it is. -/
def rank : Tick → Nat
  | .sent => 0
  | .delivered => 1
  | .read => 2

/-- Different ticks have different places. -/
theorem rank_injective : Function.Injective rank := by
  intro a b h
  cases a <;> cases b <;> first | rfl | cases h

instance : LinearOrder Tick := LinearOrder.lift' rank rank_injective

instance : OrderBot Tick where
  bot := .sent
  bot_le a := Nat.zero_le a.rank

/-- The name of the tick in a row. -/
def text : Tick → Str
  | .sent => sentState
  | .delivered => Ciphertext.delivered
  | .read => Ciphertext.read

/-- READ is the last one. -/
theorem le_read (a : Tick) : a ≤ .read := by
  cases a <;> decide

/-- The state a receipt reports. -/
def ofState (state : Str) : Tick :=
  if state = Ciphertext.read then .read else if state = Ciphertext.delivered then .delivered else .sent

end Tick

/-! ## The store -/

/-- The state two columns hold. -/
def Row.tick (row : Row) : Tick :=
  if row.readAt.isSome then .read else if row.deliveredAt.isSome then .delivered else .sent

section Store

variable [Runtime]

namespace MessageStore

/-- `state_of`. -/
def stateOf (w : World) (messageId : Str) : Except PyErr Str := do
  let id ← Sql.str messageId
  match w.messages.find? fun r => r.id == some id with
  | none => return sentState
  | some row =>
    if row.readAt.isSome then return read
    else if row.deliveredAt.isSome then return delivered
    else return sentState

/-- `mark` at a time of the caller's choice: one beyond sqlite's 64 bits raises when
it is bound, which is after the row has been found. -/
def markAt (w : World) (messageId state : Str) (when : Int) : Except PyErr (Option Str × World) := do
  let (sender, w') ← mark w messageId state when
  if sender.isSome then
    let _ ← Sql.int when
  return (sender, w')

end MessageStore

/-- A call that writes `messages`. -/
inductive StoreCall where
  | record (messageId : Json) (conversation : Str) (sender : Json) (recipient : Str) (body nonce : Json) (ts : Int)
  | mark (messageId state : Str) (when : Int)

/-- A receipt is DELIVERED or READ, at a positive time. -/
def StoreCall.Proper : StoreCall → Prop
  | .record .. => True
  | .mark _ state when => (state = delivered ∨ state = read) ∧ 0 < when

/-- Whether it returns, and the store after it. -/
def StoreCall.exec (w : World) : StoreCall → Bool × World
  | .record messageId conversation sender recipient body nonce ts =>
    match MessageStore.record w messageId conversation sender recipient body nonce ts with
    | .ok w' => (true, w')
    | .error _ => (false, w)
  | .mark messageId state when =>
    match MessageStore.markAt w messageId state when with
    | .ok (_, w') => (true, w')
    | .error _ => (false, w)

/-- The store after a sequence of calls. -/
def World.called (w : World) (calls : List StoreCall) : World := calls.foldl (fun w c => (c.exec w).2) w

/-- A call with whether it returned. -/
structure Logged where
  call : StoreCall
  returned : Bool

/-- The calls with how they went. -/
def World.log (w : World) : List StoreCall → List Logged
  | [] => []
  | c :: calls => ⟨c, (c.exec w).1⟩ :: World.log (c.exec w).2 calls

/-- It records this id, if it has not been recorded. -/
def Logged.records (id : Str) (e : Logged) : Bool :=
  e.returned && match e.call with
    | .record messageId _ sender _ _ _ _ =>
      match Sql.text messageId, Sql.text sender with
      | .ok (some key), .ok (some _) => key = id
      | _, _ => false
    | .mark .. => false

/-- The state it marks this id with. -/
def Logged.marks (id : Str) (e : Logged) : Option Tick :=
  match e.call with
  | .record .. => none
  | .mark messageId state _ => if e.returned && messageId = id then some (Tick.ofState state) else none

/-- The states marked since the id was recorded. -/
def marked (id : Str) (log : List Logged) : List Tick := named (Logged.records id) (Logged.marks id) log

/-! ## One receipt -/

variable {w w' : World} {row : Row} {id state : Str} {now : Int}

omit [Runtime] in
/-- Being read implies having arrived. -/
def Row.Implied (row : Row) : Prop := row.readAt.isSome → row.deliveredAt.isSome

omit [Runtime] in
/-- Times are positive. -/
def Row.Positive (row : Row) : Prop := (∀ t ∈ row.deliveredAt, 0 < t) ∧ ∀ t ∈ row.readAt, 0 < t

omit [Runtime] in
/-- Marking keeps the rule that what was read was delivered. -/
theorem markRow_implied (h : row.Implied) (state : Str) (now : Int) : (MessageStore.markRow row state now).Implied := by
  unfold Row.Implied MessageStore.markRow at *
  split
  · cases hd : row.deliveredAt <;> simp
  · intro hr
    have hd := h hr
    cases hrow : row.deliveredAt with
    | none => simp [hrow] at hd
    | some t => simp

omit [Runtime] in
theorem markRow_positive (h : row.Positive) (state : Str) (hnow : 0 < now) :
    (MessageStore.markRow row state now).Positive := by
  have hfill : ∀ c : Option Int, (∀ t ∈ c, 0 < t) → ∀ t ∈ c.orElse fun _ => some now, 0 < t := by
    intro c hc t ht
    cases c with
    | none =>
      obtain rfl := Option.some.inj ht
      exact hnow
    | some t₀ => exact hc t ht
  unfold MessageStore.markRow
  split
  · exact ⟨hfill _ h.1, hfill _ h.2⟩
  · exact ⟨hfill _ h.1, h.2⟩

omit [Runtime] in
/-- **A receipt takes the state to the maximum.** -/
theorem markRow_tick (row : Row) (hstate : state = delivered ∨ state = read) (now : Int) :
    (MessageStore.markRow row state now).tick = max row.tick (Tick.ofState state) := by
  have hne : ¬ delivered = read := by decide
  rcases hstate with rfl | rfl
  · have htick : Tick.ofState delivered = .delivered := rfl
    rw [htick, MessageStore.markRow, if_neg hne]
    cases hr : row.readAt with
    | none =>
      cases hd : row.deliveredAt with
      | none => simp only [Row.tick, hr, hd]; rfl
      | some d => simp only [Row.tick, hr, hd]; rfl
    | some t => simp only [Row.tick, hr]; rfl
  · have htick : Tick.ofState read = .read := rfl
    have hread : (MessageStore.markRow row read now).tick = .read := by
      rw [MessageStore.markRow, if_pos rfl]
      cases row.readAt <;> simp [Row.tick]
    rw [htick, hread]
    exact (max_eq_right (Tick.le_read _)).symm

omit [Runtime] in
/-- A time that is set stays. -/
theorem markRow_kept (row : Row) (state : Str) (now : Int) :
    (∀ t, row.deliveredAt = some t → (MessageStore.markRow row state now).deliveredAt = some t) ∧
      ∀ t, row.readAt = some t → (MessageStore.markRow row state now).readAt = some t := by
  unfold MessageStore.markRow
  split
  · exact ⟨fun t ht => by simp [ht], fun t ht => by simp [ht]⟩
  · exact ⟨fun t ht => by simp [ht], fun t ht => ht⟩

/-! ## One call -/

/-- What holds of the store after any calls, with their log. -/
structure Receipted (w : World) (log : List Logged) : Prop where
  implied : ∀ row ∈ w.messages, row.Implied
  positive : ∀ row ∈ w.messages, row.Positive
  known : ∀ id, (∃ row ∈ w.messages, row.id = some id) ↔ ∃ e ∈ log, e.records id = true
  tick : ∀ row ∈ w.messages, ∀ id, row.id = some id → row.tick = level (Logged.records id) (Logged.marks id) log

/-- A call that neither records nor marks anything. -/
theorem Receipted.idle {log : List Logged} (h : Receipted w log) {e : Logged} (hrec : ∀ id, e.records id = true →
    ∃ e ∈ log, e.records id = true) (hmark : ∀ id, (∃ row ∈ w.messages, row.id = some id) → e.marks id = none) :
    Receipted w (log ++ [e]) := by
  refine ⟨h.implied, h.positive, fun id => ?_, fun row hrow id hid => ?_⟩
  · rw [h.known]
    constructor
    · intro hold
      obtain ⟨x, hx, hr⟩ := hold
      exact ⟨x, List.mem_append_left _ hx, hr⟩
    · intro hnew
      obtain ⟨x, hx, hr⟩ := hnew
      rcases List.mem_append.mp hx with hx | hx
      · exact ⟨x, hx, hr⟩
      · obtain rfl := List.mem_singleton.mp hx
        exact hrec id hr
  · have hknown : ∃ row ∈ w.messages, row.id = some id := ⟨row, hrow, hid⟩
    rw [level_snoc ((h.known id).mp hknown), hmark id hknown]
    exact (h.tick row hrow id hid).trans (max_eq_left bot_le).symm

/-- A call of `record` that returned stored the id that sqlite makes of its argument. -/
theorem records_iff {messageId sender body nonce : Json} {conversation recipient : Str} {ts : Int} :
    (⟨.record messageId conversation sender recipient body nonce ts, true⟩ : Logged).records id = true ↔
      Sql.text messageId = .ok (some id) ∧ ∃ name, Sql.text sender = .ok (some name) := by
  unfold Logged.records
  simp only [Bool.true_and]
  split
  next key name hkey hname => simp [hkey, hname]
  next hno =>
    refine ⟨nofun, fun h => ?_⟩
    obtain ⟨hkey, name, hname⟩ := h
    exact (hno _ _ hkey hname).elim

/-- `record`. -/
theorem Receipted.record {log : List Logged} (h : Receipted w log) {messageId sender body nonce : Json}
    {conversation recipient : Str} {ts : Int} :
    let c := StoreCall.record messageId conversation sender recipient body nonce ts
    Receipted (c.exec w).2 (log ++ [⟨c, (c.exec w).1⟩]) := by
  intro c
  simp only [c, StoreCall.exec]
  cases hrec : MessageStore.record w messageId conversation sender recipient body nonce ts with
  | error e => exact h.idle (fun id hr => by simp [Logged.records] at hr) fun _ _ => rfl
  | ok w' =>
    dsimp only
    rcases MessageStore.record_cases hrec with ⟨rfl, hnot⟩ | ⟨row, hholds, hfresh, -, rfl⟩
    · -- a repeat, or no sender
      refine h.idle (fun id hr => ?_) fun _ _ => rfl
      obtain ⟨hkey, name, hname⟩ := records_iff.mp hr
      rcases hnot with hnull | ⟨t, ht, hold⟩
      · rw [hname] at hnull
        cases hnull
      · obtain rfl := Except.ok.inj (ht.symm.trans hkey)
        rw [World.fresh] at hold
        simp only [reduceCtorEq, false_or, not_forall, not_not] at hold
        obtain ⟨r, hr, hid⟩ := hold
        exact (h.known id).mp ⟨r, hr, hid⟩
    · have hrecords : ∀ id, (⟨c, true⟩ : Logged).records id = true ↔ row.id = some id := by
        intro id
        rw [records_iff, hholds.id]
        exact ⟨fun hr => Except.ok.inj hr.1, fun hid => ⟨by rw [hid], _, hholds.sender⟩⟩
      refine ⟨fun r hr => ?_, fun r hr => ?_, fun id => ?_, fun r hr id hid => ?_⟩
      · rcases List.mem_append.mp hr with hr | hr
        · exact h.implied r hr
        · obtain rfl := List.mem_singleton.mp hr
          simp [Row.Implied, hholds.readAt]
      · rcases List.mem_append.mp hr with hr | hr
        · exact h.positive r hr
        · obtain rfl := List.mem_singleton.mp hr
          simp [Row.Positive, hholds.readAt, hholds.deliveredAt]
      · have hold := h.known id
        have hnew := hrecords id
        simp only [List.mem_append, List.mem_singleton, or_and_right, exists_or, exists_eq_left, hold]
        exact or_congr Iff.rfl hnew.symm
      · by_cases hnew : row.id = some id
        · -- the id is new
          have hnone : ∀ x ∈ w.messages, x.id ≠ some id := by
            rcases hfresh with hnull | hfresh
            · rw [hnull] at hnew
              cases hnew
            · exact hnew ▸ hfresh
          have hlog : ∀ e ∈ log, e.records id = false := by
            intro e he
            by_contra hr'
            obtain ⟨x, hx, hxid⟩ := (h.known id).mpr ⟨e, he, by simpa using hr'⟩
            exact hnone x hx hxid
          rcases List.mem_append.mp hr with hr | hr
          · exact (hnone r hr hid).elim
          · obtain rfl := List.mem_singleton.mp hr
            rw [level_start hlog ((hrecords id).mpr hnew) rfl]
            simp only [Row.tick, hholds.readAt, hholds.deliveredAt]
            rfl
        · rcases List.mem_append.mp hr with hr | hr
          · rw [level_snoc ((h.known id).mp ⟨r, hr, hid⟩)]
            exact (h.tick r hr id hid).trans (max_eq_left bot_le).symm
          · obtain rfl := List.mem_singleton.mp hr
            exact (hnew hid).elim

omit [Runtime] in
/-- A row of the table after a receipt. -/
theorem mem_markAll_cases {rows : List Row} (h : row ∈ markAll rows id state now) :
    ∃ r ∈ rows, row.id = r.id ∧ (r.id = some id ∧ row = MessageStore.markRow r state now ∨ r.id ≠ some id ∧ row = r) := by
  obtain ⟨r, hr, rfl⟩ := List.mem_map.mp h
  by_cases hid : r.id = some id
  · rw [if_pos hid]
    refine ⟨r, hr, ?_, .inl ⟨hid, rfl⟩⟩
    unfold MessageStore.markRow
    split <;> rfl
  · rw [if_neg hid]
    exact ⟨r, hr, rfl, .inr ⟨hid, rfl⟩⟩

omit [Runtime] in
/-- Marking removes no row. -/
theorem mem_markAll_of_mem {rows : List Row} (h : row ∈ rows) : ∃ r ∈ markAll rows id state now, r.id = row.id := by
  refine ⟨_, List.mem_map.mpr ⟨row, h, rfl⟩, ?_⟩
  split
  · unfold MessageStore.markRow
    split <;> rfl
  · rfl

/-- A receipt for a message that is stored. -/
theorem Receipted.marked_all {log : List Logged} (h : Receipted w log) {when : Int}
    (hproper : (StoreCall.mark id state when).Proper) :
    Receipted { w with messages := markAll w.messages id state when } (log ++ [⟨.mark id state when, true⟩]) := by
  obtain ⟨hstate, hpos⟩ := hproper
  refine ⟨fun row hrow => ?_, fun row hrow => ?_, fun id' => ?_, fun row hrow id' hid' => ?_⟩
  · obtain ⟨r, hr, -, ⟨-, rfl⟩ | ⟨-, rfl⟩⟩ := mem_markAll_cases hrow
    · exact markRow_implied (h.implied r hr) state when
    · exact h.implied _ hr
  · obtain ⟨r, hr, -, ⟨-, rfl⟩ | ⟨-, rfl⟩⟩ := mem_markAll_cases hrow
    · exact markRow_positive (h.positive r hr) state hpos
    · exact h.positive _ hr
  · have hids : (∃ row ∈ markAll w.messages id state when, row.id = some id') ↔ ∃ row ∈ w.messages, row.id = some id' := by
      constructor
      · intro hnew
        obtain ⟨row, hrow, hid⟩ := hnew
        obtain ⟨r, hr, hsame, -⟩ := mem_markAll_cases hrow
        exact ⟨r, hr, hsame ▸ hid⟩
      · intro hold
        obtain ⟨row, hrow, hid⟩ := hold
        obtain ⟨r, hr, hsame⟩ := @mem_markAll_of_mem _ id state when _ hrow
        exact ⟨r, hr, hsame.trans hid⟩
    refine hids.trans ((h.known id').trans ?_)
    simp [Logged.records]
  · obtain ⟨r, hr, hsame, hcases⟩ := mem_markAll_cases hrow
    have hr' : r.id = some id' := hsame ▸ hid'
    have hmarks : (⟨.mark id state when, true⟩ : Logged).marks id' = if id = id' then some (Tick.ofState state) else none := by
      simp [Logged.marks]
    rw [level_snoc ((h.known id').mp ⟨r, hr, hr'⟩), ← h.tick r hr id' hr', hmarks]
    rcases hcases with ⟨hid, rfl⟩ | ⟨hid, rfl⟩
    · obtain rfl : id = id' := Option.some.inj (hid.symm.trans hr')
      rw [if_pos rfl]
      exact markRow_tick r hstate when
    · rw [if_neg fun heq : id = id' => hid (heq ▸ hr')]
      exact (max_eq_left bot_le).symm

/-- `mark`. -/
theorem Receipted.mark {log : List Logged} (h : Receipted w log) {when : Int}
    (hproper : (StoreCall.mark id state when).Proper) :
    let c := StoreCall.mark id state when
    Receipted (c.exec w).2 (log ++ [⟨c, (c.exec w).1⟩]) := by
  intro c
  have hfails : Receipted w (log ++ [⟨c, false⟩]) :=
    h.idle (fun id hr => by simp [Logged.records] at hr) fun id _ => by simp [Logged.marks, c]
  simp only [c, StoreCall.exec, MessageStore.markAt]
  cases hmark : MessageStore.mark w id state when with
  | error e => exact hfails
  | ok res =>
    obtain ⟨sender, w'⟩ := res
    obtain ⟨-, ⟨rfl, rfl, hnone⟩ | ⟨row, hfind, rfl, rfl⟩⟩ := MessageStore.mark_cases hmark
    · -- nobody sent it
      refine h.idle (fun id hr => by simp [Logged.records] at hr) fun id' hknown => ?_
      obtain ⟨r, hr, hid⟩ := hknown
      have hne : id ≠ id' := fun heq => hnone r hr (heq ▸ hid)
      simp [Logged.marks, hne]
    · simp only [Bind.bind, Except.bind, Pure.pure, Except.pure, Option.isSome_some, if_true]
      cases hwhen : Sql.int when with
      | error e => exact hfails
      | ok n =>
        exact h.marked_all hproper

/-! ## Any calls -/

/-- **One call of the store keeps it.** -/
theorem Receipted.call {log : List Logged} (h : Receipted w log) {c : StoreCall} (hc : c.Proper) :
    Receipted (c.exec w).2 (log ++ [⟨c, (c.exec w).1⟩]) := by
  cases c with
  | record messageId conversation sender recipient body nonce ts => exact h.record
  | mark messageId state when => exact h.mark hc

/-- The log of some calls and then some others. -/
theorem World.log_append (w : World) (calls calls' : List StoreCall) :
    w.log (calls ++ calls') = w.log calls ++ (w.called calls).log calls' := by
  induction calls generalizing w with
  | nil => rfl
  | cons c calls ih => exact congrArg (List.cons _) (ih _)

theorem World.called_append (w : World) (calls calls' : List StoreCall) :
    w.called (calls ++ calls') = (w.called calls).called calls' := List.foldl_append

/-- So do any number of them. -/
theorem Receipted.calls {log : List Logged} (h : Receipted w log) {calls : List StoreCall}
    (hcalls : ∀ c ∈ calls, c.Proper) : Receipted (w.called calls) (log ++ w.log calls) := by
  induction calls generalizing w log with
  | nil => exact (List.append_nil log).symm ▸ h
  | cons c calls ih =>
    have hfirst := h.call (hcalls c (List.mem_cons_self ..))
    have hrest := ih hfirst fun x hx => hcalls x (List.mem_cons_of_mem _ hx)
    rwa [List.append_assoc] at hrest

/-! ## Times stay -/

/-- The rows of the one table are those of the other, with no time taken back. -/
def Grown (rows rows' : List Row) : Prop :=
  ∀ (k : Nat) (row : Row), rows[k]? = some row → ∃ row' : Row, rows'[k]? = some row' ∧ row'.unmarked = row.unmarked ∧
    (∀ t, row.deliveredAt = some t → row'.deliveredAt = some t) ∧ ∀ t, row.readAt = some t → row'.readAt = some t

omit [Runtime] in
theorem Grown.refl (rows : List Row) : Grown rows rows :=
  fun _ row h => ⟨row, h, rfl, fun _ ht => ht, fun _ ht => ht⟩

omit [Runtime] in
theorem Grown.trans {rows rows' rows'' : List Row} (h : Grown rows rows') (h' : Grown rows' rows'') : Grown rows rows'' := by
  intro k row hk
  obtain ⟨row', hk', hu, hd, hr⟩ := h k row hk
  obtain ⟨row'', hk'', hu', hd', hr'⟩ := h' k row' hk'
  exact ⟨row'', hk'', hu'.trans hu, fun t ht => hd' t (hd t ht), fun t ht => hr' t (hr t ht)⟩

omit [Runtime] in
/-- New rows go to the end. -/
theorem grown_append (rows new : List Row) : Grown rows (rows ++ new) := by
  intro k row hk
  refine ⟨row, ?_, rfl, fun _ ht => ht, fun _ ht => ht⟩
  have hlt : k < rows.length := (List.getElem?_eq_some_iff.mp hk).1
  rw [List.getElem?_append_left hlt]
  exact hk

omit [Runtime] in
/-- Marking leaves every row in its place. -/
theorem grown_markAll (rows : List Row) (id state : Str) (now : Int) : Grown rows (markAll rows id state now) := by
  intro k row hk
  refine ⟨_, by rw [markAll, List.getElem?_map, hk]; rfl, ?_⟩
  dsimp only
  split
  · exact ⟨unmarked_markRow row state now, (markRow_kept row state now).1, (markRow_kept row state now).2⟩
  · exact ⟨rfl, fun _ ht => ht, fun _ ht => ht⟩

/-- Recording adds a row at most. -/
theorem MessageStore.record_grown {w w' : World} {id sender body nonce : Json} {conversation recipient : Str}
    {ts : Int} (h : MessageStore.record w id conversation sender recipient body nonce ts = .ok w') :
    Grown w.messages w'.messages := by
  rcases MessageStore.record_cases h with ⟨rfl, -⟩ | ⟨row, -, -, -, rfl⟩
  · exact .refl _
  · exact grown_append w.messages [row]

/-- **No call changes a message**, moves it or takes a receipt back. -/
theorem exec_grown (o : Op) (w : World) : Grown w.messages (exec o w).2.messages := by
  by_cases hwrites : Field.messages ∈ o.writesTo
  · cases o with
    | messagesRecord id conversation sender recipient body nonce ts =>
      show Grown w.messages (commit' w (MessageStore.record w id conversation sender recipient body nonce ts)).2.messages
      cases hrec : MessageStore.record w id conversation sender recipient body nonce ts with
      | error e => exact .refl _
      | ok w' => exact MessageStore.record_grown hrec
    | messagesMark id state now =>
      show Grown w.messages (commit w (MessageStore.mark w id state now)).2.messages
      cases hmark : MessageStore.mark w id state now with
      | error e => exact .refl _
      | ok res =>
        obtain ⟨sender, w'⟩ := res
        obtain ⟨-, ⟨-, rfl, -⟩ | ⟨row, -, -, rfl⟩⟩ := MessageStore.mark_cases hmark
        · exact .refl _
        · exact grown_markAll w.messages id state now
    | _ => simp [Op.writesTo] at hwrites
  · have hsame : (exec o w).2.messages = w.messages := exec_same o w hwrites
    rw [hsame]
    exact .refl _

/-- No call takes a row away or a receipt back. -/
theorem StoreCall.grown (w : World) (c : StoreCall) : Grown w.messages (c.exec w).2.messages := by
  cases c with
  | record messageId conversation sender recipient body nonce ts =>
    simp only [StoreCall.exec]
    cases hrec : MessageStore.record w messageId conversation sender recipient body nonce ts with
    | error e => exact .refl _
    | ok w' => exact MessageStore.record_grown hrec
  | mark messageId state when =>
    simp only [StoreCall.exec, MessageStore.markAt]
    cases hmark : MessageStore.mark w messageId state when with
    | error e => exact .refl _
    | ok res =>
      obtain ⟨sender, w'⟩ := res
      obtain ⟨-, ⟨rfl, rfl, -⟩ | ⟨row, -, rfl, rfl⟩⟩ := MessageStore.mark_cases hmark
      · exact .refl _
      · simp only [Bind.bind, Except.bind, Pure.pure, Except.pure, Option.isSome_some, if_true]
        cases Sql.int when with
        | error e => exact .refl _
        | ok n => exact grown_markAll w.messages messageId state when

/-- Nor do any number of them. -/
theorem World.called_grown (w : World) (calls : List StoreCall) : Grown w.messages (w.called calls).messages := by
  induction calls generalizing w with
  | nil => exact .refl _
  | cons c calls ih => exact (c.grown w).trans (ih _)

/-! ## The two readers -/

/-- `state_of` answers the level. -/
theorem Receipted.stateOf {log : List Logged} (h : Receipted w log) (id : Str) : MessageStore.stateOf w id =
    (Sql.str id).map fun _ => (level (Logged.records id) (Logged.marks id) log).text := by
  unfold MessageStore.stateOf
  cases hid : Sql.str id with
  | error e => rfl
  | ok id' =>
    obtain ⟨-, rfl⟩ := Sql.str_ok.mp hid
    simp only [Bind.bind, Except.bind, Pure.pure, Except.pure, Except.map]
    cases hfind : w.messages.find? fun r => r.id == some id' with
    | none =>
      have hnone : ∀ e ∈ log, e.records id' = false := by
        intro e he
        by_contra hr
        obtain ⟨row, hrow, hid⟩ := (h.known id').mpr ⟨e, he, by simpa using hr⟩
        have hnot := List.find?_eq_none.mp hfind row hrow
        simp [hid] at hnot
      rw [level_unstarted hnone]
      rfl
    | some row =>
      have hrow : row.id = some id' := by simpa using List.find?_some hfind
      rw [← h.tick row (List.mem_of_find?_eq_some hfind) id' hrow]
      dsimp only
      unfold Row.tick
      split
      · rfl
      · split <;> rfl

omit [Runtime] in
/-- A history entry shows the state of its row. -/
theorem entryOf_state (h : row.Positive) (body nonce : Json) :
    Json.get (entryOf row body nonce) "state" = .str row.tick.text := by
  have hset : ∀ c : Option Int, (∀ t ∈ c, 0 < t) → c.any (· ≠ 0) = c.isSome := by
    intro c hc
    cases c with
    | none => rfl
    | some t =>
      have hpos := hc t rfl
      have hne : t ≠ 0 := by omega
      simp [hne]
  have hstate : Json.get (entryOf row body nonce) "state" = .str (if row.readAt.any (· ≠ 0) then read
      else if row.deliveredAt.any (· ≠ 0) then delivered else sentState) := rfl
  rw [hstate, hset _ h.1, hset _ h.2]
  unfold Row.tick
  split
  · rfl
  · split <;> rfl

/-! ## Sequences of calls -/

/-- What a sequence of calls leaves of its receipts. -/
structure ReceiptLattice (w₀ : World) (calls : List StoreCall) : Prop where
  /-- a row with `read_at` set has `delivered_at` set -/
  implied : ∀ row ∈ (w₀.called calls).messages, row.readAt.isSome → row.deliveredAt.isSome
  /-- a timestamp that is set never changes -/
  kept : ∀ earlier later, calls = earlier ++ later →
    Grown (w₀.called earlier).messages (w₀.called calls).messages
  /-- `state_of` never moves backwards -/
  forward : ∀ earlier later, calls = earlier ++ later → ∀ (id : Str) (a b : Tick),
    MessageStore.stateOf (w₀.called earlier) id = .ok a.text →
      MessageStore.stateOf (w₀.called calls) id = .ok b.text → a ≤ b
  /-- `state_of` is the maximum of the states marked since the id was recorded -/
  maximum : ∀ id, MessageStore.stateOf (w₀.called calls) id =
    (Sql.str id).map fun _ => ((marked id (w₀.log calls)).foldl max .sent).text
  /-- a history entry shows the same state -/
  shown : ∀ conversation before limit rows,
    MessageStore.history (w₀.called calls) conversation before limit = .ok rows →
      ∀ row ∈ rows, ∀ id, row.id = some id → ∀ reader e, historyEntry row reader = .ok (some e) →
        ∃ tick : Tick, Json.get e "state" = .str tick.text ∧
          MessageStore.stateOf (w₀.called calls) id = (Sql.str id).map fun _ => tick.text

omit [Runtime] in
theorem Tick.text_injective : Function.Injective Tick.text := by
  intro a b h
  cases a <;> cases b <;> first | rfl | exact absurd h (by decide)

/-- **Stored receipts form a lattice**, after any calls of `record` and `mark` with a
state DELIVERED or READ and positive times. -/
theorem receipts_lattice {w₀ : World} (h₀ : w₀.messages = []) {calls : List StoreCall}
    (hcalls : ∀ c ∈ calls, c.Proper) : ReceiptLattice w₀ calls := by
  have hstart : Receipted w₀ [] := by
    constructor <;> simp [h₀]
  have hreceipted : ∀ earlier later, calls = earlier ++ later → Receipted (w₀.called earlier) (w₀.log earlier) :=
    fun earlier later hsplit => hstart.calls fun c hc => hcalls c (hsplit ▸ List.mem_append_left _ hc)
  -- The columns of a row say which receipts were marked on it; every part follows from that.
  have hall := hreceipted calls [] (List.append_nil _).symm
  refine ⟨hall.implied, ?_, ?_, fun id => hall.stateOf id, ?_⟩
  · intro earlier later hsplit
    rw [hsplit, World.called_append]
    exact World.called_grown _ later
  · intro earlier later hsplit id a b ha hb
    rw [(hreceipted earlier later hsplit).stateOf] at ha
    rw [hall.stateOf] at hb
    cases hid : Sql.str id with
    | error e =>
      rw [hid] at ha
      cases ha
    | ok id' =>
      rw [hid] at ha hb
      obtain rfl := Tick.text_injective (Except.ok.inj ha)
      obtain rfl := Tick.text_injective (Except.ok.inj hb)
      rw [hsplit, World.log_append]
      exact level_mono _ _
  · intro conversation before limit rows hrows row hrow id hid reader e he
    obtain ⟨hmem, -⟩ := MessageStore.mem_history hrows hrow
    obtain ⟨body, nonce, -, rfl⟩ := historyEntry_some.mp he
    refine ⟨row.tick, entryOf_state (hall.positive row hmem) body nonce, ?_⟩
    rw [hall.stateOf, hall.tick row hmem id hid]

end Store

namespace Sample

/-- A message is stored, and stored again between a READ and a late DELIVERED. -/
def crossed : List StoreCall :=
  [.record (.str "m") "c" (.str "a") "b" (.str "hi") .null 1, .mark "m" read 2,
    .record (.str "m") "c" (.str "a") "b" (.str "hi") .null 3, .mark "m" delivered 4]

end Sample

section Concrete

open Sample

attribute [local instance] sampleRuntime

theorem crossed_lattice : ReceiptLattice fresh crossed :=
  receipts_lattice rfl (by simp [crossed, StoreCall.Proper])

example : MessageStore.stateOf (fresh.called crossed) "m" = .ok read := by decide +kernel

end Concrete

end Ciphertext
