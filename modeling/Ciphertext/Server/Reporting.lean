import Ciphertext.Server.Origin

/-!
# Who may report on a message

The rule is that only the recipient of a message reports on it. The handler
never looks at the recipient, so what decides is whether it had anything to do:
a receipt that marks a column or reaches the sender does so for anybody who
knows the id.

`Run.authorised_iff` makes that exact, in every reachable state: a receipt is the
recipient's own, or it is harmless (`Harmless`: refused, about no stored message, or
with nothing to mark and nobody to tell). `_receipt` never compares the reporter with
the recipient, which its own comment asks for. `waiting` is the state in which a
stranger reports another user's message as read.
-/

namespace Ciphertext

open MessageRouter

section Runs

variable [Runtime]

/-- The step changed what the `k`-th stored message, `m`, says about receipts. -/
def Touched (st : Step) (k : Nat) (m : Row) : Prop :=
  ∃ m', st.after.messages[k]? = some m' ∧
    (m'.deliveredAt ≠ m.deliveredAt ∨ m'.readAt ≠ m.readAt)

/-- The step relayed a RECEIPT about `m` to its sender. -/
def Told (st : Step) (m : Row) : Prop :=
  ∃ d ∈ st.out, ∃ id, m.id = some id ∧ d.frame.type = .receipt ∧
    d.frame.target = .str m.sender ∧ d.frame.get "ref" = .str id

/-- Only the recipient of a message reports on it. -/
def Authorised (st : Step) (me : Json) : Prop :=
  ∀ k m, st.before.messages[k]? = some m → Touched st k m ∨ Told st m → me = .str m.recipient

/-- A receipt of this state has nothing left to mark on `m`. -/
def Settled (m : Row) (state : Str) : Prop :=
  m.deliveredAt.isSome = true ∧ (state = read → m.readAt.isSome = true)

/-- The receipt is refused or names no stored message, or it names one that is
for its reporter, or there is nothing to mark and nobody to tell. -/
def Harmless (cfg : Config) (w : World) (me : Json) (f : Frame) : Prop :=
  ¬ Reports cfg f ∨ (f.get "ref").pyStr.encodable = false ∨
    ∀ m ∈ w.messages, m.id = some (f.get "ref").pyStr →
      me = .str m.recipient ∨ (Settled m (f.get "state").pyStr ∧ hears w me m.sender = none)

omit [Runtime] in
/-- A mark changes a row exactly when there was something left to mark. -/
theorem markRow_same (m : Row) (state : Str) (now : Int) :
    ((MessageStore.markRow m state now).deliveredAt = m.deliveredAt ∧
      (MessageStore.markRow m state now).readAt = m.readAt) ↔ Settled m state := by
  unfold MessageStore.markRow Settled
  by_cases hs : state = read
  · rw [if_pos hs]
    cases hd : m.deliveredAt <;> cases hr : m.readAt <;> simp [hs]
  · rw [if_neg hs]
    cases hd : m.deliveredAt <;> simp [hs]

omit [Runtime] in
/-- The `k`-th row after a receipt. -/
theorem markAll_getElem? {rows : List Row} {id state : Str} {now : Int} {k : Nat} {m : Row}
    (h : rows[k]? = some m) : (markAll rows id state now)[k]? =
      some (if m.id = some id then MessageStore.markRow m state now else m) := by
  unfold markAll
  rw [List.getElem?_map, h]
  rfl

/-- What came out of a step, from what its outboxes look like. -/
theorem Step.out_eq (cfg : Config) (w : World) (i : Input) {ds : List Delivery}
    (h : (Step.of cfg w i).after.sent = w.sent ++ ds) : (Step.of cfg w i).out = ds := by
  rw [Step.sent_of] at h
  exact List.append_cancel_left h

variable {cfg : Config} {w : World} {tr : List Step} {s : Sid} {f : Frame} {me : Json}

/-- The receipt found its message: the row is marked and its sender told. -/
structure Acted (cfg : Config) (w : World) (s : Sid) (f : Frame) (me : Json) (row : Row) :
    Prop where
  stored : row ∈ w.messages
  id : row.id = some (f.get "ref").pyStr
  marked : (Step.of cfg w (.frame s f)).after.messages =
    markAll w.messages (f.get "ref").pyStr (f.get "state").pyStr (w.clock w.reads)
  told :
    match hears w me row.sender with
    | none => (Step.of cfg w (.frame s f)).out = []
    | some t => ∃ g, Tells me f row.sender g ∧
        (Step.of cfg w (.frame s f)).out = [⟨t, w.username t, g⟩]

/-- A RECEIPT, as a step: without effect, or on the one message it names. -/
theorem receipt_step (hf : f.type = .receipt) (hu : w.username s = some me) :
    (Harmless cfg w me f ∧ (Step.of cfg w (.frame s f)).after.messages = w.messages ∧
        ∀ d ∈ (Step.of cfg w (.frame s f)).out, d.frame.type ≠ .receipt) ∨
      (Reports cfg f ∧ (f.get "ref").pyStr.encodable = true ∧ ∃ row, Acted cfg w s f me row) := by
  have hafter : (Step.of cfg w (.frame s f)).after = ((receipt cfg s me f).exec w).2 :=
    congrArg Prod.snd (handle_receipt cfg s hf hu)
  have hout : ∀ {ds}, ((receipt cfg s me f).exec w).2.sent = w.sent ++ ds →
      (Step.of cfg w (.frame s f)).out = ds := fun h => Step.out_eq cfg w _ (hafter ▸ h)
  rcases receipt_effect cfg s me f w with
    ⟨hno, hm, ds, hs, hds⟩ | ⟨-, hwhy, hm, hs⟩ | ⟨hrep, henc, row, hrow, hm, hsent⟩
  · refine .inl ⟨.inl hno, hafter ▸ hm, ?_⟩
    rw [hout hs]
    intro d hd
    simp [hds d hd]
  · refine .inl ⟨.inr ?_, hafter ▸ hm, ?_⟩
    · rcases hwhy with henc | hnone
      · exact .inl henc
      · refine .inr fun m hmem hid => ?_
        have := List.find?_eq_none.mp hnone m hmem
        simp [hid] at this
    · have hnil : (Step.of cfg w (.frame s f)).out = [] := hout (by rw [hs, List.append_nil])
      simp [hnil]
  · have hid := List.find?_some hrow
    refine .inr ⟨hrep, henc, row, List.mem_of_find?_eq_some hrow, by simpa using hid, hafter ▸ hm, ?_⟩
    cases hh : hears w me row.sender with
    | none =>
      rw [hh] at hsent
      exact hout (by rw [hsent, List.append_nil])
    | some t =>
      rw [hh] at hsent
      obtain ⟨g, hg, hs⟩ := hsent
      exact ⟨g, hg, hout hs⟩

/-- A receipt by somebody the message is not for has nothing to mark and nobody
to tell, if the rule holds. -/
theorem Acted.harmless {row : Row} (h : Acted cfg w s f me row) (huniq : UniqueIds w.messages)
    (hauth : Authorised (Step.of cfg w (.frame s f)) me) : Harmless cfg w me f := by
  refine .inr (.inr fun m hmem hid => ?_)
  obtain rfl : m = row := huniq.eq hmem h.stored hid h.id
  obtain ⟨k, hk⟩ := List.getElem?_of_mem hmem
  by_cases hme : me = .str m.recipient
  · exact .inl hme
  refine .inr ⟨?_, ?_⟩
  · by_contra hset
    have htouched : Touched (Step.of cfg w (.frame s f)) k m := by
      refine ⟨MessageStore.markRow m (f.get "state").pyStr (w.clock w.reads), ?_, ?_⟩
      · rw [h.marked, markAll_getElem? hk, if_pos hid]
      · by_contra hsame
        simp only [not_or, not_not] at hsame
        exact hset ((markRow_same m _ _).mp hsame)
    exact hme (hauth k m hk (.inl htouched))
  · have htold := h.told
    cases hh : hears w me m.sender with
    | none => rfl
    | some t =>
      rw [hh] at htold
      obtain ⟨g, hg, hout⟩ := htold
      have : Told (Step.of cfg w (.frame s f)) m :=
        ⟨_, by rw [hout]; exact List.mem_singleton.mpr rfl, _, hid, hg.type, hg.target, hg.ref⟩
      exact (hme (hauth k m hk (.inr this))).elim

/-- A receipt with nothing to do, or on one's own message, keeps the rule. -/
theorem Acted.authorised {row : Row} (h : Acted cfg w s f me row) (huniq : UniqueIds w.messages)
    (hharm : ∀ m ∈ w.messages, m.id = some (f.get "ref").pyStr →
      me = .str m.recipient ∨ (Settled m (f.get "state").pyStr ∧ hears w me m.sender = none)) :
    Authorised (Step.of cfg w (.frame s f)) me := by
  intro k m hk htt
  have hk : w.messages[k]? = some m := hk
  have hmem : m ∈ w.messages := List.mem_of_getElem? hk
  rcases htt with ⟨m', hk', hne⟩ | ⟨d, hd, id, hid, htype, htarget, href⟩
  · rw [h.marked, markAll_getElem? hk] at hk'
    have hm' := Option.some.inj hk'
    by_cases hid : m.id = some (f.get "ref").pyStr
    · rcases hharm m hmem hid with hme | ⟨hset, -⟩
      · exact hme
      · rw [if_pos hid] at hm'
        have hsame := (markRow_same m (f.get "state").pyStr (w.clock w.reads)).mpr hset
        rw [hm'] at hsame
        rcases hne with hne | hne
        · exact (hne hsame.1).elim
        · exact (hne hsame.2).elim
    · rw [if_neg hid] at hm'
      subst hm'
      simp at hne
  · have htold := h.told
    cases hh : hears w me row.sender with
    | none =>
      rw [hh] at htold
      rw [htold] at hd
      cases hd
    | some t =>
      rw [hh] at htold
      obtain ⟨g, hg, hout⟩ := htold
      rw [hout] at hd
      obtain rfl := List.mem_singleton.mp hd
      have hidref : m.id = some (f.get "ref").pyStr := by
        rw [hid, Json.str.inj (href.symm.trans hg.ref)]
      rcases hharm m hmem hidref with hme | ⟨-, hnone⟩
      · exact hme
      · obtain rfl : m = row := huniq.eq hmem h.stored hidref h.id
        rw [hh] at hnone
        cases hnone

/-- **Only the recipient reports on a message, exactly when the receipt is
harmless.** -/
theorem Run.authorised_iff {uuid : Nat → Str} {clock : Nat → Int} {salt : Nat → List UInt8}
    (h : Run cfg (World.start uuid clock salt) tr w) (hf : f.type = .receipt)
    (hu : w.username s = some me) :
    Authorised (Step.of cfg w (.frame s f)) me ↔ Harmless cfg w me f := by
  have huniq : UniqueIds w.messages := h.uniqueIds rfl
  rcases receipt_step hf hu with ⟨hharm, hm, hout⟩ | ⟨hrep, henc, row, hact⟩
  · refine ⟨fun _ => hharm, fun _ k m hk htt => ?_⟩
    have hk : w.messages[k]? = some m := hk
    -- Nothing marked and nobody told: the rule holds for want of an effect.
    rcases htt with ⟨m', hk', hne⟩ | ⟨d, hd, id, -, htype, -⟩
    · rw [hm, hk] at hk'
      obtain rfl := Option.some.inj hk'
      simp at hne
    · exact (hout d hd htype).elim
  · refine ⟨hact.harmless huniq, fun hharm => ?_⟩
    rcases hharm with hno | hbad | hharm
    · exact (hno hrep).elim
    · simp [henc] at hbad
    · exact hact.authorised huniq hharm

end Runs

/-! ## Concrete receipts -/

namespace Sample

/-- `a` has written to the absent `b`; `a` and `m` are logged in. -/
def waiting : List Input :=
  [register "a", register "b", register "m", login 0 "a", login 1 "m", msg 0 "b" "i"]

/-- How that message is stored. -/
def waitingRow : Row :=
  { id := some "i", conversation := "a\x1fb", sender := "a", recipient := "b",
    body := some "hi", nonce := some "n", ts := 5 }

/-- A report that a message was read. -/
def readReceipt (id : Str) : Frame := ask .receipt [("ref", .str id), ("state", .str read)]

end Sample

section Concrete

open Sample

attribute [local instance] sampleRuntime

/-- `m`, who has nothing to do with the message, reports it as read. -/
theorem stranger_reports :
    (∃ tr, Run chatServer fresh tr (fresh.after chatServer waiting)) ∧
      (fresh.after chatServer waiting).username 1 = some (.str "m") ∧
      ¬ Authorised (Step.of chatServer (fresh.after chatServer waiting)
        (.frame 1 (readReceipt "i"))) (.str "m") := by
  refine ⟨⟨_, Run.of_inputs chatServer fresh waiting⟩, by decide +kernel, fun h => ?_⟩
  have htouched : Touched (Step.of chatServer (fresh.after chatServer waiting)
      (.frame 1 (readReceipt "i"))) 0 waitingRow :=
    ⟨MessageStore.markRow waitingRow read 9, by decide +kernel, by decide +kernel⟩
  exact absurd (h 0 waitingRow (by decide +kernel) (.inl htouched)) (by decide +kernel)

/-- `b`, whom the message is for, reports it as read. -/
theorem recipient_reports :
    Authorised (Step.of chatServer (fresh.after chatServer (waiting ++ [login 2 "b"]))
      (.frame 2 (readReceipt "i"))) (.str "b") := by
  have hmine : ∀ m ∈ (fresh.after chatServer (waiting ++ [login 2 "b"])).messages,
      m.recipient = Str.ofString "b" := by decide +kernel
  refine (Run.authorised_iff (Run.of_inputs chatServer fresh (waiting ++ [login 2 "b"])) rfl
    (by decide +kernel)).mpr (.inr (.inr fun m hm _ => .inl ?_))
  rw [hmine m hm]

end Concrete

end Ciphertext
