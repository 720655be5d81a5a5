import Ciphertext.Server.Origin

/-!
# Stored delivery and the ids clients choose

`record` ignores an id it already has; `queue_for` and `flush` only know the id.
So what is handed over at a login is the message *first* stored under the id
somebody was queued for. As long as nobody is queued under the id of a message
that was for others, that is also a message for them; a client who reuses an id
breaks this.

`Run.toAddressee` says so of whole runs: if before each step nobody is queued under the
id of a message that was not for them (`OwnId`), every MSG that a login hands over is
one that a MSG of the run stored, naming the user who logs in. The invariant is
`QueueSound`, on the queue and the rows together. In `reused` a second message under the
id of the first goes to the absent `x`, who is handed what was written to `b`.
-/

namespace Ciphertext

open MessageRouter

section Runs

variable [Runtime]

/-- The message stored in this step named `u`: directly, or through a room they
were a member of at the time. -/
def Addresses (st : Step) (row : Row) (u : Str) : Prop :=
  row.recipient = u ∨
    (row.recipient.startsWith roomPrefix = true ∧ u ∈ memberNames st.before row.recipient)

/-- The frame hands over what the row holds. -/
structure Hands (row : Row) (g : Frame) : Prop where
  id : g.id = (row.id.map Json.str).getD .null
  sender : g.sender = .str row.sender
  target : g.target = .str row.recipient
  ts : g.ts = row.ts

/-- Every MSG a login hands over is a message that a MSG of the run stored, and
that MSG named the user who logged in. -/
def ToAddressee (cfg : Config) (pre : List Step) (st : Step) : Prop :=
  ∀ s f u d, st.input = .frame s f → f.type = .login →
    Sql.text (f.get "user") = .ok (some u) → d ∈ st.out → d.frame.type = .msg →
    ∃ st₀ ∈ pre, ∃ row, Recording cfg st₀ row ∧ Hands row d.frame ∧ Addresses st₀ row u

/-- A message of the run that was for `u`, as far as it is stored in `row`. -/
def WasFor (cfg : Config) (pre : List Step) (row : Row) (u : Str) : Prop :=
  ∃ st₀ ∈ pre, ∃ row₀, Recording cfg st₀ row₀ ∧ row.unmarked = row₀.unmarked ∧
    Addresses st₀ row₀ u

/-- The row holds something that the user of this name can be handed. -/
def HoldsFor (row : Row) (u : Str) : Prop :=
  ∃ reader, Sql.text reader = .ok (some u) ∧ ∃ c, contentFor row reader = .ok (some c)

/-- Nobody this MSG leaves queued is queued under the id of a stored message
that was not for them, unless it holds nothing for them. -/
def OwnId (cfg : Config) (pre : List Step) (st : Step) : Prop :=
  ∀ s f me target name g row, st.input = .frame s f → f.type = .msg →
    st.before.username s = some me → Accepts cfg st.before me f target →
    (name, g) ∈ copies st.before me f target → SessionRegistry.get st.before (.str name) = none →
    row ∈ st.before.messages → Sql.text f.id = .ok row.id → row.id ≠ none →
    HoldsFor row name → WasFor cfg pre row name

variable {cfg : Config} {w₀ w : World} {tr : List Step}

/-- What the queue may hold after a run: only messages that were for the queued. -/
def QueueSound (cfg : Config) (tr : List Step) (w : World) : Prop :=
  ∀ id u, (id, u) ∈ w.pending → ∀ row ∈ w.messages, row.id = some id → HoldsFor row u →
    WasFor cfg tr row u

theorem WasFor.mono {tr' : List Step} {row : Row} {u : Str} (h : WasFor cfg tr row u) :
    WasFor cfg (tr ++ tr') row u := by
  obtain ⟨st₀, hst₀, h⟩ := h
  exact ⟨st₀, List.mem_append_left _ hst₀, h⟩

theorem WasFor.of_unmarked {row row' : Row} {u : Str} (h : WasFor cfg tr row u)
    (he : row'.unmarked = row.unmarked) : WasFor cfg tr row' u := by
  obtain ⟨st₀, hst₀, row₀, hrec, heq, ha⟩ := h
  exact ⟨st₀, hst₀, row₀, hrec, he.trans heq, ha⟩

theorem HoldsFor.of_unmarked {row row' : Row} {u : Str} (h : HoldsFor row u)
    (he : row'.unmarked = row.unmarked) : HoldsFor row' u := by
  obtain ⟨reader, ht, c, hc⟩ := h
  exact ⟨reader, ht, c, (contentFor_unmarked he reader).trans hc⟩

/-- Everybody a MSG is for is somebody it names. -/
theorem copies_named {me : Json} {f : Frame} {target name : Str} {g : Frame}
    (h : (name, g) ∈ copies w me f target) :
    target = name ∨ (target.startsWith roomPrefix = true ∧ name ∈ memberNames w target) := by
  unfold copies at h
  split at h
  next hd =>
    obtain ⟨n, hn, hc⟩ := List.mem_filterMap.mp h
    obtain ⟨rfl, -⟩ := copyFor_msg hc
    exact .inr ⟨hd, Str.mem_sorted.mp hn⟩
  next => exact .inl (congrArg Prod.fst (List.mem_singleton.mp h)).symm

/-- The message stored in a step is for everybody that step queues. -/
theorem Recording.addresses {st : Step} {row : Row} {s : Sid} {f : Frame} {me : Json}
    {target name : Str} {g : Frame} (h : Recording cfg st row) (hi : st.input = .frame s f)
    (hu : st.before.username s = some me) (hacc : Accepts cfg st.before me f target)
    (hc : (name, g) ∈ copies st.before me f target) : Addresses st row name := by
  obtain ⟨s', f', me', hi', -, hu', hacc', -⟩ := h.origin
  obtain ⟨rfl, rfl⟩ := Input.frame.inj (hi'.symm.trans hi)
  obtain rfl : row.recipient = target := Json.str.inj (hacc'.1.symm.trans hacc.1)
  exact copies_named hc

/-- One step keeps the queue sound. -/
theorem step_queueSound {i : Input} (h : QueueSound cfg tr w) (hp : PendingStored w)
    (hor : OwnId cfg tr (Step.of cfg w i)) :
    QueueSound cfg (tr ++ [Step.of cfg w i]) (Step.of cfg w i).after := by
  intro id u hmem row hrow hid hholds
  -- The row is an old one, up to marks, or the one this step stored.
  have hrows : (∃ r ∈ w.messages, row.unmarked = r.unmarked) ∨
      Recording cfg (Step.of cfg w i) row := by
    rcases step_messages cfg w i with hsame | ⟨row', hrec⟩ | ⟨id', state, now, hmark⟩
    · exact .inl ⟨row, hsame ▸ hrow, rfl⟩
    · rw [hrec.after] at hrow
      rcases List.mem_append.mp hrow with hold | hnew
      · exact .inl ⟨row, hold, rfl⟩
      · rw [List.mem_singleton.mp hnew]
        exact .inr hrec
    · rw [hmark] at hrow
      exact .inl (mem_markAll hrow)
  rcases step_pending cfg w i hmem with hold | hq
  · rcases hrows with ⟨r, hr, heq⟩ | hrec
    · have := h id u hold r hr ((id_of_unmarked heq).symm.trans hid) (hholds.of_unmarked heq.symm)
      exact (this.of_unmarked heq).mono
    · -- Somebody queued before is queued for a stored message, so its id was not free.
      obtain ⟨r, hr, hrid⟩ := hp (id, u) hold
      rcases hrec.fresh with hn | hne
      · simp [hid] at hn
      · exact (hne r hr (hrid.trans hid.symm)).elim
  · obtain ⟨s, f, me, target, g, hi, hmsg, hu, hacc, ht, hcopy, -⟩ := hq.origin
    rcases hrows with ⟨r, hr, heq⟩ | hrec
    · have hrid : r.id = some id := (id_of_unmarked heq).symm.trans hid
      have := hor s f me target u g r hi hmsg hu hacc hcopy hq.away hr (hrid ▸ ht) (by simp [hrid])
        (hholds.of_unmarked heq.symm)
      exact (this.of_unmarked heq).mono
    · exact ⟨_, List.mem_append_right _ (List.mem_singleton.mpr rfl), row, hrec, rfl,
        hrec.addresses hi hu hacc hcopy⟩

/-- A whole run keeps it sound. -/
theorem Run.queueSound (h : Run cfg w₀ tr w) (hw : Wired w₀) (h₀ : w₀.pending = [])
    (hor : ∀ pre st post, tr = pre ++ st :: post → OwnId cfg pre st) : QueueSound cfg tr w := by
  induction h with
  | nil =>
    intro id u hmem
    rw [h₀] at hmem
    cases hmem
  | @snoc tr w h i ih =>
    refine step_queueSound (ih fun pre st post he => ?_) (h.pendingStored hw h₀)
      (hor tr _ [] rfl)
    exact hor pre st (post ++ [Step.of cfg w i]) (by rw [he]; simp)

omit [Runtime] in
theorem hands_flushed {row row₀ : Row} (h : row.unmarked = row₀.unmarked) (entry : Dict) :
    Hands row₀ (flushed row entry) := by
  have hf : flushed row entry = flushed row₀.unmarked entry := by
    rw [← h]
    rfl
  rw [hf]
  exact ⟨rfl, rfl, rfl, rfl⟩

/-- **Stored delivery goes to the addressee, as long as no id is used for
somebody else's message.** -/
theorem Run.toAddressee {uuid : Nat → Str} {clock : Nat → Int} {salt : Nat → List UInt8}
    (h : Run cfg (World.start uuid clock salt) tr w)
    (hor : ∀ pre st post, tr = pre ++ st :: post → OwnId cfg pre st) :
    ∀ pre st post, tr = pre ++ st :: post → ToAddressee cfg pre st := by
  intro pre st post he s f u d hi hlog hu hd hmsg
  obtain ⟨hrun, hst⟩ := h.split pre st post he
  have hsound := hrun.queueSound (wired_start uuid clock salt) rfl fun pre' st' post' he' =>
    hor pre' st' (post' ++ st :: post) (by rw [he, he']; simp)
  rw [hst] at hd
  rcases step_msgs cfg st.before st.input hd hmsg with hrel | ⟨name, row, hfl⟩
  · obtain ⟨s', f', me, target, name, hi', hmsg', -⟩ := hrel.origin
    obtain ⟨rfl, rfl⟩ := Input.frame.inj (hi'.symm.trans hi)
    simp [hlog] at hmsg'
  · obtain ⟨s', f', entry, hi', -, hin, ht, hent, rfl⟩ := hfl.origin
    obtain ⟨rfl, rfl⟩ := Input.frame.inj (hi'.symm.trans hi)
    obtain rfl : name = u := Option.some.inj (Except.ok.inj (ht.symm.trans hu))
    obtain ⟨hrow, id, hid, hpend⟩ := mem_queued_iff.mp hfl.queued
    obtain ⟨b, n, hc, -⟩ := historyEntry_some.mp hent
    obtain ⟨st₀, hst₀, row₀, hrec, heq, haddr⟩ :=
      hsound id name hpend row hrow hid ⟨f'.get "user", ht, _, hc⟩
    exact ⟨st₀, hst₀, row₀, hrec, hands_flushed heq entry, haddr⟩

/-! ## Concrete runs -/

theorem Recording.drop {st : Step} {row : Row} (h : Recording cfg st row) :
    st.after.messages.drop st.before.messages.length = [row] := by
  rw [h.after, List.drop_left]

end Runs

namespace Sample

/-- `a` writes to the absent `b`, and `m` then to the absent `x` under the same
id. -/
def reused : List Input :=
  [register "a", register "b", register "m", register "x", login 0 "a", login 1 "m",
    msg 0 "b" "i", msg 1 "x" "i"]

/-- `a` writes to the absent `b`, who then logs in. -/
def ordinary : List Input := [register "a", register "b", login 0 "a", msg 0 "b" "i", login 2 "b"]

end Sample

section Concrete

open Sample

attribute [local instance] sampleRuntime

/-- At `x`'s login the server hands over the message that named `b`. -/
theorem reused_id_misdelivers :
    ∃ w, Run chatServer fresh (trace chatServer fresh (reused ++ [login 2 "x"])) w ∧
      ¬ ∀ pre st post, trace chatServer fresh (reused ++ [login 2 "x"]) = pre ++ st :: post →
        ToAddressee chatServer pre st := by
  refine ⟨_, Run.of_inputs chatServer fresh _, fun h => ?_⟩
  have hx := h _ _ [] (trace_append chatServer fresh reused [login 2 "x"])
  have hout : (Step.of chatServer (fresh.after chatServer reused) (login 2 "x")).out.any
      (fun d => d.frame.type = .msg) = true := by decide +kernel
  obtain ⟨d, hd, hmsg⟩ := List.any_eq_true.mp hout
  obtain ⟨st₀, hst₀, row, hrec, -, haddr⟩ := hx 2 _ "x" d rfl rfl rfl hd (by simpa using hmsg)
  have hothers : ∀ st ∈ trace chatServer fresh reused,
      ∀ r ∈ st.after.messages.drop st.before.messages.length,
        r.recipient ≠ Str.ofString "x" ∧ r.recipient.startsWith roomPrefix = false := by decide +kernel
  have hrow := hothers st₀ hst₀ row (by rw [hrec.drop]; exact List.mem_singleton.mpr rfl)
  rcases haddr with haddr | ⟨haddr, -⟩
  · exact hrow.1 haddr
  · simp [hrow.2] at haddr

/-- In an ordinary run the condition holds, and the theorem says whose message
`b` is handed. -/
theorem ordinary_toAddressee :
    (∃ st ∈ trace chatServer fresh ordinary, ∃ d ∈ st.out, d.frame.type = .msg) ∧
    ∀ pre st post, trace chatServer fresh ordinary = pre ++ st :: post →
      ToAddressee chatServer pre st := by
  refine ⟨by decide +kernel, Run.toAddressee (Run.of_inputs chatServer fresh ordinary) ?_⟩
  have hfirst : ∀ st ∈ trace chatServer fresh ordinary,
      st.input.type ≠ some .msg ∨ st.before.messages = [] := by decide +kernel
  intro pre st post he s f me target name g row hi hmsg _ _ _ _ hrow
  have hst : st ∈ trace chatServer fresh ordinary := by rw [he]; simp
  rcases hfirst st hst with hne | hnil
  · simp [hi, Input.type, hmsg] at hne
  · rw [hnil] at hrow
    cases hrow

end Concrete

end Ciphertext
