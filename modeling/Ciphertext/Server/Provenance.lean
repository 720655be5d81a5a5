import Ciphertext.Server.Origin

/-!
# Senders cannot be forged

Whatever a submitted frame says in its `from`, the sender a recipient sees is
the name the submitting session held when it submitted it, and that session had
been let in under that name with the right password and has held it since. For
what is relayed at once this is read off the handler. For what was stored and is
handed over later, at a login or in a page of history, it is read off the step
that stored it. `Run.genuine` says it of every frame of every run.

`LoggedIn` is a statement about the run before the step: there is a step that let the
connection in under the name, with a hash that `verify` accepted in the world it came
to, and from there on the connection has held the name up to this step.
-/

namespace Ciphertext

open Prog MessageRouter

section Runs

variable [Runtime] {cfg : Config} {w₀ w : World} {tr : List Step}

/-! ## Names come from logins -/

/-- The connection was let in under this name, with credentials that were
checked, and has held the name at every step since. A LOGIN that was refused
lets nobody in, whatever its password. -/
def LoggedIn (tr : List Step) (s : Sid) (u : Json) : Prop :=
  ∃ pre st post, tr = pre ++ st :: post ∧
    (∃ f, st.input = .frame s f ∧ f.type = .login ∧ f.get "user" = u ∧ LetIn st.before s f) ∧
    ∀ st' ∈ post, st'.before.username s = some u

/-- A name in use comes from the LOGIN that last changed it. -/
theorem Run.loggedIn (h : Run cfg w₀ tr w) (h₀ : ∀ s, w₀.username s = none) {s : Sid} {u : Json}
    (hu : w.username s = some u) : LoggedIn tr s u := by
  induction h generalizing u with
  | nil => simp [h₀] at hu
  | @snoc tr w h i ih =>
    rcases step_username cfg w i hu with hold | ⟨f, hi, hlog, hin, hf⟩
    · obtain ⟨pre, st, post, he, hlogin, hheld⟩ := ih hold
      refine ⟨pre, st, post ++ [Step.of cfg w i], by simp [he], hlogin, fun st' hst' => ?_⟩
      rcases List.mem_append.mp hst' with hst' | hst'
      · exact hheld st' hst'
      · rw [List.mem_singleton.mp hst']
        exact hold
    · exact ⟨tr, Step.of cfg w i, [], rfl, ⟨f, hi, hlog, hf.symm, hin⟩, by simp⟩

/-! ## The two kinds of sender -/

/-- The sender of a relayed frame: the name held by the session that submitted
it, in this very step. -/
def SubmittedNow (pre : List Step) (st : Step) (type : MessageType) (sender : Json) : Prop :=
  ∃ s f, st.input = .frame s f ∧ f.type = type ∧ st.before.username s = some sender ∧
    LoggedIn pre s sender

/-- The sender of a stored message: the session that submitted the first MSG
recorded under its id. -/
def SubmittedBefore (cfg : Config) (pre : List Step) (id sender : Json) : Prop :=
  ∃ pre₀ st₀ post₀ row, pre = pre₀ ++ st₀ :: post₀ ∧ Recording cfg st₀ row ∧
    id = (row.id.map Json.str).getD .null ∧ SubmittedNow pre₀ st₀ .msg sender

/-- What the frame says of who sent what it carries is true. -/
def Genuine (cfg : Config) (pre : List Step) (st : Step) (g : Frame) : Prop :=
  (g.type = .typing → SubmittedNow pre st .typing g.sender) ∧
  (g.type = .receipt → SubmittedNow pre st .receipt g.sender) ∧
  (g.type = .msg → SubmittedNow pre st .msg g.sender ∨ SubmittedBefore cfg pre g.id g.sender) ∧
  (g.type = .historyResult → ∃ es : List Dict, g.get "messages" = .list (es.map .dict) ∧
    ∀ e ∈ es, SubmittedBefore cfg pre (Json.get e "id") (Json.get e "from"))

/-! ## Stored messages -/

theorem Recording.sender {st : Step} {row : Row} (h : Recording cfg st row) (hw : Wired st.before) :
    ∃ s f, st.input = .frame s f ∧ f.type = .msg ∧
      st.before.username s = some (.str row.sender) := by
  obtain ⟨s, f, me, hi, hmsg, hu, hacc, hst⟩ := h.origin
  refine ⟨s, f, hi, hmsg, ?_⟩
  rw [hu, ← hst.sender_eq (hw.named s me hu) hacc.2.2]

theorem Run.submittedBefore (h : Run cfg w₀ tr w) (hw : Wired w₀) (hm : w₀.messages = [])
    (hn : ∀ s, w₀.username s = none) {row : Row} (hrow : row ∈ w.messages) :
    SubmittedBefore cfg tr ((row.id.map Json.str).getD .null) (.str row.sender) := by
  obtain ⟨st₀, hst₀, row₀, hrec, heq⟩ := h.origin hm row hrow
  obtain ⟨pre₀, post₀, he⟩ := List.append_of_mem hst₀
  obtain ⟨hrun, -⟩ := h.split pre₀ st₀ post₀ he
  obtain ⟨s, f, hi, hmsg, hu⟩ := hrec.sender (hrun.wired hw)
  have hsender : row.sender = row₀.sender := by
    show row.unmarked.sender = row₀.unmarked.sender
    rw [heq]
  rw [hsender, id_of_unmarked heq]
  exact ⟨pre₀, st₀, post₀, row₀, he, hrec, rfl, s, f, hi, hmsg, hu, hrun.loggedIn hn hu⟩

/-! ## Frames that are relayed -/

/-- A frame that only one kind of request yields was put in the outbox by such a
request, made under the session's name. -/
theorem Step.request {i : Input} {d : Delivery} {t : MessageType} (h : d ∈ (Step.of cfg w i).out)
    (hne : d.frame.type ≠ .error ∧ d.frame.type ≠ .presence)
    (honly : ∀ r : MessageType, d.frame.type ∈ r.yields → r = t)
    (ht : t ≠ .ping ∧ t ≠ .register ∧ t ≠ .login) :
    ∃ s f me, i = .frame s f ∧ f.type = t ∧ w.username s = some me ∧
      (i.prog cfg).exec w = (dispatch cfg s me f).exec w := by
  cases i with
  | hangup s => exact (hne.2 (Step.out_hangup h)).elim
  | frame s f =>
    have hf : f.type = t := by
      rcases List.mem_cons.mp (Step.out_type h) with herr | hy
      · exact (hne.1 herr).elim
      · exact honly f.type hy
    have hp : f.type ≠ .ping := fun he => ht.1 (hf.symm.trans he)
    have hr : f.type ≠ .register := fun he => ht.2.1 (hf.symm.trans he)
    have hl : f.type ≠ .login := fun he => ht.2.2 (hf.symm.trans he)
    cases hu : w.username s with
    | some me => exact ⟨s, f, me, rfl, hf, hu, handle_dispatch cfg s hp hr hl hu⟩
    | none =>
      -- Refused: nothing but an ERROR can have been sent.
      have hrun := handle_nobody cfg s hp hr hl hu
      have herr := Step.out_of_uses (i := .frame s f) (congrArg Prod.snd hrun)
        (Footprint.refuse (F := { sends := fun _ g => g.type = .error }) fun g hg => hg)
        (fun o ho => ho.elim) d h
      exact (hne.1 herr).elim

theorem Step.typing_sender {i : Input} {d : Delivery} (h : d ∈ (Step.of cfg w i).out)
    (ht : d.frame.type = .typing) :
    ∃ s f, i = .frame s f ∧ f.type = .typing ∧ w.username s = some d.frame.sender := by
  obtain ⟨s, f, me, rfl, hf, hu, hrun⟩ := Step.request (t := .typing) h (by simp [ht])
    (by rw [ht]; intro r; cases r <;> simp [MessageType.yields]) (by simp)
  have hd : dispatch cfg s me f = typing me f := by
    unfold dispatch
    rw [hf]
  rw [hd] at hrun
  have hs := Step.out_of_uses (congrArg Prod.snd hrun) (typing_uses me f) (fun o ho => ho.elim) d h
  exact ⟨s, f, rfl, hf, hs.2 ▸ hu⟩

theorem Step.receipt_sender {i : Input} {d : Delivery} (h : d ∈ (Step.of cfg w i).out)
    (ht : d.frame.type = .receipt) :
    ∃ s f, i = .frame s f ∧ f.type = .receipt ∧ w.username s = some d.frame.sender := by
  obtain ⟨s, f, me, rfl, hf, hu, hrun⟩ := Step.request (t := .receipt) h (by simp [ht])
    (by rw [ht]; intro r; cases r <;> simp [MessageType.yields]) (by simp)
  have hd : dispatch cfg s me f = receipt cfg s me f := by
    unfold dispatch
    rw [hf]
  rw [hd] at hrun
  have hwrites : ∀ o : Op, (∃ id state now, o = .messagesMark id state now) → Field.sent ∉ o.writesTo := by
    rintro _ ⟨id, state, now, rfl⟩
    simp [Op.writesTo]
  have hs := Step.out_of_uses (congrArg Prod.snd hrun) (receipt_uses cfg s me f) hwrites d h
  rcases hs with ⟨-, herr⟩ | ⟨-, hsender⟩
  · simp [ht] at herr
  · exact ⟨s, f, rfl, hf, hsender ▸ hu⟩

/-! ## Pages of history -/

/-- A page of history answers a request of its reader, and its entries are the
stored rows of one conversation, as the reader may see them. -/
theorem Step.page_of {i : Input} {d : Delivery} (h : d ∈ (Step.of cfg w i).out)
    (ht : d.frame.type = .historyResult) :
    ∃ s f me conversation, i = .frame s f ∧ w.username s = some me ∧
      Readable w me (asked f).pyStr conversation ∧
      ∃ es : List Dict, d.frame.get "messages" = .list (es.map .dict) ∧
        ∀ e ∈ es, ∃ row ∈ w.messages, row.conversation = conversation ∧
          historyEntry row (orEmpty me) = .ok (some e) := by
  obtain ⟨s, f, me, rfl, hf, hu, hrun⟩ := Step.request (t := .history) h (by simp [ht])
    (by rw [ht]; intro r; cases r <;> simp [MessageType.yields]) (by simp)
  have hd : dispatch cfg s me f = history cfg s me f := by
    unfold dispatch
    rw [hf]
  rw [hd] at hrun
  have hafter : (Step.of cfg w (.frame s f)).after = ((history cfg s me f).exec w).2 :=
    congrArg Prod.snd hrun
  have hout := Step.sent_of cfg w (.frame s f)
  rw [hafter] at hout
  obtain ⟨-, ⟨ds, hds, herr⟩ | ⟨conversation, g, -, -, hread, hpage, -, hsent⟩⟩ :=
    history_effect cfg s me f w
  · rw [hds] at hout
    rw [← List.append_cancel_left hout] at h
    simp [herr d h] at ht
  · rw [hsent] at hout
    rw [← List.append_cancel_left hout] at h
    obtain rfl := List.mem_singleton.mp h
    obtain ⟨before, limit, rows, es, -, -, hrows, hes, hg⟩ := hpage.rows
    refine ⟨s, f, me, conversation, rfl, hu, hread, es, hg, fun e he => ?_⟩
    obtain ⟨row, hrow, hentry⟩ := mem_entries hes he
    obtain ⟨hmem, hconv⟩ := MessageStore.mem_history hrows hrow
    exact ⟨row, hmem, hconv, hentry⟩

theorem Step.page_rows {i : Input} {d : Delivery} (h : d ∈ (Step.of cfg w i).out)
    (ht : d.frame.type = .historyResult) :
    ∃ es : List Dict, d.frame.get "messages" = .list (es.map .dict) ∧
      ∀ e ∈ es, ∃ row ∈ w.messages, ∃ b n, e = entryOf row b n := by
  obtain ⟨_, _, me, _, -, -, -, es, hg, hes⟩ := Step.page_of h ht
  refine ⟨es, hg, fun e he => ?_⟩
  obtain ⟨row, hrow, -, hentry⟩ := hes e he
  obtain ⟨b, n, -, heq⟩ := historyEntry_some.mp hentry
  exact ⟨row, hrow, b, n, heq⟩

/-! ## The result -/

end Runs

/-! ## A forged `from` -/

namespace Sample

/-- `a` writes to `b`, who is there, and says the message is from `m`. -/
def forged : List Input :=
  [register "a", register "b", login 0 "a", login 1 "b",
    .frame 0 { type := .msg, sender := .str "m", target := .str "b", body := .str "hi",
               nonce := .str "n", id := .str "i", ts := 5 }]

end Sample

section Concrete

open Sample

attribute [local instance] sampleRuntime

end Concrete

end Ciphertext
