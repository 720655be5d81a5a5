import Ciphertext.Server.Login

/-!
# What a RECEIPT does

A receipt names a message by its id and a state. The handler marks the message
and tells its sender, and at no point looks at who the message was for:
`receipt_effect` is its whole effect, and the recipient of the row is not in it.

Three things can come of one: it is refused with an ERROR (`Reports` does not hold of the
frame), it names no stored message and nothing happens, or the rows of its id are marked
and the sender, if connected and not the reporter, is sent one frame (`Tells`). So whoever
is logged in may report on any message whose id they know; where that goes wrong is said in
`Server/Reporting.lean`.
-/

namespace Ciphertext

open Prog MessageRouter

variable [Runtime]

/-- A receipt the handler acts on: there is a store, a `ref`, and a state. -/
structure Reports (cfg : Config) (f : Frame) : Prop where
  store : cfg.messages = true
  ref : (f.get "ref").truthy = true
  state : f.get "state" = .str delivered ∨ f.get "state" = .str read

/-- The frame that tells a sender, up to its id and timestamp. -/
structure Tells (me : Json) (f : Frame) (name : Str) (g : Frame) : Prop where
  type : g.type = .receipt
  sender : g.sender = me
  target : g.target = .str name
  ref : g.get "ref" = .str (f.get "ref").pyStr

/-- The session that hears of a receipt: the sender's, unless they reported it
themselves or are away. -/
def hears (w : World) (me : Json) (sender : Str) : Option Sid :=
  if me.pyEq (.str sender) then none else SessionRegistry.get w (.str sender)

/-- **What handling a RECEIPT does.** -/
theorem receipt_effect (cfg : Config) (s : Sid) (me : Json) (f : Frame) (w : World) :
    let w' := ((receipt cfg s me f).exec w).2
    let row? := w.messages.find? fun r => r.id == some (f.get "ref").pyStr
    (¬ Reports cfg f ∧ w'.messages = w.messages ∧
        ∃ ds, w'.sent = w.sent ++ ds ∧ ∀ d ∈ ds, d.frame.type = .error) ∨
      (Reports cfg f ∧ ((f.get "ref").pyStr.encodable = false ∨ row? = none) ∧
        w'.messages = w.messages ∧ w'.sent = w.sent) ∨
      (Reports cfg f ∧ (f.get "ref").pyStr.encodable = true ∧ ∃ row, row? = some row ∧
        w'.messages =
          markAll w.messages (f.get "ref").pyStr (f.get "state").pyStr (w.clock w.reads) ∧
        match hears w me row.sender with
        | none => w'.sent = w.sent
        | some t => ∃ g, Tells me f row.sender g ∧ w'.sent = w.sent ++ [⟨t, w.username t, g⟩]) := by
  unfold receipt
  dsimp only
  -- the checks in the handler's order: the store, the fields, the encoding, the row, the reporter
  by_cases hm : cfg.messages = true
  case neg =>
    have hm : cfg.messages = false := by simpa using hm
    simp only [hm, Bool.not_false, if_true]
    exact .inl ⟨fun h => by simp [h.store] at hm, rfl, [], by simp, by simp⟩
  simp only [hm, Bool.not_true, Bool.false_eq_true, if_false]
  by_cases hbad : (!(f.get "ref").truthy ||
      !(f.get "state" = .str delivered || f.get "state" = .str read)) = true
  · rw [if_pos hbad]
    refine .inl ⟨fun h => ?_, rfl, [_], rfl, fun d hd => ?_⟩
    · rcases h.state with hs | hs <;> simp [h.ref, hs] at hbad
    · rw [List.mem_singleton.mp hd]
  rw [if_neg hbad]
  simp only [Bool.or_eq_true, Bool.not_eq_true', not_or, Bool.not_eq_false, decide_eq_true_eq]
    at hbad
  have hrep : Reports cfg f := ⟨hm, hbad.1, hbad.2⟩
  rw [RouterM.exec_bind, RouterM.exec_call]
  simp only [exec]
  rw [RouterM.exec_bind, RouterM.exec_call]
  simp only [exec]
  -- `mark` binds the id before it looks for it
  by_cases henc : (f.get "ref").pyStr.encodable = true
  case neg =>
    have hmark : ∀ w₁ : World, MessageStore.mark w₁ (f.get "ref").pyStr (f.get "state").pyStr
        (w.clock w.reads) = .error .unicodeEncodeError := fun w₁ => by
      simp [MessageStore.mark, Sql.str, henc, Bind.bind, Except.bind]
    rw [hmark]
    exact .inr (.inl ⟨hrep, .inl (by simpa using henc), rfl, rfl⟩)
  cases hfind : w.messages.find? fun r => r.id == some (f.get "ref").pyStr with
  | none =>
    have hmark : ∀ w₁ : World, w₁.messages = w.messages →
        MessageStore.mark w₁ (f.get "ref").pyStr (f.get "state").pyStr (w.clock w.reads) =
          .ok (none, w₁) := fun w₁ h => by
      simp [MessageStore.mark, Sql.str, henc, Bind.bind, Except.bind, h, hfind, Pure.pure,
        Except.pure]
    rw [hmark { w with reads := w.reads + 1 } rfl]
    exact .inr (.inl ⟨hrep, .inr rfl, rfl, rfl⟩)
  | some row =>
    have hmark : ∀ w₁ : World, w₁.messages = w.messages →
        MessageStore.mark w₁ (f.get "ref").pyStr (f.get "state").pyStr (w.clock w.reads) =
          .ok (some row.sender, { w₁ with
            messages :=
              markAll w.messages (f.get "ref").pyStr (f.get "state").pyStr (w.clock w.reads) }) :=
      fun w₁ h => by
        simp [MessageStore.mark, Sql.str, henc, Bind.bind, Except.bind, h, hfind, Pure.pure,
          Except.pure, markAll]
    rw [hmark { w with reads := w.reads + 1 } rfl]
    refine .inr (.inr ⟨hrep, henc, row, rfl, ?_⟩)
    simp only [commit, hears]
    -- nobody hears of their own receipt
    cases hself : me.pyEq (.str row.sender) with
    | true => exact ⟨rfl, rfl⟩
    | false =>
      simp only [Bool.false_eq_true, if_false]
      rw [RouterM.exec_bind, RouterM.exec_call]
      simp only [exec]
      have hget : ∀ w₁ : World, w₁.online = w.online →
          SessionRegistry.get w₁ (.str row.sender) = SessionRegistry.get w (.str row.sender) :=
        fun w₁ h => by rw [SessionRegistry.get, h, ← SessionRegistry.get]
      rw [hget]
      case a => rfl
      cases SessionRegistry.get w (.str row.sender) with
      | none => exact ⟨rfl, rfl⟩
      | some t => exact ⟨rfl, _, ⟨rfl, rfl, rfl, rfl⟩, rfl⟩

end Ciphertext
