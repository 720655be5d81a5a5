import Ciphertext.Prog.Latest
import Ciphertext.Client.Changes

/-!
# Who is shown as typing

A set of names for each conversation says who types in it. A TYPING frame puts its
sender in or takes them out; a message takes its author out, because a client that
goes quiet after Enter sends no hint. So a name is in the set if the last signal
about it there was a hint to that effect, whatever else the controller did in
between and however it ended.

Names are any JSON here, as frames have them: what Python takes for equal is one
name, and a name without a hash gets into no set.

`Signal` is what a frame or a message says about one name in one conversation, and
`step_tells` that an input changes the sets by the signals it comes to, in their order,
however it ends. `shown_typing` follows by induction: who is shown is decided by the
last signal about the name, and as it was before the run where there is none.
-/

namespace Ciphertext

open Act Prog

/-- That somebody types in a conversation, or has stopped. -/
structure Signal where
  key : Str
  user : Json
  on : Bool

namespace Signal

/-- It is about that name in that conversation. -/
def about (key : Str) (user : Json) (s : Signal) : Bool :=
  s.key = key && s.user.hashable && s.user.pyEq user

/-- Whoever has written something has stopped. -/
def ofFiled (e : Str × Frame) : Signal :=
  { key := e.1, user := e.2.sender.orElse (.str "?"), on := false }

end Signal

/-- What a TYPING frame says: a room's hint belongs to the room, another to its sender. -/
def Frame.hint (f : Frame) : Option Signal :=
  if f.sender.truthy then
    match f.target.orElse (.str []) with
    | .str target =>
      match if target.isRoom then .str target else f.sender with
      | .str key => some { key, user := f.sender, on := (f.get "on").truthy }
      | _ => none
    | _ => none
  else none

/-! ## The set of a conversation -/

namespace ChatModel

/-- The name is among those who type. -/
def types (m : ChatModel) (key : Str) (user : Json) : Bool := (m.who key).any user.pyEq

theorem types_of_typing {m m' : ChatModel} (h : m'.typing = m.typing) (key : Str) (user : Json) :
    m'.types key user = m.types key user := by
  unfold types who
  rw [h]

/-- One model comes from the other by these signals. -/
def Tells (l : List Signal) (m m' : ChatModel) : Prop :=
  ∀ key user, m'.types key user = lastValue (Signal.about key user) Signal.on (m.types key user) l

theorem Tells.nil {m m' : ChatModel} (h : m'.typing = m.typing) : Tells [] m m' := fun key user =>
  types_of_typing h key user

theorem Tells.append {l l' : List Signal} {m m' m'' : ChatModel} (h : Tells l m m') (h' : Tells l' m' m'') :
    Tells (l ++ l') m m'' := by
  intro key user
  rw [h' key user, h key user, lastValue_append]

/-- A name that was put in is in, and so is every other that was. -/
theorem any_insert (who : List Json) (user v : Json) :
    (if who.any user.pyEq then who else who ++ [user]).any v.pyEq = (user.pyEq v || who.any v.pyEq) := by
  by_cases hv : user.pyEq v = true
  · rw [hv, Bool.true_or]
    split
    next h =>
      obtain ⟨w, hw, heq⟩ := List.any_eq_true.mp h
      rw [Json.pyEq_comm] at hv
      exact List.any_eq_true.mpr ⟨w, hw, Json.pyEq_trans hv heq⟩
    next =>
      rw [Json.pyEq_comm] at hv
      simp [hv]
  · rw [Bool.eq_false_of_not_eq_true hv, Bool.false_or]
    split
    · rfl
    · rw [Json.pyEq_comm] at hv
      simp [hv]

/-- One that was taken out is out, and only that one. -/
theorem any_remove (who : List Json) (user v : Json) :
    (who.filter fun w => !user.pyEq w).any v.pyEq = (!user.pyEq v && who.any v.pyEq) := by
  rw [List.any_filter]
  by_cases hv : user.pyEq v = true
  · rw [hv, Bool.not_true, Bool.false_and, List.any_eq_false]
    intro w hw hboth
    obtain ⟨hout, heq⟩ := Bool.and_eq_true_iff.mp hboth
    rw [Json.pyEq_trans hv heq] at hout
    cases hout
  · rw [Bool.eq_false_of_not_eq_true hv, Bool.not_false, Bool.true_and]
    congr 1
    funext w
    -- who equals `v` is not `user`
    by_cases hw : v.pyEq w = true
    · have hne : user.pyEq w ≠ true := fun h => hv (Json.pyEq_trans h (Json.pyEq_comm v w ▸ hw))
      rw [hw, Bool.eq_false_of_not_eq_true hne]
      rfl
    · rw [Bool.eq_false_of_not_eq_true hw, Bool.and_false]

/-- **`set_typing`** is one signal. -/
theorem setTyping_tells (m : ChatModel) (key : Str) (user : Json) (on : Bool) :
    Tells [{ key, user, on }] m (m.setTyping key user on).1 := by
  intro key' v
  have hset : ∀ {m' : ChatModel} {who : List Json}, m'.typing = PyDict.insert m.typing key who →
      m'.types key' v = if key' = key then who.any v.pyEq else m.types key' v := by
    intro m' who h
    unfold types ChatModel.who
    rw [h]
    by_cases hkey : key' = key
    · rw [hkey, PyDict.get_insert_self, if_pos rfl]
      rfl
    · rw [PyDict.get_insert_ne _ _ hkey, if_neg hkey]
  rw [lastValue_singleton, hset (typing_of_setTyping m key user on)]
  unfold Signal.about
  dsimp only
  cases hhash : user.hashable with
  | false =>
    rw [Bool.not_false, if_pos rfl]
    by_cases hkey : key' = key
    · rw [if_pos hkey, hkey]
      simp [types]
    · rw [if_neg hkey]
      simp
  | true =>
    rw [Bool.not_true, if_neg Bool.false_ne_true]
    by_cases hkey : key' = key
    case neg => simp [hkey, Ne.symm hkey]
    subst hkey
    cases on with
    | true =>
      rw [if_pos rfl, if_pos rfl, any_insert]
      by_cases hv : user.pyEq v = true
      · simp [hv]
      · simp [hv, types]
    | false =>
      rw [if_pos rfl, if_neg (by simp), any_remove]
      by_cases hv : user.pyEq v = true
      · simp [hv]
      · simp [hv, types]

end ChatModel

/-! ## The controller -/

namespace ChatController

/-- What an input says by itself. -/
def Gesture.hints : Gesture → List Signal
  | .frame f => if f.type = .typing then f.hint.toList else []
  | _ => []

variable [Runtime] [Crypto]

/-- What an input comes to say: its hint, and that whoever wrote has stopped, for each
message that it puts into the model. -/
def told (c : ChatController) (g : Gesture) : List Signal :=
  g.hints ++ ((c.step g).filed.drop c.filed.length).map Signal.ofFiled

/-- All that is said, one input after the other. -/
def signals : ChatController → List Gesture → List Signal
  | _, [] => []
  | c, g :: gs => c.told g ++ (c.step g).signals gs

/-- The model has taken out whoever wrote what has been put into it, and nobody else. -/
def Clears (c c' : ChatController) : Prop :=
  ∃ es, c'.filed = c.filed ++ es ∧ ChatModel.Tells (es.map Signal.ofFiled) c.model c'.model

omit [Runtime] [Crypto] in
theorem Clears.of_eq {c c' : ChatController} (hf : c'.filed = c.filed) (ht : c'.model.typing = c.model.typing) :
    c.Clears c' := ⟨[], by rw [hf, List.append_nil], ChatModel.Tells.nil ht⟩

omit [Runtime] [Crypto] in
theorem Clears.trans {a b c : ChatController} (h : a.Clears b) (h' : b.Clears c) : a.Clears c := by
  obtain ⟨es, hf, ht⟩ := h
  obtain ⟨es', hf', ht'⟩ := h'
  refine ⟨es ++ es', ?_, ?_⟩
  · rw [hf', hf, List.append_assoc]
  · rw [List.map_append]
    exact ht.append ht'

/-- Every small change but a hint is of that kind. -/
theorem Micro.clears {kinds : List Kind} {pairs : List (Str × Str)} {c c' : ChatController}
    (h : Micro kinds pairs c c') (hno : .typing ∉ kinds) : c.Clears c' := by
  cases h with
  | @model _ k m hk hp hchange =>
    have hfiling : k ≠ .filing := by
      intro he
      rw [he] at hp
      cases hp
    exact Clears.of_eq rfl (changed_typing hchange (fun he => hno (he ▸ hk)) hfiling)
  | selected hk c key =>
    obtain ⟨xs, hselect, -⟩ := exec_select key c
    rw [hselect]
    exact Clears.of_eq rfl (changed_typing (Change.selection c.model key) nofun nofun)
  | filed hk c f key body ts =>
    rw [exec_addFrame]
    refine ⟨[(key, f)], rfl, ?_⟩
    intro key' v
    rw [ChatModel.types_of_typing (ChatModel.typing_addMessage c.model key rfl)]
    exact ChatModel.setTyping_tells c.model key (f.sender.orElse (.str "?")) false key' v
  | _ => exact Clears.of_eq rfl rfl

theorem Walk.clears {kinds : List Kind} {pairs : List (Str × Str)} {c c' : ChatController}
    (h : Walk kinds pairs c c') (hno : .typing ∉ kinds) : c.Clears c' :=
  h.lift (fun _ => Clears.of_eq rfl rfl) (fun _ _ _ h h' => h.trans h') fun _ _ h => h.clears hno

omit [Runtime] [Crypto] in
/-- A TYPING frame is its hint. -/
theorem exec_incomingTyping (f : Frame) (c : ChatController) :
    (exec (incomingTyping f) c).2.filed = c.filed ∧
      ChatModel.Tells f.hint.toList c.model (exec (incomingTyping f) c).2.model := by
  have hnil : ChatModel.Tells [] c.model c.model := ChatModel.Tells.nil rfl
  unfold incomingTyping Frame.hint
  by_cases hs : f.sender.truthy = true
  case neg =>
    rw [if_neg hs, if_pos (by simpa using hs)]
    exact ⟨rfl, hnil⟩
  rw [if_pos hs, if_neg (by simpa using hs), exec_bind]
  cases htarget : f.target.orElse (.str []) with
  | str target =>
    have hroom : exec (startsRoom (.str target)) c = (.ok target.isRoom, c) := rfl
    rw [hroom]
    dsimp only
    generalize (if target.isRoom = true then Json.str target else f.sender) = place
    cases place with
    | str key =>
      dsimp only
      rw [exec_onModel']
      exact ⟨rfl, ChatModel.setTyping_tells c.model key f.sender _⟩
    | _ =>
      -- not a string: nothing is shown under it, whether it has a hash or not
      dsimp only
      split
      · exact ⟨rfl, hnil⟩
      · exact ⟨rfl, hnil⟩
  | _ => exact ⟨rfl, hnil⟩

theorem step_typing (c : ChatController) {f : Frame} (h : f.type = .typing) :
    c.step (.frame f) = (exec (incomingTyping f) (c.receiving f)).2 := by
  refine step_frame c ?_
  unfold onFrame
  rw [h]
  rfl

omit [Runtime] [Crypto] in
theorem mayChange_typing {g : Gesture} (h : .typing ∈ g.mayChange) : ∃ f, g = .frame f ∧ f.type = .typing := by
  obtain ⟨f, rfl, hf⟩ := mayChange_frame h (by simp)
  refine ⟨f, rfl, ?_⟩
  revert hf
  cases f.type <;> simp [frameKinds]

omit [Runtime] [Crypto] in
theorem hints_eq_nil {g : Gesture} (h : ∀ f, g = .frame f → f.type ≠ .typing) : g.hints = [] := by
  cases g with
  | frame f => exact if_neg (h f rfl)
  | _ => rfl

/-- **An input changes who types by what it says.** -/
theorem step_tells (c : ChatController) (g : Gesture) : ChatModel.Tells (c.told g) c.model (c.step g).model := by
  unfold told
  by_cases htyping : ∃ f, g = .frame f ∧ f.type = .typing
  · obtain ⟨f, rfl, hf⟩ := htyping
    obtain ⟨hfiled, htells⟩ := exec_incomingTyping f (c.receiving f)
    rw [step_typing c hf, hfiled]
    show ChatModel.Tells ((if f.type = .typing then f.hint.toList else []) ++ (c.filed.drop c.filed.length).map _) _ _
    rw [if_pos hf, List.drop_length, List.map_nil, List.append_nil]
    exact htells
  · have hno : ∀ f, g = .frame f → f.type ≠ .typing := fun f he hf => htyping ⟨f, he, hf⟩
    obtain ⟨es, hfiled, htells⟩ := (step_walk c g).clears fun hk => htyping (mayChange_typing hk)
    have hbefore : (c.before g).filed = c.filed := by cases g <;> rfl
    rw [hbefore] at hfiled
    rw [model_before] at htells
    rw [hints_eq_nil hno, hfiled, List.drop_left, List.nil_append]
    exact htells

/-- **Who is shown as typing is who said so last.** -/
theorem shown_typing (gs : List Gesture) : ∀ (c : ChatController) (key : Str) (user : Json),
    (c.run gs).model.types key user =
      lastValue (Signal.about key user) Signal.on (c.model.types key user) (c.signals gs) := by
  induction gs with
  | nil => exact fun _ _ _ => rfl
  | cons g gs ih =>
    intro c key user
    show ((c.step g).run gs).model.types key user = lastValue _ _ _ (c.told g ++ (c.step g).signals gs)
    rw [ih, lastValue_append, step_tells c g key user]

end ChatController

end Ciphertext
