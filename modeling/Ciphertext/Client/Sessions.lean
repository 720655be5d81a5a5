import Ciphertext.Client.Commands
import Ciphertext.Common.Relay
import Ciphertext.Server.ContactLists
import Ciphertext.Server.Provenance

/-!
# Sessions at the console

A session is a run of the controller: every line comes to gestures, and every frame is
handed over as it came (`run_passes`), so that what holds of the controller's runs holds of
sessions. Here it is used for what the view itself does when the model changes. Drawing
those who type joins their names, which have to be strings. They are (`run_draws`), as long
as the TYPING frames say strings, and those of a server do whose users go by strings
(`Run.inbound`).
-/

namespace Ciphertext

open Act

/-! ## Lines come to gestures -/

namespace ConsoleView

variable [Crypto] [Runtime]

/-- Not a frame: those come from the connection. -/
def Own (g : ChatController.Gesture) : Prop := ∀ f, g ≠ .frame f

/-- Whatever the code does and however it ends, it passes gestures on. -/
abbrev Passes {α : Type} (m : ConsoleM α) : Prop := Steps (Acts Own) m

/-- One piece of the view's code after the other. -/
theorem passes_bind {α β : Type} {m : ConsoleM α} {f : α → ConsoleM β} (hm : Passes m) (hf : ∀ a, Passes (f a)) :
    Passes (m >>= f) := Steps.bind Acts.trans hm hf

/-- Looking at the view hands the controller nothing. -/
theorem passes_get {α : Type} {f : ConsoleView → ConsoleM α} (hf : ∀ v, Passes (f v)) : Passes (get >>= f) :=
  steps_get fun v => hf v v

theorem passes_pure {α : Type} (a : α) : Passes (pure a : ConsoleM α) := steps_pure (fun _ => Acts.of_eq rfl) a

theorem passes_throw {α : Type} (e : ClientErr) : Passes (throw e : ConsoleM α) :=
  steps_throw (fun _ => Acts.of_eq rfl) e

/-- Neither does printing. -/
theorem print_passes (text : Str) : Passes (print text) := steps_modify fun _ => Acts.of_eq rfl

/-- A gesture is handed over as it is. -/
theorem onController_passes {g : ChatController.Gesture} (hg : Own g) :
    Passes (onController (ChatController.handle g)) := by
  intro v
  rw [exec_onController]
  exact Acts.single hg rfl

/-- `/members` looks at the model. -/
theorem members_passes : Passes members := by
  refine passes_get fun v => ?_
  dsimp only
  cases v.controller.model.active with
  | none => exact print_passes _
  | some room => exact steps_ite (print_passes _) (print_passes _)

/-- `/history` is one gesture, -/
theorem history_passes : Passes history :=
  passes_get fun _ => passes_bind (onController_passes (g := .requestHistory none 50) nofun) fun _ =>
    steps_ite (print_passes _) (passes_pure _)

/-- and each of the commands about a room is one or two. -/
theorem roomCommand_passes (command room : Str) : Passes (roomCommand command room) := by
  refine steps_ite (print_passes _) (steps_ite (print_passes _) ?_)
  refine steps_ite (onController_passes (g := .createRoom room []) nofun) ?_
  refine steps_ite (onController_passes (g := .join room) nofun) ?_
  refine passes_bind (onController_passes (g := .leave room) nofun) fun _ => passes_get fun v => ?_
  exact steps_ite (onController_passes (g := .selectNone) nofun) (passes_pure _)

/-- A text is sent. -/
theorem said_passes (text : Str) : Passes (said text) := fun v => (said_exec text v).2.mono fun _ hg => hg ▸ nofun

variable [Lowercase]

/-- `/chats` looks at the model, too. -/
theorem chats_passes : Passes chats := by
  refine passes_get fun v => ?_
  dsimp only
  cases v.controller.model.keys with
  | error e => exact passes_throw _
  | ok keys =>
    refine steps_ite (print_passes _) ?_
    exact steps_forM (fun _ => Acts.of_eq rfl) Acts.trans fun key => print_passes _

/-- So does each command, as the source tells them apart. -/
theorem commanded_passes (command argument : Str) : Passes (commanded command argument) := by
  refine passes_get fun v => ?_
  refine steps_ite (steps_modify fun _ => Acts.of_eq rfl) (steps_ite (print_passes _) (steps_ite (print_passes _) ?_))
  refine steps_ite (steps_ite (print_passes _) (onController_passes (g := .select argument) nofun)) ?_
  refine steps_ite history_passes (steps_ite chats_passes (steps_ite (roomCommand_passes _ _) ?_))
  refine steps_ite (print_passes _) (steps_ite members_passes ?_)
  exact steps_ite (onController_passes (g := .typing _) nofun) (print_passes _)

/-- **A line comes to gestures.** -/
theorem typed_passes (line : Str) : Passes (typed line) :=
  steps_ite (passes_pure _) (steps_ite (said_passes _) (commanded_passes _ _))

/-- A gesture of the view's own, or a frame that came in. -/
def Arrived (g : ChatController.Gesture) : Prop := ∀ f, g = .frame f → ∃ i : Inbound, i.frame = f

/-- The same of a round, whatever is handled. -/
theorem step_passes (v : ConsoleView) (item : Item) : Acts Arrived v (v.step item) := by
  cases item with
  | frame f =>
    refine Acts.single (g := .frame f.frame) ?_ (step_frame v f)
    intro g hg
    exact ⟨f, ChatController.Gesture.frame.inj hg⟩
  | state s => exact Acts.single (g := .state s) nofun (step_state v s)
  | input line =>
    obtain ⟨gs, hgs, hrun⟩ := typed_passes line.text v
    refine ⟨gs, ?_, (step_controller ..).trans hrun⟩
    intro g hg f hf
    exact absurd hf (hgs g hg f)

/-- **A session is a run of the controller.** -/
theorem run_passes (items : List Item) : ∀ v : ConsoleView, Acts Arrived v (v.run items) := by
  induction items with
  | nil => exact fun _ => Acts.of_eq rfl
  | cons item items ih =>
    intro v
    show Acts _ v (if (v.step item).running then (v.step item).run items else v.step item)
    have hstep := step_passes v item
    split
    · exact hstep.trans _ _ _ (ih _)
    · exact hstep

end ConsoleView

/-! ## Who types -/

namespace ChatModel

/-- Whoever types goes by a string. -/
def Named (m : ChatModel) : Prop := ∀ key, ∀ user ∈ m.who key, ∃ name, user = .str name

/-- It is about who types and about nothing else. -/
theorem Named.of_typing {m m' : ChatModel} (h : m.Named) (ht : m'.typing = m.typing) : m'.Named := by
  unfold Named who
  rw [ht]
  exact h

/-- A string goes in; whatever is taken out. -/
theorem setTyping_named {m : ChatModel} (h : m.Named) (key : Str) {user : Json} {on : Bool}
    (huser : on = true → ∃ name, user = .str name) : (m.setTyping key user on).1.Named := by
  have hinsert : ∀ who, (∀ v ∈ who, ∃ name, v = Json.str name) →
      (m.setTyping key user on).1.typing = PyDict.insert m.typing key who → (m.setTyping key user on).1.Named := by
    intro who hwho htyping key' v hv
    unfold ChatModel.who at hv
    rw [htyping] at hv
    by_cases hkey : key' = key
    · subst hkey
      rw [PyDict.get_insert_self] at hv
      exact hwho v hv
    · rw [PyDict.get_insert_ne _ _ hkey] at hv
      exact h key' v hv
  refine hinsert _ ?_ (typing_of_setTyping m key user on)
  intro v hv
  split at hv
  · exact h key v hv
  · split at hv
    next hon =>
      split at hv
      · exact h key v hv
      · cases List.mem_append.mp hv with
        | inl hmem => exact h key v hmem
        | inr hmem => exact List.mem_singleton.mp hmem ▸ huser hon
    next => exact h key v (List.mem_of_mem_filter hv)

/-- Names that are drawn are joined without ado. -/
theorem renderTyping_ok {m : ChatModel} (h : m.Named) {conversation : Str} {users : List Json}
    (husers : ∀ user ∈ users, user ∈ m.who conversation) : ∃ r, m.renderTyping conversation users = .ok r := by
  have hall : ∀ users : List Json, (∀ user ∈ users, ∃ name, user = .str name) →
      ∃ names, users.mapM Json.asStr = some names := by
    intro users
    induction users with
    | nil => exact fun _ => ⟨[], rfl⟩
    | cons user users ih =>
      intro hnamed
      obtain ⟨name, rfl⟩ := hnamed user (List.mem_cons_self ..)
      obtain ⟨names, hnames⟩ := ih fun v hv => hnamed v (List.mem_cons_of_mem _ hv)
      refine ⟨name :: names, ?_⟩
      rw [List.mapM_cons, hnames]
      rfl
  obtain ⟨names, hnames⟩ := hall users fun user hu => h conversation user (husers user hu)
  unfold renderTyping
  rw [hnames]
  split
  · exact ⟨_, rfl⟩
  · exact ⟨_, rfl⟩

section Changes

variable [Runtime]

/-- But for a TYPING frame, nobody starts to type. -/
theorem changed_named {k : Kind} {m m' : ChatModel} (hchange : Change k m m') (hk : k ≠ .typing) (h : m.Named) :
    m'.Named := by
  by_cases hf : k = .filing
  · subst hf
    cases hchange with
    | @filing _ key message hmine =>
      have hset : (m.setTyping key message.sender false).1.Named := setTyping_named h key nofun
      exact hset.of_typing (typing_addMessage m key hmine)
  · exact h.of_typing (ChatController.changed_typing hchange hk hf)

end Changes

end ChatModel

namespace ChatController

variable [Crypto] [Runtime]

omit [Crypto] [Runtime] in
/-- The change that a TYPING frame makes. -/
theorem incomingTyping_named {f : Frame} {name : Str} (hname : f.sender = .str name) :
    Steps (fun c c' : ChatController => c.model.Named → c'.model.Named) (incomingTyping f) := by
  have hsame : ∀ c : ChatController, c.model.Named → c.model.Named := fun _ h => h
  have hroom : Steps (fun c c' : ChatController => c.model.Named → c'.model.Named)
      (startsRoom (f.target.orElse (.str []))) := by
    cases f.target.orElse (.str []) with
    | str s => exact steps_pure hsame _
    | _ => exact steps_throw hsame _
  refine steps_ite (steps_pure hsame _) (Steps.bind (fun _ _ _ h h' hn => h' (h hn)) hroom fun room => ?_)
  dsimp only
  split
  · intro c h
    rw [exec_onModel']
    exact ChatModel.setTyping_named h _ fun _ => ⟨name, hname⟩
  · exact steps_ite (steps_pure hsame _) (steps_throw hsame _)

/-- An input puts nothing else in, if a TYPING frame says a string. -/
theorem step_named {c : ChatController} (h : c.model.Named) {g : Gesture} (hg : ConsoleView.Arrived g) :
    (c.step g).model.Named := by
  by_cases htyping : ∃ f, g = .frame f ∧ f.type = .typing
  · obtain ⟨f, rfl, ht⟩ := htyping
    obtain ⟨i, rfl⟩ := hg f rfl
    obtain ⟨name, hname⟩ := i.named ht
    have hstep : c.step (.frame i.frame) = (Act.exec (incomingTyping i.frame) (c.receiving i.frame)).2 := by
      apply step_frame c
      unfold onFrame
      rw [ht]
      rfl
    rw [hstep]
    exact incomingTyping_named hname _ h
  · have hkind : ∀ k ∈ g.mayChange, k ≠ .typing := by
      intro k hk he
      subst he
      obtain ⟨f, rfl, hf⟩ := mayChange_frame hk (by simp)
      refine htyping ⟨f, rfl, ?_⟩
      revert hf
      cases f.type <;> simp [frameKinds]
    have hlift : c.model.Named → (c.step g).model.Named :=
      step_lift c (R := fun m m' => m.Named → m'.Named) (fun _ h => h) (fun _ _ _ h h' hn => h' (h hn))
        fun k hk _ _ hchange => ChatModel.changed_named hchange (hkind k hk)
    exact hlift h

/-- Neither does a run. -/
theorem run_named (gs : List Gesture) : ∀ {c : ChatController}, c.model.Named →
    (∀ g ∈ gs, ConsoleView.Arrived g) → (c.run gs).model.Named := by
  induction gs with
  | nil => exact fun h _ => h
  | cons g gs ih =>
    intro c h hgs
    exact ih (step_named h (hgs g (List.mem_cons_self ..))) fun g' hg' => hgs g' (List.mem_cons_of_mem _ hg')

end ChatController

/-- **Drawing those who type raises nothing**, in every state of a session. -/
theorem ConsoleView.run_draws [Crypto] [Runtime] [Lowercase] {v : ConsoleView} (h : v.controller.model.Named)
    (items : List Item) {conversation : Str} {users : List Json}
    (husers : ∀ user ∈ users, user ∈ (v.run items).controller.model.who conversation) :
    ∃ r, (v.run items).controller.model.renderTyping conversation users = .ok r := by
  obtain ⟨gs, hgs, hrun⟩ := v.run_passes items
  apply ChatModel.renderTyping_ok _ husers
  rw [hrun]
  exact ChatController.run_named gs h hgs

/-! ## What a server sends -/

section Server

variable [Runtime] {cfg : Config} {w₀ w : World} {tr : List Step}

/-- What can be encoded has no lone surrogate in its data. -/
theorem data_encodable (hfloats : Json.FloatsEncodable) {f : Frame} {wire : List UInt8}
    (h : encode f = .ok (wire ++ [delimiter])) : (Json.dict f.data).encodable = true := by
  obtain ⟨d, hd, htext, -⟩ := encode_cases h
  rw [Json.text_encodable hfloats] at htext
  unfold Frame.toDict at hd
  split at hd
  · cases hd
  · obtain rfl := Except.ok.inj hd
    apply Json.encodable_dict.mpr
    intro kv hkv
    exact Json.encodable_dict.mp htext kv (List.mem_append_right _ hkv)

/-- What a step sends can be taken by the view, if it can be written. -/
theorem Step.inbound (hfloats : Json.FloatsEncodable) (hw : Strung w) {i : Input} {d : Delivery}
    (h : d ∈ (Step.of cfg w i).out) {wire : List UInt8} (hwire : encode d.frame = .ok (wire ++ [delimiter])) :
    ∃ f : ConsoleView.Inbound, f.frame = d.frame := by
  refine ⟨⟨d.frame, ?_, data_encodable hfloats hwire⟩, rfl⟩
  intro ht
  obtain ⟨s, f, -, -, hsender⟩ := Step.typing_sender h ht
  exact hw s _ hsender

/-- **What a server sends comes in**: whoever logs in goes by a string, so that every
frame of the run that can be written is one that the view takes. -/
theorem Run.inbound (hfloats : Json.FloatsEncodable) (h : Run cfg w₀ tr w) (hw : Strung w₀)
    (hby : ∀ st ∈ tr, ByString st.before st.input) :
    Strung w ∧ ∀ st ∈ tr, ∀ d ∈ st.out, ∀ wire, encode d.frame = .ok (wire ++ [delimiter]) →
      ∃ f : ConsoleView.Inbound, f.frame = d.frame := by
  induction h with
  | nil =>
    refine ⟨hw, ?_⟩
    intro st hst
    cases hst
  | @snoc tr w h i ih =>
    obtain ⟨hstrung, hsent⟩ := ih fun st hst => hby st (List.mem_append_left _ hst)
    have hlast : ByString w i := hby (Step.of cfg w i) (List.mem_append_right _ (List.mem_singleton_self _))
    refine ⟨step_strung hstrung hlast, ?_⟩
    intro st hst d hd wire hwire
    cases List.mem_append.mp hst with
    | inl hold => exact hsent st hold d hd wire hwire
    | inr hnew =>
      rw [List.mem_singleton.mp hnew] at hd
      exact Step.inbound hfloats hstrung hd hwire

end Server

end Ciphertext
