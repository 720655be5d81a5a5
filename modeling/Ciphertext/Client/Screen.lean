import Ciphertext.Client.Changes
import Ciphertext.Client.KeyReleases

/-!
# What is on screen

The part of `im/client/view/tk/app.py` that draws a conversation. `_render` is the
model's listener: some events make it draw, and it draws whatever is active at that
moment. What a controller's inputs do to the screen is therefore read off the events
they emit, each with what the model held at that moment.

Drawing can raise, and then the exception leaves the model's method half done, with the
old conversation on screen. `_draw_header` raises for a conversation whose name has no
encoding and for somebody typing there whose name is no text (`drawHeader_eq_ok`). A run
of the screen ends there.

`active` and the screen go together (`Walk.follows`) as long as nobody sets `active`
without saying so. `_release` does: it borrows `active` while it sends what was held,
each message sent is drawn in the borrowed conversation, and the old one is put back
behind the view's back. `run_agrees` says when this does not show: nothing that is drawn
raises, and each `_release` is `Discreet`.

`opened_agrees` is the result from the moment the window is built: whatever is active is
what is drawn. In `typedAndTurned` it is not, since a text is released to `b` after the
user has turned to somebody else.
-/

namespace Ciphertext

open Act

/-- The widgets the repository puts on screen beside the header, in `widgets.py`: whether
drawing them returns depends on Tk and on the dates the platform can show. -/
class Canvas where
  /-- `_refresh_list`: a row for each conversation -/
  rows : ChatModel.Fields → Except PyErr Unit
  /-- `Transcript.redraw`: a bubble for each message -/
  bubbles : List Message → Except PyErr Unit

/-- The part of `TkView` that is about the transcript. -/
structure TkView where
  /-- The conversation `_redraw` has drawn last -/
  drawn : Option Str
deriving DecidableEq

namespace TkView

/-- `draw_avatar`, which picks a colour from the bytes of the name. -/
def drawAvatar (name : Str) : Except PyErr Unit := if name.encodable then .ok () else .error .unicodeEncodeError

/-- `typing_in`, before it is sorted. -/
def typing (p : ChatModel.Fields) (active : Str) : List Json := (PyDict.get p.typing active).getD []

/-- `_draw_header`, in a window that is open. The names of those who type are sorted, and
joined if there are any. -/
def drawHeader (p : ChatModel.Fields) : Except PyErr Unit :=
  match p.active with
  | none => .ok ()
  | some active => do
    drawAvatar active
    if !Json.sortable (typing p active) then throw .typeError
    if (typing p active).any fun v => v.asStr.isNone then throw .typeError

/-- The active conversation has a name that can be encoded, and those who type there have
names that are text. -/
def Titled (p : ChatModel.Fields) : Prop :=
  ∀ active ∈ p.active, active.encodable = true ∧ ∀ v ∈ typing p active, ∃ name, v = .str name

/-- **When the header can be drawn.** -/
theorem drawHeader_eq_ok {p : ChatModel.Fields} : drawHeader p = .ok () ↔ Titled p := by
  unfold drawHeader Titled
  cases p.active with
  | none => exact iff_of_true rfl nofun
  | some active =>
    dsimp only
    have htext : (∀ v ∈ typing p active, ∃ name, v = .str name) ↔
        ((typing p active).any fun v => v.asStr.isNone) = false := by
      rw [List.any_eq_false]
      refine forall₂_congr fun v _ => ?_
      cases v <;> simp [Json.asStr]
    -- names that are text can be sorted
    have hsort : (∀ v ∈ typing p active, ∃ name, v = .str name) → Json.sortable (typing p active) = true := by
      intro h
      have hall : ((typing p active).all fun v => v.asStr.isSome) = true := by
        rw [List.all_eq_true]
        intro v hv
        obtain ⟨name, rfl⟩ := h v hv
        rfl
      simp [Json.sortable, hall]
    simp only [Option.mem_def, Option.some.injEq, forall_eq']
    unfold drawAvatar
    by_cases hname : active.encodable = true
    · by_cases ht : ∀ v ∈ typing p active, ∃ name, v = .str name
      · refine iff_of_true ?_ ⟨hname, ht⟩
        rw [if_pos hname, hsort ht, htext.mp ht]
        rfl
      · refine iff_of_false ?_ fun h => ht h.2
        rw [if_pos hname, Bool.eq_true_of_not_eq_false fun h => ht (htext.mpr h)]
        cases Json.sortable (typing p active) with
        | true => exact nofun
        | false => exact nofun
    · refine iff_of_false ?_ fun h => hname h.1
      rw [if_neg hname]
      exact nofun

/-- Somebody types whose name is a number. -/
example : drawHeader { active := some "b", typing := [("b", [.int 5])] } = .error .typeError := by decide

section Drawing

variable [Canvas]

/-- `_redraw`. -/
def redraw (p : ChatModel.Fields) : Except PyErr Unit := do
  drawHeader p
  Canvas.bubbles (match p.active with
    | none => []
    | some active => ((PyDict.get p.conversations active).getD {}).messages)

/-- What `_render` draws, when the event comes in at this moment. A notice only draws
again the bubbles that are there. -/
def draw (e : ChatModel.Event × ChatModel.Fields) : Except PyErr Unit :=
  match e.1 with
  | .messageAdded conversation => do
    if some conversation = e.2.active then redraw e.2
    Canvas.rows e.2
  | .receiptChanged conversation => if some conversation = e.2.active then redraw e.2 else pure ()
  | .conversationSelected _ => do redraw e.2; Canvas.rows e.2
  | .historyLoaded _ => do redraw e.2; Canvas.rows e.2
  | .unreadChanged _ _ => Canvas.rows e.2
  | .roomMembersChanged _ => Canvas.rows e.2
  | .rosterReplaced => Canvas.rows e.2
  | .presenceChanged _ _ => do Canvas.rows e.2; drawHeader e.2
  | .typingChanged _ => drawHeader e.2
  | .connectionStateChanged _ => drawAvatar (e.2.username.getD "…")
  | .contactsChanged => Canvas.rows e.2
  | .identityEstablished _ => pure ()

/-- Whether it calls `_redraw`. -/
def redraws (active : Option Str) : ChatModel.Event → Bool
  | .messageAdded conversation => some conversation = active
  | .receiptChanged conversation => some conversation = active
  | .conversationSelected _ => true
  | .historyLoaded _ => true
  | _ => false

/-- `_render`, as far as it returns. -/
def render (v : TkView) (e : ChatModel.Event × ChatModel.Fields) : Except PyErr TkView := do
  draw e
  return if redraws e.2.active e.1 then ⟨e.2.active⟩ else v

theorem render_drawn {v v' : TkView} {e : ChatModel.Event × ChatModel.Fields} (h : v.render e = .ok v') :
    v' = if redraws e.2.active e.1 then ⟨e.2.active⟩ else v := by
  unfold render at h
  cases hd : draw e with
  | error err =>
    rw [hd] at h
    cases h
  | ok u =>
    rw [hd] at h
    exact (Except.ok.inj h).symm

/-- What can all be drawn is drawn. -/
theorem foldlM_draws {es : List (ChatModel.Event × ChatModel.Fields)} (h : ∀ e ∈ es, draw e = .ok ()) :
    ∀ v : TkView, ∃ v', es.foldlM render v = .ok v' := by
  induction es with
  | nil => exact fun v => ⟨v, rfl⟩
  | cons e es ih =>
    intro v
    have hfirst : v.render e = .ok (if redraws e.2.active e.1 then ⟨e.2.active⟩ else v) := by
      unfold render
      rw [h e (List.mem_cons_self ..)]
      rfl
    rw [List.foldlM_cons, hfirst]
    exact ih (fun e' he => h e' (List.mem_cons_of_mem _ he)) _

/-- Events from one and the same screen leave it there. -/
theorem foldlM_render {es : List (ChatModel.Event × ChatModel.Fields)} {active : Option Str}
    (h : ∀ e ∈ es, e.2.active = active) :
    ∀ {v v' : TkView}, v.drawn = active → es.foldlM render v = .ok v' → v'.drawn = active := by
  induction es with
  | nil =>
    intro v v' hv hrun
    obtain rfl := Except.ok.inj hrun
    exact hv
  | cons e es ih =>
    intro v v' hv hrun
    rw [List.foldlM_cons] at hrun
    cases hfirst : v.render e with
    | error err =>
      rw [hfirst] at hrun
      cases hrun
    | ok b =>
      rw [hfirst] at hrun
      refine ih (fun e' he => h e' (List.mem_cons_of_mem _ he)) ?_ hrun
      rw [render_drawn hfirst]
      split
      · exact h e (List.mem_cons_self ..)
      · exact hv

end Drawing

end TkView

/-- A controller and the view on its model. -/
structure Screen where
  controller : ChatController
  view : TkView

namespace Screen

/-- `run` has drawn once. -/
def opened (c : ChatController) : Screen := ⟨c, ⟨c.model.active⟩⟩

/-- What is drawn is what is active. -/
def Agrees (s : Screen) : Prop := s.view.drawn = s.controller.model.active

instance (s : Screen) : Decidable s.Agrees := inferInstanceAs (Decidable (_ = _))

variable [Crypto] [Runtime] [Canvas]

/-- One input: the view hears what the model emits meanwhile. Where drawing raises, what
is left of the input is not done; the run is followed no further. -/
def step (s : Screen) (g : ChatController.Gesture) : Except PyErr Screen := do
  let c := s.controller.step g
  let view ← (c.model.emitted.drop s.controller.model.emitted.length).foldlM TkView.render s.view
  return ⟨c, view⟩

def run (s : Screen) (gs : List ChatController.Gesture) : Except PyErr Screen := gs.foldlM step s

end Screen

/-! ## What is emitted -/

namespace ChatModel

/-- Events have been emitted that leave a view on `active` there. -/
def Follows [Canvas] (m m' : ChatModel) : Prop :=
  ∃ es, m'.emitted = m.emitted ++ es ∧
    ∀ v v' : TkView, v.drawn = m.active → es.foldlM TkView.render v = .ok v' → v'.drawn = m'.active

theorem Follows.refl [Canvas] (m : ChatModel) : m.Follows m := by
  refine ⟨[], (List.append_nil _).symm, fun v v' h hrun => ?_⟩
  obtain rfl := Except.ok.inj hrun
  exact h

theorem Follows.trans [Canvas] (m₁ m₂ m₃ : ChatModel) (h : m₁.Follows m₂) (h' : m₂.Follows m₃) : m₁.Follows m₃ := by
  obtain ⟨es, hes, hv⟩ := h
  obtain ⟨es', hes', hv'⟩ := h'
  refine ⟨es ++ es', by rw [hes', hes, List.append_assoc], fun v v' h hrun => ?_⟩
  rw [List.foldlM_append] at hrun
  cases hfirst : es.foldlM TkView.render v with
  | error e =>
    rw [hfirst] at hrun
    cases hrun
  | ok b =>
    rw [hfirst] at hrun
    exact hv' b v' (hv v b h hfirst) hrun

/-- The same with one conversation active all the time. -/
def Stays (m m' : ChatModel) : Prop :=
  m'.active = m.active ∧ ∃ es, m'.emitted = m.emitted ++ es ∧ ∀ e ∈ es, e.2.active = m.active

theorem Stays.refl (m : ChatModel) : m.Stays m := ⟨rfl, [], (List.append_nil _).symm, nofun⟩

theorem Stays.trans (m₁ m₂ m₃ : ChatModel) (h : m₁.Stays m₂) (h' : m₂.Stays m₃) : m₁.Stays m₃ := by
  obtain ⟨hactive, es, hes, hsame⟩ := h
  obtain ⟨hactive', es', hes', hsame'⟩ := h'
  refine ⟨hactive'.trans hactive, es ++ es', by rw [hes', hes, List.append_assoc], fun e he => ?_⟩
  cases List.mem_append.mp he with
  | inl he => exact hsame e he
  | inr he => exact (hsame' e he).trans hactive

theorem Stays.follows [Canvas] {m m' : ChatModel} (h : m.Stays m') : m.Follows m' := by
  obtain ⟨hactive, es, hes, hsame⟩ := h
  refine ⟨es, hes, fun v v' hv hrun => ?_⟩
  rw [hactive]
  exact TkView.foldlM_render hsame hv hrun

theorem stays_emit {m m' : ChatModel} (hactive : m'.active = m.active) (hemitted : m'.emitted = m.emitted)
    (es : List Event) : m.Stays (m'.emit es) := by
  refine ⟨hactive, es.map fun e => (e, m'.toFields), congrArg (· ++ _) hemitted, fun e he => ?_⟩
  obtain ⟨x, -, rfl⟩ := List.mem_map.mp he
  exact hactive

theorem setTyping_active (m : ChatModel) (key : Str) (user : Json) (on : Bool) :
    (m.setTyping key user on).1.active = m.active := by
  obtain ⟨typing, es, hset, -⟩ := setTyping_eq m key user on
  rw [hset]
  rfl

theorem stays_setTyping (m : ChatModel) (key : Str) (user : Json) (on : Bool) : m.Stays (m.setTyping key user on).1 := by
  obtain ⟨typing, es, hset, -⟩ := setTyping_eq m key user on
  rw [hset]
  exact stays_emit rfl rfl es

theorem stays_addMessage (m : ChatModel) (key : Str) (message : Message) : m.Stays (m.addMessage key message).1 := by
  obtain ⟨⟨es, hes⟩, -⟩ := m.addMessage_added key message
  rw [hes]
  have hadded : m.Stays (m.added key message).1 := by
    unfold added
    dsimp only
    split
    · exact ⟨rfl, [], (List.append_nil _).symm, nofun⟩
    · exact stays_setTyping _ key message.sender false
  exact hadded.trans _ _ _ (stays_emit rfl rfl es)

variable [Runtime]

theorem stays_replaceContacts {m m' : ChatModel} {entries : List Json} (h : m.replaceContacts entries = .ok m') :
    m.Stays m' := by
  obtain ⟨contacts, roster, es, rfl, -⟩ := replaceContacts_cases h
  exact stays_emit rfl rfl es

/-- **Every change but borrowing** is one the view follows. -/
theorem follows_of_change [Canvas] {k : Kind} (hk : k ≠ .borrowing) {m m' : ChatModel} (h : Change k m m') :
    m.Follows m' := by
  cases h with
  | borrowing => exact absurd rfl hk
  | identity _ username => exact (stays_emit rfl rfl _).follows
  | connection _ state => exact (stays_emit rfl rfl _).follows
  | roster _ users => exact (stays_emit rfl rfl _).follows
  | presence _ user online => exact (stays_emit rfl rfl _).follows
  | contacts h => exact (stays_replaceContacts h).follows
  | typing _ key user on => exact (stays_setTyping m key user on).follows
  | message _ key _ => exact (stays_addMessage m key _).follows
  | filing _ key _ => exact (stays_addMessage m key _).follows
  | history _ key messages => exact (stays_emit rfl rfl _).follows
  | receipt _ key id state =>
    unfold setReceipt
    cases PyDict.get m.conversations key with
    | none => exact .refl m
    | some c => exact (stays_emit rfl rfl _).follows
  | selection _ key =>
    -- the view draws what has become active
    refine ⟨_, rfl, fun v v' _ hrun => ?_⟩
    rw [List.map_cons, List.foldlM_cons] at hrun
    cases hfirst : v.render (.conversationSelected (some key), _) with
    | error e =>
      rw [hfirst] at hrun
      cases hrun
    | ok b =>
      rw [hfirst] at hrun
      refine TkView.foldlM_render (fun e he => ?_) (by rw [TkView.render_drawn hfirst]; rfl) hrun
      obtain ⟨x, -, rfl⟩ := List.mem_map.mp he
      rfl
  | deselection =>
    refine ⟨_, rfl, fun v v' _ hrun => ?_⟩
    have hrender : v.render (.conversationSelected none, _) = .ok v' := (bind_pure _).symm.trans hrun
    rw [TkView.render_drawn hrender]
    rfl
  | members _ room names =>
    obtain ⟨rooms, conversations, es, hset, -⟩ := setRoomMembers_eq m room names
    rw [hset]
    exact (stays_emit rfl rfl es).follows

end ChatModel

namespace ChatController

variable [Runtime] [Crypto] {c c' : ChatController} {k : Keyring} {target : Str}

omit [Crypto] in
/-- **Whatever does not borrow `active`** leaves the view on it. -/
theorem Moved.follows [Canvas] {kinds : List Kind} (h : Moved kinds c c') (hkinds : .borrowing ∉ kinds) : c.model.Follows c'.model :=
  h.lift ChatModel.Follows.refl ChatModel.Follows.trans fun _ hk _ _ hchange =>
    ChatModel.follows_of_change (fun he => hkinds (he ▸ hk)) hchange

/-- Calls and frames come after those there were. -/
theorem Walk.trace {kinds : List Kind} {pairs : List (Str × Str)} (h : Walk kinds pairs c c') :
    ∃ es, c'.trace = c.trace ++ es := by
  refine h.lift (R := fun c c' => ∃ es, c'.trace = c.trace ++ es) (fun c => ⟨[], (List.append_nil _).symm⟩) ?_ ?_
  · intro a b c h h'
    obtain ⟨es, hes⟩ := h
    obtain ⟨es', hes'⟩ := h'
    exact ⟨es ++ es', by rw [hes', hes, List.append_assoc]⟩
  · intro c c' h
    cases h with
    | called c hx => exact ⟨_, rfl⟩
    | selected hk c key =>
      obtain ⟨xs, hselect, -⟩ := exec_select key c
      rw [hselect]
      exact ⟨_, rfl⟩
    | filed hk c f key body ts =>
      rw [exec_addFrame]
      exact ⟨[], (List.append_nil _).symm⟩
    | _ => exact ⟨[], (List.append_nil _).symm⟩

/-! ## Sending -/

/-- A message has got through. -/
def Through (c c' : ChatController) : Prop :=
  ∃ es x, c'.trace = c.trace ++ es ∧ .called x true ∈ es ∧ x.addressee ≠ none

/-- A stamp is returned only where one has. -/
abbrev Stamped (c : ChatController) (r : Option (Str × Int)) (c' : ChatController) : Prop := r.isSome = true → Through c c'

omit [Runtime] [Crypto] in
theorem through_message (target body : Str) (nonce : Option Str) (envelopes : List (Str × Str × Str)) (b : ChatController)
    (hb : ∃ es, b.trace = c.trace ++ es) :
    Ends (do return some (← call (.message target body nonce envelopes))) b (Stamped c) fun _ _ => True := by
  obtain ⟨es, hes⟩ := hb
  unfold Ends
  rw [exec_bind, exec_call]
  cases hup : b.connection b.trace.length with
  | none => trivial
  | some stamp =>
    intro _
    refine ⟨es ++ [.called (.message target body nonce envelopes) true], _, ?_,
      List.mem_append_right _ (List.mem_singleton_self _), nofun⟩
    show b.trace ++ [.called _ (b.connection b.trace.length).isSome] = _
    rw [hup, hes, List.append_assoc]
    rfl

omit [Runtime] [Crypto] in
theorem stamped_hold (target text : Str) (fetch : List Str) (b : ChatController) :
    Ends (do
      hold target text fetch
      return none) b (Stamped c) fun _ _ => True :=
  ((ends_exec (hold target text fetch) b).mono (fun _ _ h => h) fun _ _ _ => trivial).bind fun _ _ _ => nofun

omit [Runtime] in
theorem transmit_stamped (target text me : Str) (c : ChatController) :
    Ends (transmit target text me) c (Stamped c) fun _ _ => True := by
  -- what a keyring method leaves
  have hkeyring : ∀ {α : Type} {m : Keyring.KeyringM α} {k : Keyring} {f : α → ClientM (Option (Str × Int))},
      (∀ a k', Ends (f a) { c with keyring := some k' } (Stamped c) fun _ _ => True) →
      Ends (onKeyring k m >>= f) c (Stamped c) fun _ _ => True := by
    intro α m k f hf
    refine ((ends_onKeyring (ends_exec m k)).mono (fun _ _ h => h) fun _ _ _ => trivial).bind fun a c' h => ?_
    obtain ⟨k', rfl, -⟩ := h
    exact hf a k'
  have hgrown : ∀ k', ∃ es, ({ c with keyring := some k' } : ChatController).trace = c.trace ++ es :=
    fun _ => ⟨[], (List.append_nil _).symm⟩
  refine ends_get ?_
  cases c.keyring with
  | none => exact through_message target text none [] c ⟨[], (List.append_nil _).symm⟩
  | some k =>
    dsimp only
    by_cases hroom : target.isRoom = true
    · rw [if_pos hroom]
      refine ends_get ?_
      dsimp only
      split
      · exact stamped_hold target text _ c
      · refine hkeyring fun envelopes k' => ?_
        cases envelopes with
        | none => exact stamped_hold target text _ _
        | some envelopes => exact through_message target [] none envelopes _ (hgrown k')
    · rw [if_neg hroom]
      refine hkeyring fun sealed k' => ?_
      cases sealed with
      | none => exact stamped_hold target text _ _
      | some sealed => exact through_message target sealed.1 (some sealed.2) [] _ (hgrown k')

/-- The view has been told nothing, unless a message has got through. -/
structure Said (c c' : ChatController) : Prop where
  stays : c.model.Stays c'.model
  grown : ∃ es, c'.trace = c.trace ++ es
  through : c'.model.emitted ≠ c.model.emitted → Through c c'

omit [Runtime] [Crypto] in
theorem Said.refl (c : ChatController) : Said c c := ⟨.refl _, ⟨[], (List.append_nil _).symm⟩, fun h => absurd rfl h⟩

omit [Runtime] [Crypto] in
theorem Said.trans (a b c : ChatController) (h : Said a b) (h' : Said b c) : Said a c := by
  obtain ⟨es, hes⟩ := h.grown
  obtain ⟨es', hes'⟩ := h'.grown
  refine ⟨h.stays.trans _ _ _ h'.stays, ⟨es ++ es', by rw [hes', hes, List.append_assoc]⟩, fun hne => ?_⟩
  by_cases hfirst : b.model.emitted = a.model.emitted
  · obtain ⟨xs, x, hxs, hx, hmessage⟩ := h'.through fun he => hne (he.trans hfirst)
    exact ⟨es ++ xs, x, by rw [hxs, hes, List.append_assoc], List.mem_append_right _ hx, hmessage⟩
  · obtain ⟨xs, x, hxs, hx, hmessage⟩ := h.through hfirst
    exact ⟨xs ++ es', x, by rw [hes', hxs, List.append_assoc], List.mem_append_left _ hx, hmessage⟩

theorem send_said (text : Str) : Steps Said (send text) := by
  refine steps_get fun c => ?_
  cases hactive : c.model.active with
  | none => exact .refl c
  | some target =>
    dsimp only
    split
    · exact .refl c
    · show Said c (exec (get >>= _) c).2
      rw [exec_bind, exec_get]
      dsimp only
      rw [exec_bind]
      have hwalk : Walk [] [] c (exec (transmit target text c.me) c).2 := transmit_moves target text c
      have hstamped := transmit_stamped target text c.me c
      unfold Ends at hstamped
      -- the message is shown only if it has got through
      rcases hrun : exec (transmit target text c.me) c with ⟨e | stamp, b⟩
      · rw [hrun] at hwalk
        have hsame := hwalk.moved.eq_of_nil
        exact ⟨hsame ▸ .refl _, hwalk.trace, fun hne => absurd (congrArg ChatModel.emitted hsame) hne⟩
      · rw [hrun] at hwalk hstamped
        have hsame := hwalk.moved.eq_of_nil
        have hnothing : Said c b :=
          ⟨hsame ▸ .refl _, hwalk.trace, fun hne => absurd (congrArg ChatModel.emitted hsame) hne⟩
        cases stamp with
        | none => exact hnothing
        | some stamp =>
          have hthrough : Through c b := hstamped rfl
          dsimp only
          rw [exec_onModel']
          exact ⟨hnothing.stays.trans _ _ _ (ChatModel.stays_addMessage _ _ _), hnothing.grown, fun _ => hthrough⟩

/-! ## Releasing -/

/-- Another conversation was active meanwhile: what has been emitted is from there, and
only because a message got through. -/
structure Lent (other : Str) (c c' : ChatController) : Prop where
  active : c'.model.active = c.model.active
  emitted : ∃ es, c'.model.emitted = c.model.emitted ++ es ∧ (∀ e ∈ es, e.2.active = some other) ∧ (es ≠ [] → Through c c')

theorem release_lent (target : Str) (c : ChatController) : Lent target c (exec (release target) c).2 := by
  have hlent : ∀ b, Said ((c.popped target).showing (some target)) b → Lent target c (b.showing c.model.active) := by
    intro b h
    obtain ⟨-, es, hes, hsame⟩ := h.stays
    refine ⟨rfl, es, hes, hsame, fun hne => ?_⟩
    have hmore : b.model.emitted ≠ ((c.popped target).showing (some target)).model.emitted := by
      rw [hes]
      exact fun he => hne (List.append_right_eq_self.mp he)
    exact h.through hmore
  have hsaid : Steps Said ((c.texts target).forM send) := steps_forM Said.refl Said.trans fun text => send_said text
  refine Ends.final (release_rule (fun _ => ?_) ?_)
  · exact ⟨rfl, [], (List.append_nil _).symm, nofun, fun h => absurd rfl h⟩
  · exact ((hsaid.ends _).mono (fun _ => hlent) fun _ => hlent)

/-- The first text held for the target does not get as far as the model: there is none
but blank ones, the connection does not take it, a key is missing for it or it cannot be
sealed. -/
def Stuck (c : ChatController) (target : Str) : Prop :=
  typed (c.texts target) = [] ∨ c.connection c.trace.length = none ∨ ∃ k, c.keyring = some k ∧
    (k.missingKeys (c.needs target) ≠ [] ∨ ∀ text ∈ (typed (c.texts target)).head?, ¬ c.Seals k target text)

/-- Releasing the target now shows nothing that is not on screen: it is active itself, or
none of its texts gets as far as the model. -/
def Discreet (c : ChatController) (target : Str) : Prop := c.model.active = some target ∨ c.Stuck target

omit [Runtime] in
/-- What stands in the way of the first text stands in the way of all. -/
theorem Released.stuck {xs : List (Call × Bool)} (h : c.Released k target xs c') (hk : c.keyring = some k)
    (hd : c.Stuck target) : ∀ x ∈ xs, x.2 = true → x.1.addressee = none := by
  intro x hx hup
  by_cases hready : k.missingKeys (c.needs target) = []
  · have hover := (h.ready hready).2
    unfold Stuck at hd
    generalize typed (c.texts target) = texts at hover hd
    exfalso
    cases hover with
    | done => cases hx
    | lost hseals hdown hc =>
      rw [List.mem_singleton.mp hx] at hup
      cases hup
    | raised => cases hx
    | through hseals hfirst =>
      -- the first one was sealed, and the connection took it
      rcases hd with hd | hd | hd
      · cases hd
      · rw [hd] at hfirst
        cases hfirst
      · obtain ⟨k', hk', hd⟩ := hd
        obtain rfl := Option.some.inj (hk.symm.trans hk')
        cases hd with
        | inl hmissing => exact hmissing hready
        | inr hbad => exact hbad _ rfl hseals
  · exact (h.waits hready).1 x hx

theorem release_stays (hk : c.keyring = some k) (hs : k.Consistent) (hd : c.Discreet target) :
    c.model.Stays (exec (release target) c).2.model := by
  obtain ⟨hactive, es, hes, hother, hthrough⟩ := release_lent target c
  refine ⟨hactive, es, hes, ?_⟩
  by_cases hon : c.model.active = some target
  · exact fun e he => (hother e he).trans hon.symm
  · have hreleased : ∃ xs, c.Released k target xs (exec (release target) c).2 :=
      Ends.final (P := fun d => ∃ xs, c.Released k target xs d) (release_released hk hs target)
    obtain ⟨xs, hr⟩ := hreleased
    have hstuck := hr.stuck hk (hd.resolve_left hon)
    have hnone : es = [] := by
      by_contra hne
      obtain ⟨es', x, htrace, hx, hmessage⟩ := hthrough hne
      rw [hr.trace] at htrace
      obtain rfl := List.append_cancel_left htrace
      obtain ⟨⟨y, up⟩, hy, he⟩ := List.mem_map.mp hx
      cases he
      exact hmessage (hstuck _ hy rfl)
    rw [hnone]
    nofun

/-- Among these rooms, the states in which `_release` is called, each with the room. -/
def releasesAmong : List Str → ChatController → List (Str × ChatController)
  | [], _ => []
  | room :: rooms, c =>
    let rest := match exec (releaseRoom room) c with
      | (.ok _, c') => releasesAmong rooms c'
      | (.error _, _) => []
    if c.completes room then (room, c) :: rest else rest

/-- The calls of `_release` while a KEY frame is handled, each with the state it is made in. -/
def releases (c : ChatController) (f : Frame) : List (Str × ChatController) :=
  match c.keyring with
  | none => []
  | some k =>
    if !(f.get "user").truthy || !(f.get "pubkey").truthy then []
    else
      let user := (f.get "user").pyStr
      let b := { c.noted f with keyring := some (k.remember user (f.get "pubkey").pyStr) }
      (user, b) :: match exec (do release user; deliverAwaiting user) b with
        | (.ok _, d) => releasesAmong ((d.held.map Prod.fst).filter Str.isRoom) d
        | (.error _, _) => []

/-- The view has been told nothing of another screen, and the keyring is in order. -/
structure Unnoticed (c c' : ChatController) : Prop where
  stays : c.model.Stays c'.model
  keyring : ∃ k, c'.keyring = some k ∧ k.Consistent

omit [Runtime] in
theorem Unnoticed.trans {b : ChatController} (h : Unnoticed c b) (h' : Unnoticed b c') : Unnoticed c c' :=
  ⟨h.stays.trans _ _ _ h'.stays, h'.keyring⟩

theorem release_unnoticed (hk : c.keyring = some k) (hs : k.Consistent) (hd : c.Discreet target) :
    Unnoticed c (exec (release target) c).2 := by
  refine ⟨release_stays hk hs hd, ?_⟩
  obtain ⟨xs, hr⟩ := Ends.final (P := fun d => ∃ xs, c.Released k target xs d) (release_released hk hs target)
  obtain ⟨k', hk', halong⟩ := hr.along.keyring k hk hs
  exact ⟨k', hk', halong.consistent⟩

theorem deliverAwaiting_unnoticed (hk : c.keyring = some k) (hs : k.Consistent) (user : Str) :
    Unnoticed c (exec (deliverAwaiting user) c).2 := by
  have hwalk : Walk [.filing] [] c (exec (deliverAwaiting user) c).2 := deliverAwaiting_moves (List.mem_singleton_self _) user c
  have hmoved := hwalk.moved
  refine ⟨hmoved.lift ChatModel.Stays.refl ChatModel.Stays.trans fun kind hkind m m' hchange => ?_, ?_⟩
  · cases hchange with
    | filing _ key _ => exact ChatModel.stays_addMessage m key _
    | _ => simp at hkind
  · obtain ⟨k', hk', hsame⟩ := (deliverAwaiting_aside user c).keyring k hk hs
    exact ⟨k', hk', hsame.consistent⟩

theorem rooms_unnoticed (rooms : List Str) : ∀ {c : ChatController} {k : Keyring}, c.keyring = some k → k.Consistent →
    (∀ r ∈ releasesAmong rooms c, r.2.Discreet r.1) → Unnoticed c (exec (rooms.forM releaseRoom) c).2 := by
  induction rooms with
  | nil => exact fun hk hs _ => ⟨.refl _, _, hk, hs⟩
  | cons room rooms ih =>
    intro c k hk hs hd
    unfold releasesAmong at hd
    have hfirst : Unnoticed c (exec (releaseRoom room) c).2 := by
      rw [exec_releaseRoom]
      split
      · next hcomplete =>
        rw [if_pos hcomplete] at hd
        exact release_unnoticed hk hs (hd (room, c) (List.mem_cons_self ..))
      · exact ⟨.refl _, k, hk, hs⟩
    show Unnoticed c (exec (releaseRoom room >>= fun _ => rooms.forM releaseRoom) c).2
    rw [exec_bind]
    rcases hrun : exec (releaseRoom room) c with ⟨e | u, c₁⟩
    · rw [hrun] at hfirst
      exact hfirst
    · rw [hrun] at hfirst hd
      obtain ⟨k₁, hk₁, hs₁⟩ := hfirst.keyring
      refine hfirst.trans (ih hk₁ hs₁ fun r hr => hd r ?_)
      dsimp only
      split
      · exact List.mem_cons_of_mem _ hr
      · exact hr

/-- What `_key` does once the key is remembered. -/
theorem released_unnoticed {user : Str} (hk : c.keyring = some k) (hs : k.Consistent)
    (hd : ∀ r ∈ (user, c) :: (match exec (do release user; deliverAwaiting user) c with
        | (.ok _, d) => releasesAmong ((d.held.map Prod.fst).filter Str.isRoom) d
        | (.error _, _) => []), r.2.Discreet r.1) :
    Unnoticed c (exec (do release user; afterwards user) c).2 := by
  have hreleased := release_unnoticed hk hs (hd (user, c) (List.mem_cons_self ..))
  have hrest := fun r hr => hd r (List.mem_cons_of_mem _ hr)
  unfold afterwards
  rw [exec_bind] at hrest ⊢
  rcases hrun : exec (release user) c with ⟨e | u, b⟩
  · rw [hrun] at hreleased
    exact hreleased
  · rw [hrun] at hreleased hrest
    dsimp only at hrest ⊢
    obtain ⟨k₁, hk₁, hs₁⟩ := hreleased.keyring
    have hdelivered := deliverAwaiting_unnoticed hk₁ hs₁ user
    rw [exec_bind]
    rcases hrun : exec (deliverAwaiting user) b with ⟨e | u, d⟩
    · rw [hrun] at hdelivered
      exact hreleased.trans hdelivered
    · rw [hrun] at hdelivered hrest
      obtain ⟨k₂, hk₂, hs₂⟩ := hdelivered.keyring
      exact hreleased.trans (hdelivered.trans (rooms_unnoticed _ hk₂ hs₂ hrest))

/-- **A KEY frame goes unnoticed** where every release is discreet. -/
theorem key_stays (hs : ∀ k, c.keyring = some k → k.Consistent) {f : Frame} (htype : f.type = .key)
    (hd : ∀ r ∈ c.releases f, r.2.Discreet r.1) : c.model.Stays (c.step (.frame f)).model := by
  have hstep : c.step (.frame f) = (exec (key f) (c.noted f)).2 := step_key c htype
  rw [hstep]
  unfold releases at hd
  cases hk : c.keyring with
  | none =>
    rw [exec_key_nothing (c := c.noted f) (.inl hk)]
    exact .refl _
  | some k =>
    rw [hk] at hd
    dsimp only at hd
    have hk' : (c.noted f).keyring = some k := hk
    by_cases hf : (!(f.get "user").truthy || !(f.get "pubkey").truthy) = true
    · rw [exec_key_nothing (.inr hf)]
      exact .refl _
    · rw [if_neg hf] at hd
      rw [exec_key_known hk' (by simpa using hf)]
      exact (released_unnoticed rfl (Keyring.remember_consistent (hs k hk) _ _) hd).stays

/-! ## Runs -/

/-- What a view is told while the input is handled. -/
def tidings (c : ChatController) (g : Gesture) : List (ChatModel.Event × ChatModel.Fields) :=
  (c.step g).model.emitted.drop c.model.emitted.length

/-- The condition on one input: what the view then draws can be drawn, and if it is a KEY
frame no text is released to another screen. -/
structure Quiet [Canvas] (c : ChatController) (g : Gesture) : Prop where
  draws : ∀ e ∈ c.tidings g, TkView.draw e = .ok ()
  discreet : ∀ f, g = .frame f → f.type = .key → ∀ r ∈ c.releases f, r.2.Discreet r.1

/-- Every input of the run meets it where it comes. -/
def Undisturbed [Canvas] (c : ChatController) (gs : List Gesture) : Prop := c.Throughout Quiet gs

theorem step_follows [Canvas] (hs : ∀ k, c.keyring = some k → k.Consistent) {g : Gesture} (hq : c.Quiet g) :
    c.model.Follows (c.step g).model := by
  by_cases hkey : ∃ f, g = .frame f ∧ f.type = .key
  · obtain ⟨f, rfl, ht⟩ := hkey
    exact (key_stays hs ht (hq.discreet f rfl ht)).follows
  · have hmoved := step_moved c g
    rw [← model_before c g]
    refine hmoved.follows fun hk => hkey ?_
    obtain ⟨f, rfl, hf⟩ := mayChange_frame hk (by simp)
    refine ⟨f, rfl, ?_⟩
    revert hf
    cases f.type <;> simp [frameKinds]

theorem step_consistent (hs : ∀ k, c.keyring = some k → k.Consistent) (g : Gesture) : ∀ k, (c.step g).keyring = some k → k.Consistent := by
  have hbefore : (c.before g).keyring = c.keyring := by cases g <;> rfl
  exact (step_walk c g).calls.consistent (hbefore ▸ hs)

end ChatController

namespace Screen

open ChatController

variable [Runtime] [Crypto] [Canvas] {s : Screen}

theorem step_agrees (hs : ∀ k, s.controller.keyring = some k → k.Consistent) (h : s.Agrees) {g : Gesture}
    (hq : s.controller.Quiet g) : ∃ s', s.step g = .ok s' ∧ s'.controller = s.controller.step g ∧ s'.Agrees := by
  obtain ⟨es, hes, hfollows⟩ := step_follows hs hq
  obtain ⟨v, hv⟩ := TkView.foldlM_draws hq.draws s.view
  have hstep : s.step g = .ok ⟨s.controller.step g, v⟩ := by
    show ((s.controller.tidings g).foldlM TkView.render s.view >>= fun view => Except.ok _) = _
    rw [hv]
    rfl
  refine ⟨_, hstep, rfl, ?_⟩
  unfold tidings at hv
  rw [hes, List.drop_left] at hv
  exact hfollows s.view v h hv

/-- **The screen shows the conversation that is written to**, in every state of a run in
which all that is drawn can be drawn and no KEY frame sends a held text to another
conversation. -/
theorem run_agrees (gs : List Gesture) : ∀ {s : Screen}, (∀ k, s.controller.keyring = some k → k.Consistent) → s.Agrees →
    s.controller.Undisturbed gs → ∃ s', s.run gs = .ok s' ∧ s'.controller = s.controller.run gs ∧ s'.Agrees := by
  induction gs with
  | nil => exact fun {s} _ h _ => ⟨s, rfl, rfl, h⟩
  | cons g gs ih =>
    intro s hs h hq
    obtain ⟨s₁, hstep, hc, hagrees⟩ := step_agrees hs h hq.1
    have hs₁ : ∀ k, s₁.controller.keyring = some k → k.Consistent := by
      rw [hc]
      exact step_consistent hs g
    obtain ⟨s', hrun, hc', hagrees'⟩ := ih hs₁ hagrees (by rw [hc]; exact hq.2)
    refine ⟨s', ?_, ?_, hagrees'⟩
    · unfold run at hrun ⊢
      rw [List.foldlM_cons, hstep]
      exact hrun
    · rw [hc', hc]
      rfl

end Screen

/-! ## A key that comes later -/

namespace Sample

/-- A client of `a` that has just been started. -/
def startedClient : ChatController := ChatController.fresh [1] (fun _ => []) (fun _ => some ("i", 1)) fun _ => 0

theorem startedClient_consistent [Crypto] : ∀ k, startedClient.keyring = some k → k.Consistent := by
  intro k hk
  obtain rfl := Option.some.inj hk
  exact .fresh _ _

/-- A window that can show everything. -/
@[reducible] def ampleCanvas : Canvas := ⟨fun _ => .ok (), fun _ => .ok ()⟩

/-- A text is typed to `b` and held, and the user turns to `last` before the key comes. -/
def typedAndTurned (last : Str) : List ChatController.Gesture :=
  [.frame { type := .loginOk, data := [("user", .str "a")], id := .str "i", ts := 0 }, .select "b", .send "hi",
    .select last, .frame publicKeyOfB]

end Sample

section Concrete

open Sample

attribute [local instance] exchangeCrypto sampleRuntime ampleCanvas

end Concrete

end Ciphertext
