import Ciphertext.Client.Console
import Ciphertext.Client.Screen

/-!
# Commands leave the model usable

What lines typed into the console may do to the model. Whatever is typed comes to gestures
(`Acts`), and there is one gesture that a controller does not survive: `select(None)` looks
up the conversation of `None`, which makes it, and raises. From then on `keys` raises, too.
The console makes that gesture in one place, where the room on screen is left.

`run_fine_iff` says of every session when nothing of the kind happens: exactly when no line
leaves the room on screen, and no text is typed that would be sealed under a public key
which is none.

A line is parsed as the source parses it, command by command, and each command has its
own lemma about which gestures it makes. `typed_returns_iff` is the equivalence for one
line, in a state whose connection is up and whose model can still be listed; the session
follows by induction, since a line that meets the condition leaves such a state.
-/

namespace Ciphertext

open Act

/-! ## The conversation of `None` -/

namespace ChatModel

/-- Every conversation goes by a string, and they can be listed. -/
structure Usable [Lowercase] (m : ChatModel) : Prop where
  strings : ∀ key ∈ m.conversationKeys, ∃ name, key = some name
  listed : ∃ keys, m.keys = .ok keys

section Keys

variable [Lowercase]

/-- Names that are strings can be sorted. -/
theorem sortKeys_ok (names : List Str) : ∃ keyed, (names.map some).mapM sortKey = .ok keyed := by
  induction names with
  | nil => exact ⟨[], rfl⟩
  | cons name names ih =>
    obtain ⟨keyed, hkeyed⟩ := ih
    rw [List.map_cons, List.mapM_cons, hkeyed]
    exact ⟨_, rfl⟩

/-- With `None` among them, the keys cannot be sorted. -/
theorem sortKeys_error {keys : List (Option Str)} (h : none ∈ keys) : keys.mapM sortKey = .error .attributeError := by
  induction keys with
  | nil => cases h
  | cons key keys ih =>
    rw [List.mapM_cons]
    cases key with
    | none => rfl
    | some name =>
      have hrest : none ∈ keys := by simpa using h
      rw [ih hrest]
      rfl

/-- A model can be listed exactly if nothing is filed under `None`. -/
theorem usable_iff {m : ChatModel} : m.Usable ↔ m.nameless = none := by
  constructor
  · intro h
    cases hnameless : m.nameless with
    | none => rfl
    | some c =>
      have hnone : none ∈ m.conversationKeys := by simp [conversationKeys, hnameless]
      obtain ⟨name, hname⟩ := h.strings none hnone
      cases hname
  · intro h
    have hkeys : m.conversationKeys = (m.conversations.map Prod.fst).map some := by
      simp [conversationKeys, h]
    refine ⟨?_, ?_⟩
    · intro key hkey
      rw [hkeys] at hkey
      obtain ⟨name, -, hname⟩ := List.mem_map.mp hkey
      exact ⟨name, hname.symm⟩
    · obtain ⟨keyed, hkeyed⟩ := sortKeys_ok (m.conversations.map Prod.fst)
      unfold keys
      rw [hkeys, hkeyed]
      exact ⟨_, rfl⟩

/-- Once it is there, they cannot be listed. -/
theorem keys_error {m : ChatModel} (h : m.nameless ≠ none) : m.keys = .error .attributeError := by
  obtain ⟨c, hc⟩ := Option.ne_none_iff_exists'.mp h
  unfold keys
  rw [sortKeys_error (by simp [conversationKeys, hc])]
  rfl

end Keys

variable [Runtime]

/-- Nothing else makes it. -/
theorem changed_nameless {k : Kind} {m m' : ChatModel} (h : Change k m m') (hk : k ≠ .deselection) :
    m'.nameless = m.nameless := by
  have htyping : ∀ (m : ChatModel) key user on, (m.setTyping key user on).1.nameless = m.nameless := by
    intro m key user on
    obtain ⟨typing, es, hset, -⟩ := setTyping_eq m key user on
    rw [hset]
    rfl
  cases h with
  | contacts h =>
    obtain ⟨contacts, roster, es, rfl, -⟩ := replaceContacts_cases h
    rfl
  | typing _ key user on => exact htyping ..
  | message _ key hmine =>
    rw [addMessage_mine _ key hmine]
    rfl
  | @filing _ key message hmine =>
    obtain ⟨⟨es, hes⟩, -⟩ := m.addMessage_added key message
    rw [hes]
    show (m.added key message).1.nameless = _
    unfold added
    rw [hmine]
    exact htyping ..
  | receipt _ key id state =>
    unfold setReceipt
    split
    · rfl
    · rfl
  | deselection => exact absurd rfl hk
  | members _ room names =>
    obtain ⟨rooms, conversations, es, hset, -⟩ := setRoomMembers_eq m room names
    rw [hset]
    rfl
  | _ => rfl

end ChatModel

/-! ## What gestures do -/

namespace ChatController

variable [Crypto]

/-- Every call gets through, and the keys that have been derived are those of the public
keys. -/
structure Connected (c : ChatController) : Prop where
  up : ∀ n, (c.connection n).isSome = true
  consistent : ∀ k, c.keyring = some k → k.Consistent

/-- The gestures of commands, `select(None)` apart. -/
def Gesture.commanded : Gesture → Bool
  | .select _ | .typing _ | .requestHistory .. | .createRoom .. | .join _ | .leave _ => true
  | _ => false

omit [Crypto] in
/-- While the connection is up, a call goes through. -/
theorem call_returns {c : ChatController} (hup : ∀ n, (c.connection n).isSome = true) (x : Call) :
    Act.exec (do let _ ← call x : ClientM Unit) c = (.ok (), c.afterCall x) := by
  obtain ⟨stamp, hstamp⟩ := Option.isSome_iff_exists.mp (hup c.trace.length)
  rw [exec_bind, exec_call, hstamp]
  rfl

section Steps

variable [Runtime]

/-- A command's gesture raises nothing then. -/
theorem handle_returns {c : ChatController} (h : c.Connected) {g : Gesture} (hg : g.commanded = true) :
    (Act.exec (handle g) c).1 = .ok () := by
  cases g with
  | select key =>
    obtain ⟨xs, hselect, -⟩ := exec_select key c
    show (Act.exec (ChatController.select key) c).1 = _
    rw [hselect]
  | typing on =>
    show (Act.exec (ChatController.typing on) c).1 = _
    unfold ChatController.typing
    rw [exec_bind, exec_get]
    dsimp only
    cases c.model.active with
    | none => rfl
    | some active => exact congrArg Prod.fst (call_returns h.up _)
  | requestHistory key limit =>
    show (Act.exec (ChatController.requestHistory key limit) c).1 = _
    unfold ChatController.requestHistory
    rw [exec_bind, exec_get]
    dsimp only
    cases (key.filter fun k => !k.isEmpty).or c.model.active with
    | none => rfl
    | some target => exact congrArg Prod.fst (call_returns h.up _)
  | createRoom room members => exact congrArg Prod.fst (call_returns h.up _)
  | join room => exact congrArg Prod.fst (call_returns h.up _)
  | leave room => exact congrArg Prod.fst (call_returns h.up _)
  | _ => cases hg

/-- Any other gesture leaves the conversation of `None` alone. -/
theorem step_nameless (c : ChatController) {g : Gesture} (hg : g ≠ .selectNone) :
    (c.step g).model.nameless = c.model.nameless := by
  have hkind : ∀ k ∈ g.mayChange, k ≠ .deselection := by
    intro k hk he
    subst he
    cases g with
    | selectNone => exact hg rfl
    | frame f =>
      have hk : Kind.deselection ∈ frameKinds f.type := hk
      revert hk
      cases f.type <;> simp [frameKinds]
    | _ => simp [Gesture.mayChange] at hk
  exact step_lift c (R := fun m m' => m'.nameless = m.nameless) (fun _ => rfl) (fun _ _ _ h h' => h'.trans h)
    fun k hk _ _ hchange => ChatModel.changed_nameless hchange (hkind k hk)

/-- What an input does is no matter of the connection's own state. -/
theorem step_connection (c : ChatController) (g : Gesture) : (c.step g).connection = c.connection := by
  have hbefore : (c.before g).connection = c.connection := by cases g <;> rfl
  rw [← hbefore]
  refine (step_walk c g).lift (R := fun c c' => c'.connection = c.connection) (fun _ => rfl)
    (fun _ _ _ h h' => h'.trans h) fun c c' h => ?_
  cases h with
  | selected _ c key =>
    obtain ⟨xs, hselect, -⟩ := exec_select key c
    rw [hselect]
  | filed _ c f key body ts => rw [exec_addFrame]
  | _ => rfl

/-- A controller that is connected stays so, -/
theorem step_connected {c : ChatController} (h : c.Connected) (g : Gesture) : (c.step g).Connected := by
  refine ⟨?_, step_consistent h.consistent g⟩
  rw [step_connection]
  exact h.up

/-- over a run, too. -/
theorem run_connected (gs : List Gesture) : ∀ {c : ChatController}, c.Connected → (c.run gs).Connected := by
  induction gs with
  | nil => exact id
  | cons g gs ih =>
    intro c h
    exact ih (step_connected h g)

/-- Only `select(None)` files anything under `None`. -/
theorem run_nameless (gs : List Gesture) : ∀ {c : ChatController}, (∀ g ∈ gs, g ≠ .selectNone) →
    (c.run gs).model.nameless = c.model.nameless := by
  induction gs with
  | nil => exact fun _ => rfl
  | cons g gs ih =>
    intro c hgs
    have hrest := ih (c := c.step g) fun g' hg' => hgs g' (List.mem_cons_of_mem _ hg')
    exact hrest.trans (step_nameless c (hgs g (List.mem_cons_self ..)))

end Steps

/-! ## Texts -/

/-- This text for the conversation on screen can be sealed, or it is held. -/
def Speaks (c : ChatController) (text : Str) : Prop :=
  ∀ target k, c.model.active = some target → c.keyring = some k → k.missingKeys (c.needs target) = [] →
    c.Seals k target text

/-- `send` is that without its result. -/
theorem exec_send (text : Str) (c : ChatController) :
    Act.exec (send text) c = ((Act.exec (sendMessage text) c).1.map fun _ => (), (Act.exec (sendMessage text) c).2) := by
  unfold send sendMessage
  rw [exec_bind, exec_get, exec_bind, exec_get]
  dsimp only
  cases c.model.active with
  | none => rfl
  | some target =>
    dsimp only
    split
    · rfl
    · rw [exec_bind, exec_get, exec_bind, exec_get]
      dsimp only
      rw [exec_bind, exec_bind]
      cases Act.exec (transmit target text c.me) c with
      | mk r c' =>
        cases r with
        | error e => rfl
        | ok stamp =>
          cases stamp with
          | none => rfl
          | some stamp =>
            dsimp only
            rw [exec_bind]
            cases Act.exec (onModel' _) c' with
            | mk r c'' =>
              cases r with
              | error e => rfl
              | ok u => rfl

/-- A text goes out, is held, or is the one thing in the way: it would be sealed and cannot
be. -/
theorem speaks_iff {c : ChatController} {k : Keyring} {target : Str} (hactive : c.model.active = some target)
    (hk : c.keyring = some k) (text : Str) :
    c.Speaks text ↔ (k.missingKeys (c.needs target) = [] → c.Seals k target text) := by
  constructor
  · intro h
    exact h target k hactive hk
  · intro h target' k' hactive' hk'
    obtain rfl := Option.some.inj (hactive.symm.trans hactive')
    obtain rfl := Option.some.inj (hk.symm.trans hk')
    exact h

omit [Crypto] in
/-- Holding a text makes calls, and they go through. -/
theorem hold_returns {c : ChatController} (hup : ∀ n, (c.connection n).isSome = true) (target text : Str)
    (fetch : List Str) : Ends (hold target text fetch) c (fun _ _ => True) fun _ _ => False := by
  refine ends_get (ends_modify_bind (ends_ite (fun _ => ?_) fun _ => trivial))
  refine (ends_forM (I := fun _ c' => ∀ n, (c'.connection n).isSome = true) hup ?_).mono (fun _ _ _ => trivial)
    fun _ _ hx => hx
  intro user _ c' hup'
  unfold Ends
  rw [call_returns hup']
  exact hup'

/-- Without a keyring a text goes out as it is. -/
theorem send_clear {c : ChatController} (h : c.Connected) (hk : c.keyring = none) {target text : Str}
    (hactive : c.model.active = some target) (hblank : text.strip.isEmpty = false) :
    (Act.exec (send text) c).1 = .ok () := by
  obtain ⟨stamp, hstamp⟩ := Option.isSome_iff_exists.mp (h.up c.trace.length)
  have htransmit : Act.exec (transmit target text c.me) c =
      (.ok (some stamp), c.afterCall (.message target text none [])) := by
    unfold transmit
    rw [exec_bind, exec_get]
    dsimp only
    rw [hk]
    dsimp only
    rw [exec_bind, exec_call, hstamp]
    rfl
  unfold send
  rw [exec_bind, exec_get]
  dsimp only
  rw [hactive]
  dsimp only
  rw [hblank, if_neg (by decide), exec_bind, exec_get]
  dsimp only
  rw [exec_bind, htransmit]
  unfold onModel'
  dsimp only
  rw [exec_bind, exec_get]
  dsimp only
  rw [ChatModel.addMessage_mine _ _ rfl]
  rfl

/-- **What is typed is sent or held**, unless it would be sealed and cannot be. -/
theorem send_returns_iff {c : ChatController} (h : c.Connected) {text : Str} (htext : text.strip ≠ []) :
    (Act.exec (send text) c).1 = .ok () ↔ c.Speaks text := by
  have hblank : text.strip.isEmpty = false := by simpa using htext
  cases hactive : c.model.active with
  | none =>
    refine iff_of_true ?_ fun target k hactive' => ?_
    · unfold send
      rw [exec_bind, exec_get]
      dsimp only
      rw [hactive]
      rfl
    · rw [hactive] at hactive'
      cases hactive'
  | some target =>
    cases hk : c.keyring with
    | none =>
      refine iff_of_true (send_clear h hk hactive hblank) fun target k _ hk' => ?_
      rw [hk] at hk'
      cases hk'
    | some k =>
      have hcons := h.consistent k hk
      rw [speaks_iff hactive hk]
      by_cases hmissing : k.missingKeys (c.needs target) = []
      · -- it is sealed, and nothing else can stop it: the connection is up
        have hends := send_ready hk hcons hmissing hactive hblank
        unfold Ends at hends
        cases hrun : Act.exec (send text) c with
        | mk r c' =>
          rw [hrun] at hends
          cases r with
          | ok u => exact iff_of_true rfl fun _ => hends.seals
          | error e =>
            refine iff_of_false (fun h => by cases h) fun hs => ?_
            cases hends with
            | inl hbad => exact hbad.2.1 (hs hmissing)
            | inr hdown =>
              have hthrough := hdown.up
              rw [h.up] at hthrough
              cases hthrough
      · -- it is held, whatever the other keys are
        refine iff_of_true ?_ fun hready => absurd hready hmissing
        obtain ⟨k', -, hsend⟩ := send_holds hk hcons hmissing hactive hblank
        obtain ⟨u, c', hheld, -⟩ := (hold_returns (c := { c with keyring := some k' }) h.up target text
          (k.missingKeys (c.needs target))).returns
        rw [hsend, hheld]

end ChatController

/-! ## What commands do -/

namespace ConsoleView

variable [Crypto] [Runtime]

/-- The view has passed gestures on to the controller, all of this kind. -/
def Acts (P : ChatController.Gesture → Prop) (v v' : ConsoleView) : Prop :=
  ∃ gs : List ChatController.Gesture, (∀ g ∈ gs, P g) ∧ v'.controller = v.controller.run gs

variable {P : ChatController.Gesture → Prop} {v v' : ConsoleView}

theorem Acts.of_eq (h : v'.controller = v.controller) : Acts P v v' := ⟨[], nofun, h⟩

theorem Acts.single {g : ChatController.Gesture} (hg : P g) (h : v'.controller = v.controller.step g) : Acts P v v' := by
  refine ⟨[g], ?_, h⟩
  intro g' hg'
  rw [List.mem_singleton.mp hg']
  exact hg

theorem Acts.trans (v₁ v₂ v₃ : ConsoleView) (h : Acts P v₁ v₂) (h' : Acts P v₂ v₃) : Acts P v₁ v₃ := by
  obtain ⟨gs, hgs, hrun⟩ := h
  obtain ⟨gs', hgs', hrun'⟩ := h'
  refine ⟨gs ++ gs', ?_, ?_⟩
  · intro g hg
    cases List.mem_append.mp hg with
    | inl hmem => exact hgs g hmem
    | inr hmem => exact hgs' g hmem
  · rw [hrun', hrun]
    unfold ChatController.run
    rw [List.foldl_append]

theorem Acts.mono {P' : ChatController.Gesture → Prop} (h : Acts P v v') (hP : ∀ g, P g → P' g) : Acts P' v v' := by
  obtain ⟨gs, hgs, hrun⟩ := h
  exact ⟨gs, fun g hg => hP g (hgs g hg), hrun⟩

/-- A view whose controller is connected stays one. -/
theorem Acts.connected (h : Acts P v v') (hv : v.controller.Connected) : v'.controller.Connected := by
  obtain ⟨gs, -, hrun⟩ := h
  rw [hrun]
  exact ChatController.run_connected gs hv

/-- A model that can be listed stays one without `select(None)`. -/
theorem Acts.usable [Lowercase] (h : Acts (· ≠ .selectNone) v v') (hu : v.controller.model.Usable) :
    v'.controller.model.Usable := by
  obtain ⟨gs, hgs, hrun⟩ := h
  rw [ChatModel.usable_iff, hrun, ChatController.run_nameless gs hgs]
  exact ChatModel.usable_iff.mp hu

/-- The code returns, and has not passed `select(None)` on. -/
abbrev Obeys (m : ConsoleM Unit) (v : ConsoleView) : Prop := Ends m v (fun _ v' => Acts (· ≠ .selectNone) v v') fun _ _ => False

omit [Crypto] [Runtime] in
/-- The controller is handed the gesture, and the view keeps the rest. -/
theorem exec_onController {α : Type} (m : ClientM α) (v : ConsoleView) :
    Act.exec (onController m) v =
      ((Act.exec m v.controller).1, { v with controller := (Act.exec m v.controller).2 }) := by
  unfold onController
  rw [exec_bind, exec_get]
  dsimp only
  rw [exec_bind, exec_modify]
  dsimp only
  cases (Act.exec m v.controller).1 with
  | ok a => rfl
  | error e => rfl

/-- Printing does nothing to the model. -/
theorem print_obeys (text : Str) (v : ConsoleView) : Obeys (print text) v := Acts.of_eq rfl

/-- Printing after what has been done. -/
theorem Acts.print (h : Acts P v v') (text : Str) : Ends (print text) v' (fun _ v'' => Acts P v v'') fun _ _ => False :=
  h.trans _ _ _ (.of_eq rfl)

/-- A command's gesture is one of those a controller survives. -/
theorem onController_obeys (h : v.controller.Connected) {g : ChatController.Gesture} (hg : g.commanded = true) :
    Obeys (onController (ChatController.handle g)) v := by
  unfold Obeys Ends
  rw [exec_onController, ChatController.handle_returns h hg]
  refine Acts.single ?_ rfl
  intro he
  rw [he] at hg
  cases hg

/-- `/members` prints who is in the room on screen. -/
theorem members_obeys (v : ConsoleView) : Obeys members v := by
  refine ends_get ?_
  dsimp only
  cases v.controller.model.active with
  | none => exact print_obeys ..
  | some room => exact ends_ite (fun _ => print_obeys ..) fun _ => print_obeys ..

/-- `/history` asks for a page. -/
theorem history_obeys (h : v.controller.Connected) : Obeys history v := by
  refine ends_get ?_
  refine (onController_obeys h (g := .requestHistory none 50) rfl).bind fun _ v' hacts => ?_
  exact ends_ite (fun _ => hacts.print _) fun _ => ends_pure hacts

/-- `/create`, `/join` and `/leave`: the last deselects the room on screen if it is the one
that is left. -/
theorem roomCommand_obeys (h : v.controller.Connected) {command room : Str}
    (hstay : command ≠ "/create" → command ≠ "/join" → room.startsWith "#" = true →
      v.controller.model.active ≠ some room) : Obeys (roomCommand command room) v := by
  refine ends_ite (fun _ => print_obeys ..) fun _ => ?_
  refine ends_ite (fun _ => print_obeys ..) fun hroom => ?_
  refine ends_ite (fun _ => onController_obeys h (g := .createRoom room []) rfl) fun hcreate => ?_
  refine ends_ite (fun _ => onController_obeys h (g := .join room) rfl) fun hjoin => ?_
  have hactive := hstay hcreate hjoin (by simpa using hroom)
  have hleave : Act.exec (ChatController.leave room) v.controller = (.ok (), v.controller.afterCall (.leave room)) :=
    ChatController.call_returns h.up _
  have hleft : Ends (onController (ChatController.leave room)) v (fun _ v' => Acts (· ≠ .selectNone) v v' ∧
      v'.controller.model.active = v.controller.model.active) fun _ _ => False := by
    unfold Ends
    rw [exec_onController, hleave]
    exact ⟨Acts.single (g := .leave room) nofun (congrArg Prod.snd hleave).symm, rfl⟩
  refine hleft.bind fun _ v' hv' => ends_get ?_
  dsimp only
  rw [hv'.2, if_neg hactive]
  exact ends_pure hv'.1

section Listing

variable [Lowercase]

/-- `/chats` lists the conversations, which needs a model that can be listed. -/
theorem chats_obeys (hu : v.controller.model.Usable) : Obeys chats v := by
  obtain ⟨keys, hkeys⟩ := hu.listed
  refine ends_get ?_
  dsimp only
  rw [hkeys]
  refine ends_ite (fun _ => print_obeys ..) fun _ => ?_
  refine ends_forM (I := fun _ v' => Acts (· ≠ .selectNone) v v') (Acts.of_eq rfl) ?_
  intro key _ v' hacts
  exact hacts.print _

/-- The line leaves the room on screen. -/
def Abandons (v : ConsoleView) (text : Str) : Prop :=
  text.partition.1 = "/leave" ∧ text.partition.2.strip.startsWith "#" = true ∧
    v.controller.model.active = some text.partition.2.strip

/-- Whatever the command, if it does not leave the room on screen. -/
theorem commanded_obeys (h : v.controller.Connected) (hu : v.controller.model.Usable) {text : Str}
    (hstay : ¬ v.Abandons text) : Obeys (commanded text.partition.1 text.partition.2.strip) v := by
  refine ends_get ?_
  refine ends_ite (fun _ => Acts.of_eq rfl) fun _ => ?_
  refine ends_ite (fun _ => print_obeys ..) fun _ => ?_
  refine ends_ite (fun _ => print_obeys ..) fun _ => ?_
  refine ends_ite (fun _ => ?_) fun _ => ?_
  · refine ends_ite (fun _ => print_obeys ..) fun _ => ?_
    exact onController_obeys h (g := .select text.partition.2.strip) rfl
  refine ends_ite (fun _ => history_obeys h) fun _ => ?_
  refine ends_ite (fun _ => chats_obeys hu) fun _ => ?_
  refine ends_ite (fun hroom => roomCommand_obeys h fun hcreate hjoin hprefix hactive => ?_) fun _ => ?_
  · -- neither made nor joined, so it is left
    simp only [hcreate, hjoin, decide_false, Bool.false_or, decide_eq_true_eq] at hroom
    exact hstay ⟨hroom, hprefix, hactive⟩
  refine ends_ite (fun _ => print_obeys ..) fun _ => ?_
  refine ends_ite (fun _ => members_obeys v) fun _ => ?_
  exact ends_ite (fun _ => onController_obeys h (g := .typing _) rfl) fun _ => print_obeys ..

end Listing

/-- A text raises what `send` raises. -/
theorem said_exec (text : Str) (v : ConsoleView) :
    (Act.exec (said text) v).1 = (Act.exec (ChatController.send text) v.controller).1 ∧
      Acts (· = .send text) v (Act.exec (said text) v).2 := by
  have hsend := ChatController.exec_send text v.controller
  have hacts : Acts (· = .send text) v { v with controller := (Act.exec (ChatController.sendMessage text) v.controller).2 } :=
    Acts.single rfl (congrArg Prod.snd hsend).symm
  rw [hsend]
  unfold said
  rw [exec_bind, exec_get]
  dsimp only
  cases hactive : v.controller.model.active with
  | none =>
    refine ⟨?_, Acts.of_eq rfl⟩
    unfold ChatController.sendMessage
    rw [exec_bind, exec_get]
    dsimp only
    rw [hactive]
    rfl
  | some target =>
    dsimp only
    rw [exec_bind, exec_onController]
    revert hacts
    cases Act.exec (ChatController.sendMessage text) v.controller with
    | mk r c' =>
      intro hacts
      cases r with
      | error e => exact ⟨rfl, hacts⟩
      | ok message =>
        cases message with
        | none => exact ⟨rfl, hacts.trans _ _ _ (Acts.of_eq rfl)⟩
        | some message => exact ⟨rfl, hacts⟩

/-- A line that is no command is a text. -/
theorem said_obeys (h : v.controller.Connected) {text : Str} (hs : v.controller.Speaks text) (htext : text.strip ≠ []) :
    Obeys (said text) v := by
  obtain ⟨hsame, hacts⟩ := said_exec text v
  rw [(ChatController.send_returns_iff h htext).mpr hs] at hsame
  unfold Obeys Ends
  revert hsame hacts
  cases Act.exec (said text) v with
  | mk r v' =>
    cases r with
    | ok u => exact fun _ hacts => hacts.mono fun g hg => hg ▸ nofun
    | error e =>
      intro hsame
      cases hsame

/-! ## Lines -/

variable [Lowercase]

/-- **The condition on one input**: a command does not leave the room on screen, and a text
for the conversation on screen can be sealed, or is held. -/
def Heeds (v : ConsoleView) : Item → Prop
  | .input line =>
    if line.text.strip.startsWith "/" then ¬ v.Abandons line.text.strip
    else line.text.strip ≠ [] → v.controller.Speaks line.text.strip
  | _ => True

/-- What is asked of it: a line raises nothing, and the model stays usable. -/
structure Fine (v : ConsoleView) (item : Item) : Prop where
  returns : ∀ line, item = .input line → (Act.exec (typed line.text) v).1 = .ok ()
  usable : (v.step item).controller.model.Usable

omit [Crypto] [Runtime] in
/-- `select(None)` raises, if leaving has not. -/
theorem abandon_raises {text : Str} (h : v.Abandons text) :
    (Act.exec (commanded text.partition.1 text.partition.2.strip) v).1 ≠ .ok () := by
  obtain ⟨hcommand, hprefix, hactive⟩ := h
  generalize text.partition.2.strip = room at hprefix hactive
  have hroom : commanded text.partition.1 room = (do let _ ← get; roomCommand "/leave" room : ConsoleM Unit) := by
    rw [hcommand]
    rfl
  have hne : room.isEmpty = false := by
    cases room with
    | nil => cases hprefix
    | cons x xs => rfl
  rw [hroom, exec_bind, exec_get]
  dsimp only
  unfold roomCommand
  rw [hne, hprefix, if_neg (by decide), if_neg (by decide), if_neg (by decide), if_neg (by decide), exec_bind,
    exec_onController]
  have hsame : (Act.exec (ChatController.leave room) v.controller).2.model.active = some room := by
    show (Act.exec (do let _ ← ChatController.call (.leave room) : ClientM Unit) v.controller).2.model.active = _
    rw [exec_bind, ChatController.exec_call]
    cases v.controller.connection v.controller.trace.length with
    | none => exact hactive
    | some stamp => exact hactive
  revert hsame
  cases Act.exec (ChatController.leave room) v.controller with
  | mk r c' =>
    intro hsame
    cases r with
    | error e =>
      intro h
      cases h
    -- the server has been told; the room on screen is now deselected
    | ok u =>
      have hselect : (Act.exec (onController ChatController.selectNone) { v with controller := c' }).1 =
          .error (.py .attributeError) := by
        rw [exec_onController]
        rfl
      dsimp only
      rw [exec_bind, exec_get]
      dsimp only
      rw [hsame, if_pos rfl, hselect]
      intro h
      cases h

/-- **A line** that meets the condition comes to gestures that a controller survives. -/
theorem typed_obeys (h : v.controller.Connected) (hu : v.controller.model.Usable) {line : Line}
    (hheeds : v.Heeds (.input line)) : Obeys (typed line.text) v := by
  unfold Heeds at hheeds
  dsimp only at hheeds
  refine ends_ite (fun _ => Acts.of_eq rfl) fun htext => ?_
  have hne : line.text.strip ≠ [] := by simpa using htext
  refine ends_ite (fun hslash => ?_) fun hslash => ?_
  · rw [if_neg (by simpa using hslash)] at hheeds
    exact said_obeys h (hheeds hne) (Str.strip_strip_ne_nil hne)
  · rw [if_pos (by simpa using hslash)] at hheeds
    exact commanded_obeys h hu hheeds

/-- **A line raises nothing** exactly when it meets the condition. -/
theorem typed_returns_iff (h : v.controller.Connected) (hu : v.controller.model.Usable) (line : Line) :
    (Act.exec (typed line.text) v).1 = .ok () ↔ v.Heeds (.input line) := by
  constructor
  · intro hreturns
    unfold Heeds
    dsimp only
    unfold typed at hreturns
    dsimp only at hreturns
    split
    next hslash =>
      intro habandon
      have hne : line.text.strip.isEmpty = false := by
        cases htext : line.text.strip with
        | nil => rw [htext] at hslash; cases hslash
        | cons x xs => rfl
      rw [hne, hslash, if_neg (by decide), if_neg (by decide)] at hreturns
      exact abandon_raises habandon hreturns
    next hslash =>
      intro hne
      have hempty : line.text.strip.isEmpty = false := by simpa using hne
      rw [hempty, if_neg (by decide), if_pos (by simpa using hslash), (said_exec _ v).1] at hreturns
      exact (ChatController.send_returns_iff h (Str.strip_strip_ne_nil hne)).mp hreturns
  · intro hheeds
    obtain ⟨u, v', hrun, -⟩ := (typed_obeys h hu hheeds).returns
    rw [hrun]

/-! ## Rounds -/

/-- An input is handled, and an exception ends the handling. -/
theorem step_controller (v : ConsoleView) (item : Item) :
    (v.step item).controller = (Act.exec (handle item) v).2.controller := by
  unfold step
  dsimp only
  rw [exec_bind, exec_tryCatch]
  cases Act.exec (handle item) v with
  | mk r v' =>
    cases r with
    | ok u => rfl
    | error e => rfl

/-- A frame is handed to the controller, -/
theorem step_frame (v : ConsoleView) (f : Inbound) :
    (v.step (.frame f)).controller = v.controller.step (.frame f.frame) := by
  rw [step_controller]
  show (Act.exec (onController _) v).2.controller = _
  rw [exec_onController]
  rfl

/-- and so is a change of the connection. -/
theorem step_state (v : ConsoleView) (s : Str) : (v.step (.state s)).controller = v.controller.step (.state s) := by
  rw [step_controller]
  show (Act.exec (onController _) v).2.controller = _
  rw [exec_onController]
  rfl

/-- A round that meets the condition does not pass `select(None)` on. -/
theorem step_acts (h : v.controller.Connected) (hu : v.controller.model.Usable) {item : Item} (hheeds : v.Heeds item) :
    Acts (· ≠ .selectNone) v (v.step item) := by
  cases item with
  -- a frame and a change of state are one gesture each, whatever they raise
  | frame f => exact Acts.single (g := .frame f.frame) nofun (step_frame v f)
  | state s => exact Acts.single (g := .state s) nofun (step_state v s)
  | input line =>
    have hacts : Acts (· ≠ .selectNone) v (Act.exec (typed line.text) v).2 :=
      ((typed_obeys h hu hheeds).mono (fun _ _ hacts => hacts) fun _ _ hx => hx.elim).final
    obtain ⟨gs, hgs, hrun⟩ := hacts
    exact ⟨gs, hgs, (step_controller ..).trans hrun⟩

theorem step_fine_iff (h : v.controller.Connected) (hu : v.controller.model.Usable) (item : Item) :
    v.Fine item ↔ v.Heeds item := by
  constructor
  · intro hfine
    cases item with
    | frame f => trivial
    | state s => trivial
    | input line => exact (typed_returns_iff h hu line).mp (hfine.returns line rfl)
  · intro hheeds
    refine ⟨?_, (step_acts h hu hheeds).usable hu⟩
    intro line hline
    subst hline
    exact (typed_returns_iff h hu line).mpr hheeds

/-! ## Sessions -/

/-- Every round of the session meets the condition where it comes. -/
def Throughout (P : ConsoleView → Item → Prop) : ConsoleView → List Item → Prop
  | _, [] => True
  | v, item :: items => P v item ∧ ((v.step item).running = true → Throughout P (v.step item) items)

/-- **The model stays usable** over a session exactly when every input of it meets the
condition in the state it finds. -/
theorem run_fine_iff (items : List Item) : ∀ {v : ConsoleView}, v.controller.Connected → v.controller.model.Usable →
    (Throughout Fine v items ↔ Throughout Heeds v items) := by
  induction items with
  | nil => exact fun _ _ => Iff.rfl
  | cons item items ih =>
    intro v h hu
    show v.Fine item ∧ _ ↔ v.Heeds item ∧ _
    rw [step_fine_iff h hu]
    -- the rounds to come find the model as the first one has left it
    refine and_congr_right fun hheeds => imp_congr_right fun _ => ?_
    have hacts := step_acts h hu hheeds
    exact ih (hacts.connected h) (hacts.usable hu)

end ConsoleView

/-! ## A session that heeds it, and one that does not -/

section Decidable

variable [Crypto] [Runtime] [Lowercase]

instance (k : Keyring) (user : Str) : Decidable (k.Usable user) :=
  match hget : PyDict.get k.pubkeys user with
  | none => isTrue fun pubkey h => by rw [hget] at h; cases h
  | some pubkey =>
    match hkey : Crypto.keyFor k.identity pubkey with
    | .ok key => isTrue fun pubkey' h => by
      obtain rfl := Option.some.inj (hget.symm.trans h)
      exact ⟨key, hkey⟩
    | .error e => isFalse fun h => by
      obtain ⟨key, hok⟩ := h pubkey hget
      rw [hkey] at hok
      cases hok

instance (c : ChatController) (k : Keyring) (target : Str) : Decidable (c.Sealable k target) :=
  inferInstanceAs (Decidable (if target.isRoom then
    ∀ u ∈ c.me :: c.model.roomMembers target, (k.named c.me).Usable u else k.Usable target))

instance (c : ChatController) (k : Keyring) (target text : Str) : Decidable (c.Seals k target text) :=
  inferInstanceAs (Decidable (_ ∧ _))

instance (c : ChatController) (text : Str) : Decidable (c.Speaks text) :=
  match hactive : c.model.active, hk : c.keyring with
  | some target, some k =>
    decidable_of_iff (k.missingKeys (c.needs target) = [] → c.Seals k target text)
      (ChatController.speaks_iff hactive hk text).symm
  | none, _ => isTrue fun target k ht _ => by rw [hactive] at ht; cases ht
  | _, none => isTrue fun target k _ hk' => by rw [hk] at hk'; cases hk'

namespace ConsoleView

instance (v : ConsoleView) (text : Str) : Decidable (v.Abandons text) := inferInstanceAs (Decidable (_ ∧ _ ∧ _))

instance (v : ConsoleView) : DecidablePred v.Heeds
  | .input line => inferInstanceAs (Decidable (if line.text.strip.startsWith "/" then ¬ v.Abandons line.text.strip
      else line.text.strip ≠ [] → v.controller.Speaks line.text.strip))
  | .frame _ => isTrue trivial
  | .state _ => isTrue trivial

instance decidableThroughout (P : ConsoleView → Item → Prop) [∀ v, DecidablePred (P v)] :
    ∀ (v : ConsoleView) (items : List Item), Decidable (Throughout P v items)
  | _, [] => isTrue trivial
  | v, item :: items =>
    have := decidableThroughout P (v.step item) items
    inferInstanceAs (Decidable (P v item ∧ _))

end ConsoleView

end Decidable

namespace Sample

/-- The lower case of ASCII. -/
@[reducible] def asciiLower : Lowercase where
  lower s := s.map fun c => if 0x41 ≤ c.val ∧ c.val ≤ 0x5A then Fin.ofNat 0x110000 (c.val + 32) else c

/-- A line of the terminal. -/
def line (s : String) : ConsoleView.Item := .input ⟨s, Str.encodable_ofString s⟩

/-- The answer to a LOGIN. -/
def welcomeA : ConsoleView.Inbound where
  frame := { type := .loginOk, data := [("user", .str "a")], id := .str "i", ts := 0 }
  named := nofun
  encodable := by decide +kernel

def inboundKey : ConsoleView.Inbound := ⟨publicKeyOfB, nofun, by decide +kernel⟩

/-- `b` is written to before and after the key comes, and a room that is not on screen is
left. -/
def ordinarySession : List ConsoleView.Item :=
  [.frame welcomeA, line "/to b", line "hi", .frame inboundKey, line "there", line "/create #r", line "/to #r",
    line "/to b", line "/leave #r", line "/chats", line "/quit"]

/-- The room on screen is left. -/
def leavingSession : List ConsoleView.Item := [.frame welcomeA, line "/join #r", line "/to #r", line "/leave #r"]

end Sample

section Concrete

open ConsoleView Sample

attribute [local instance] exchangeCrypto sampleRuntime asciiLower

/-- A client that has just been started is connected. -/
theorem startedClient_connected : startedClient.Connected := ⟨fun _ => rfl, startedClient_consistent⟩

theorem ordinarySession_fine : Throughout Fine { controller := startedClient } ordinarySession :=
  (run_fine_iff ordinarySession startedClient_connected (ChatModel.usable_iff.mpr rfl)).mpr (by decide +kernel)

/-- The line raises, and what it has left behind cannot be listed. -/
theorem leavingSession_unusable :
    let v := ConsoleView.run { controller := startedClient } (leavingSession.take 3)
    (Act.exec (typed "/leave #r") v).1 = .error (.py .attributeError) ∧
      none ∈ (v.run (leavingSession.drop 3)).controller.model.conversationKeys ∧
      (v.run (leavingSession.drop 3)).controller.model.keys = .error .attributeError ∧
      ¬ Throughout Fine { controller := startedClient } leavingSession := by
  have hraised : (Act.exec (typed "/leave #r")
      (ConsoleView.run { controller := startedClient } (leavingSession.take 3))).1 = .error (.py .attributeError) := by
    decide +kernel
  refine ⟨hraised, by decide +kernel, ChatModel.keys_error (by decide +kernel), fun h => ?_⟩
  have hreturned : (Act.exec (typed "/leave #r")
      (ConsoleView.run { controller := startedClient } (leavingSession.take 3))).1 = .ok () :=
    (((h.2 rfl).2 rfl).2 rfl).1.returns _ rfl
  rw [hraised] at hreturned
  cases hreturned

end Concrete

end Ciphertext
