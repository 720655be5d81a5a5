import Ciphertext.Client.Controller

/-!
# What is typed does not show in the calls

With a keyring, a text typed into the composer reaches the connection only as
what `seal` makes of it. The claim is about two runs: the same frames, the same
gestures, and different non-blank texts. `Alike` relates the two controllers: all
fields agree except the texts in `_held` and the bodies of messages in the model,
which no method reads to decide anything. Every method keeps `Alike`, and the
calls it makes are the same up to what `seal` returned (`step_alike`, `run_alike`).

So the connection gets the same calls in both runs, but for bodies and envelopes that
are sealed texts (`calls_conceal`). Two things about a text do show. It must not be
blank, since a blank one is not sent; and it must have an encoding or have none in both
runs, since `envelope.seal` raises for one that has none, and no call is made.

`SealedAlike` says which two bodies may differ: what the same call of `seal` returns,
under the same key and with the same nonce, for the two texts. Nothing is assumed of the
cipher; that its outputs tell the texts apart only to who holds the key is for the
cipher to say.
-/

namespace Ciphertext

open Act ChatController

/-! ## When two controllers look the same from outside -/

/-- Not blank: `text.strip()` is true. -/
def Str.nonBlank (s : Str) : Prop := s.strip.isEmpty = false

/-- Both may be typed where the other was: `send` sees neither which of them it is nor,
if both or neither have an encoding, does `seal`. -/
structure TextAlike (t t' : Str) : Prop where
  nonBlank : t.nonBlank
  nonBlank' : t'.nonBlank
  encodable : t.encodable = t'.encodable

/-- The same message but for its body. -/
structure Message.Alike (m m' : Message) : Prop where
  id : m.id = m'.id
  sender : m.sender = m'.sender
  ts : m.ts = m'.ts
  mine : m.mine = m'.mine
  state : m.state = m'.state

/-- The same messages, in the same order, but for their bodies. -/
structure Conversation.Alike (c c' : Conversation) : Prop where
  messages : List.Forall₂ Message.Alike c.messages c'.messages
  unread : c.unread = c'.unread

/-- The same model, but for the bodies of messages, what has been emitted and the
conversation under `None`. -/
structure ChatModel.Alike (m m' : ChatModel) : Prop where
  username : m.username = m'.username
  connectionState : m.connectionState = m'.connectionState
  roster : m.roster = m'.roster
  contacts : m.contacts = m'.contacts
  conversations : PyDict.Rel Conversation.Alike m.conversations m'.conversations
  rooms : m.rooms = m'.rooms
  typing : m.typing = m'.typing
  active : m.active = m'.active

section Alike

variable [Crypto]

/-- Two outputs of `seal` under one key, one sender and one nonce. -/
def SealedAlike (s s' : Str × Str) : Prop :=
  ∃ key sender nonce t t', Crypto.seal' key t sender nonce = .ok s ∧ Crypto.seal' key t' sender nonce = .ok s'

/-- The same call, but for ciphertexts and nonces that `seal` returned. -/
inductive Call.Alike : Call → Call → Prop
  | same (x : Call) : Alike x x
  | direct (target : Str) {s s' : Str × Str} (h : SealedAlike s s') :
      Alike (.message target s.1 (some s.2) []) (.message target s'.1 (some s'.2) [])
  | room (target : Str) {es es' : List (Str × Str × Str)}
      (h : PyDict.Rel SealedAlike es es') :
      Alike (.message target [] none es) (.message target [] none es')

/-- A call that does not show the text, and came to the same end; or the same frame. -/
inductive Entry.Alike : Entry → Entry → Prop
  | called {x x' : Call} (h : x.Alike x') (through : Bool) :
      Alike (.called x through) (.called x' through)
  | received (f : Frame) : Alike (.received f) (.received f)

namespace ChatController

/-- The two controllers differ in nothing that shows. -/
structure Alike (c c' : ChatController) : Prop where
  model : c.model.Alike c'.model
  keyring : ∃ k, c.keyring = some k ∧ c'.keyring = some k
  held : PyDict.Rel (List.Forall₂ TextAlike) c.held c'.held
  awaiting : c.awaiting = c'.awaiting
  pendingUser : c.pendingUser = c'.pendingUser
  pendingRoom : c.pendingRoom = c'.pendingRoom
  connection : c.connection = c'.connection
  clock : c.clock = c'.clock
  trace : List.Forall₂ Entry.Alike c.trace c'.trace

/-- A method that sees no difference between two such controllers. -/
abbrev Blind {α : Type} (m : ClientM α) : Prop := Sim Alike Eq m m

end ChatController

/-! ## The model -/

omit [Crypto] in
/-- Every message is like itself, -/
theorem Message.Alike.refl (m : Message) : m.Alike m := ⟨rfl, rfl, rfl, rfl, rfl⟩

omit [Crypto] in
/-- and every conversation is. -/
theorem Conversation.Alike.refl (c : Conversation) : c.Alike c :=
  ⟨List.forall₂_same.mpr fun m _ => .refl m, rfl⟩

omit [Crypto] in
/-- Alike messages may be added to both. -/
theorem Conversation.Alike.add {c c' : Conversation} (h : c.Alike c') {m m' : Message}
    (hm : m.Alike m') (active : Bool) : (c.add m active).Alike (c'.add m' active) where
  messages := List.rel_append h.messages (.cons hm .nil)
  unread := by rw [Conversation.add, Conversation.add, hm.mine, h.unread]

namespace ChatModel.Alike

variable {m m' : ChatModel}

omit [Crypto]

/-- A model is like itself. -/
theorem refl (m : ChatModel) : m.Alike m :=
  ⟨rfl, rfl, rfl, rfl, .refl Conversation.Alike.refl _, rfl, rfl, rfl⟩

/-- Looking a conversation up, or making it. -/
theorem conversation (h : m.Alike m') (key : Str) :
    (m.conversation key).Alike (m'.conversation key) :=
  h.conversations.getD key (.refl _)

/-- Putting one back. -/
theorem setConversation (h : m.Alike m') (key : Str) {c c' : Conversation} (hc : c.Alike c') :
    (m.setConversation key c).Alike (m'.setConversation key c') :=
  { h with conversations := h.conversations.insert key hc }

/-- Events are for the view, and a view makes no calls by itself. -/
theorem emit (h : m.Alike m') (es es' : List ChatModel.Event) : (m.emit es).Alike (m'.emit es') :=
  ⟨h.username, h.connectionState, h.roster, h.contacts, h.conversations, h.rooms, h.typing, h.active⟩

/-- Who is typing is no secret. -/
theorem setTyping (h : m.Alike m') (key : Str) (user : Json) (on : Bool) :
    (m.setTyping key user on).1.Alike (m'.setTyping key user on).1 ∧
      (m.setTyping key user on).2 = (m'.setTyping key user on).2 := by
  have hwho : m.who key = m'.who key := by
    unfold ChatModel.who
    rw [h.typing]
  have htyping : ∀ typing, ({ m with typing } : ChatModel).Alike { m' with typing } := fun _ => { h with typing := rfl }
  unfold ChatModel.setTyping
  rw [h.typing, hwho]
  dsimp only
  generalize (if on = true then _ else _ : List Json) = who'
  split
  · exact ⟨htyping _, rfl⟩
  · split
    · exact ⟨htyping _, rfl⟩
    · split
      · exact ⟨(htyping _).emit _ _, rfl⟩
      · exact ⟨htyping _, rfl⟩

/-- A message is put into its conversation, and whether it is counted does not depend on its
body. -/
theorem added (h : m.Alike m') (key : Str) {msg msg' : Message} (hm : msg.Alike msg') :
    (m.added key msg).1.Alike (m'.added key msg').1 ∧ (m.added key msg).2 = (m'.added key msg').2 := by
  unfold ChatModel.added
  have hadd := h.setConversation key ((h.conversation key).add hm (m'.active = some key))
  rw [hm.mine, hm.sender, h.active]
  cases msg'.mine with
  | true => exact ⟨hadd, rfl⟩
  | false => exact hadd.setTyping key msg'.sender false

/-- The same, and its sender has stopped typing. -/
theorem addMessage (h : m.Alike m') (key : Str) {msg msg' : Message} (hm : msg.Alike msg') :
    (m.addMessage key msg).1.Alike (m'.addMessage key msg').1 ∧
      (m.addMessage key msg).2 = (m'.addMessage key msg').2 := by
  obtain ⟨⟨es, hes⟩, hend⟩ := ChatModel.addMessage_added m key msg
  obtain ⟨⟨es', hes'⟩, hend'⟩ := ChatModel.addMessage_added m' key msg'
  obtain ⟨hadded, hsame⟩ := h.added key hm
  rw [hes, hes', hend, hend']
  exact ⟨hadded.emit es es', hsame⟩

/-- What was unread there is read. -/
theorem select (h : m.Alike m') (key : Str) : (m.select key).Alike (m'.select key) := by
  have hactive : ({ m with active := some key } : ChatModel).Alike { m' with active := some key } :=
    { h with active := rfl }
  have hread : ({ m.conversation key with unread := 0 } : Conversation).Alike { m'.conversation key with unread := 0 } :=
    ⟨(h.conversation key).messages, rfl⟩
  exact (hactive.setConversation key hread).emit _ _

/-- The conversation under `None` is no more than a default. -/
theorem conversationNone (h : m.Alike m') : m.conversationNone.Alike m'.conversationNone := { h with }

/-- Selecting `None` leaves nothing active. -/
theorem selectNone (h : m.Alike m') : m.selectNone.Alike m'.selectNone := by
  have hactive : ({ m with active := none } : ChatModel).Alike { m' with active := none } := { h with active := rfl }
  exact hactive.emit _ _

/-- A tick is looked up by id and set by rank. -/
theorem receive {ms ms' : List Message} (h : List.Forall₂ Message.Alike ms ms') (id state : Str) :
    List.Forall₂ Message.Alike (receive id state ms) (ChatModel.receive id state ms') := by
  induction h with
  | nil => exact .nil
  | @cons x y xs ys hxy hrest ih =>
    unfold ChatModel.receive
    rw [hxy.id, hxy.state]
    split
    · exact .cons hxy ih
    · split
      · exact .cons hxy hrest
      · exact .cons ⟨rfl, hxy.sender, hxy.ts, hxy.mine, rfl⟩ hrest

/-- The same, in the model. -/
theorem setReceipt (h : m.Alike m') (key id state : Str) :
    (m.setReceipt key id state).Alike (m'.setReceipt key id state) := by
  unfold ChatModel.setReceipt
  rcases h.conversations.get key with ⟨h₁, h₂⟩ | ⟨c, c', h₁, h₂, hc⟩
  · rw [h₁, h₂]
    exact h
  · rw [h₁, h₂]
    have hmoved : ({ c with messages := ChatModel.receive id state c.messages } : Conversation).Alike
        { c' with messages := ChatModel.receive id state c'.messages } := ⟨receive hc.messages id state, hc.unread⟩
    exact (h.setConversation key hmoved).emit _ _

/-- A page gives both conversations the same messages. -/
theorem loadHistory (h : m.Alike m') (key : Str) (ms : List Message) :
    (m.loadHistory key ms).Alike (m'.loadHistory key ms) := by
  have hloaded : ({ m.conversation key with messages := ms } : Conversation).Alike
      { m'.conversation key with messages := ms } :=
    ⟨List.forall₂_same.mpr fun x _ => .refl x, (h.conversation key).unread⟩
  exact (h.setConversation key hloaded).emit _ _

/-- The members of a room come from the server. -/
theorem setRoomMembers (h : m.Alike m') (room : Str) (members : List Str) :
    (m.setRoomMembers room members).Alike (m'.setRoomMembers room members) := by
  unfold ChatModel.setRoomMembers
  rw [h.rooms]
  simp only
  split
  · exact h
  · have hrooms : ({ m with rooms := PyDict.insert m'.rooms room (Str.sorted members) } :
        ChatModel).Alike { m' with rooms := PyDict.insert m'.rooms room (Str.sorted members) } :=
      { h with rooms := rfl }
    exact (hrooms.setConversation room (h.conversation room)).emit _ _

/-- So does who is online, -/
theorem setPresence (h : m.Alike m') (user : Str) (online : Bool) :
    (m.setPresence user online).Alike (m'.setPresence user online) := by
  have hfields : ∀ contacts roster, ({ m with contacts, roster } : ChatModel).Alike { m' with contacts, roster } :=
    fun _ _ => { h with contacts := rfl, roster := rfl }
  unfold ChatModel.setPresence
  rw [h.contacts, h.roster]
  exact (hfields _ _).emit _ _

/-- and the roster, -/
theorem replaceRoster (h : m.Alike m') (users : List Str) :
    (m.replaceRoster users).Alike (m'.replaceRoster users) := by
  unfold ChatModel.replaceRoster
  rw [h.roster]
  have hfields : ∀ roster, ({ m with roster } : ChatModel).Alike { m' with roster } := fun _ => { h with roster := rfl }
  exact (hfields _).emit _ _

/-- and the contacts: the same list is refused in both, or taken in both. -/
theorem replaceContacts [Runtime] (h : m.Alike m') (contacts : List Json) :
    (∃ e, m.replaceContacts contacts = .error e ∧ m'.replaceContacts contacts = .error e) ∨
      ∃ n n', m.replaceContacts contacts = .ok n ∧ m'.replaceContacts contacts = .ok n' ∧
        n.Alike n' := by
  unfold ChatModel.replaceContacts
  cases freshContacts contacts [] with
  | error e => exact .inl ⟨e, rfl, rfl⟩
  | ok fresh =>
    rw [h.contacts, h.roster]
    cases hsame : sameItems fresh m'.contacts with
    | true =>
      refine .inr ⟨m, m', ?_, ?_, h⟩ <;> simp [bind, Except.bind, pure, Except.pure, hsame]
    | false =>
      have hfresh : ({ m with
            contacts := fresh
            roster := fresh.foldl (fun roster e => PyDict.setDefault roster e.1 e.2) m'.roster } :
          ChatModel).Alike { m' with
            contacts := fresh
            roster := fresh.foldl (fun roster e => PyDict.setDefault roster e.1 e.2) m'.roster } :=
        { h with contacts := rfl, roster := rfl }
      refine .inr ⟨_, _, ?_, ?_, hfresh.emit [.contactsChanged] [.contactsChanged]⟩ <;> simp [bind, Except.bind, pure, Except.pure, hsame]

end ChatModel.Alike

/-! ## Calls and the keyring -/

section Methods

/-- A call that looks the same from outside. -/
theorem call_sim {x x' : Call} (h : x.Alike x') : Sim Alike Eq (call x) (call x') := by
  refine sim_get fun c c' hc => ?_
  rw [hc.connection, hc.trace.length_eq]
  have hlog : Sim Alike Eq (modify fun s : ChatController => { s with
        trace := s.trace ++ [.called x (c'.connection c'.trace.length).isSome] } : ClientM PUnit)
      (modify fun s : ChatController => { s with
        trace := s.trace ++ [.called x' (c'.connection c'.trace.length).isSome] }) :=
    sim_modify fun s s' hs => { hs with trace := List.rel_append hs.trace (.cons (.called h _) .nil) }
  refine (hlog.bind fun _ _ _ => ?_) c c' hc
  cases c'.connection c'.trace.length with
  | none => exact sim_throw _
  | some stamp => exact sim_pure rfl

/-- A call that names no text. -/
theorem call_blind (x : Call) : Blind (call x) := call_sim (.same x)

/-- A call whose answer nobody looks at. -/
theorem call_unit_blind (x : Call) : Blind (do let _ ← call x : ClientM Unit) :=
  (call_blind x).bind fun _ _ _ => sim_pure rfl

/-- A receipt names a message by its id. -/
theorem tryReceipt_blind (target ref : Json) (state : Str) : Blind (tryReceipt target ref state) :=
  (call_unit_blind _).tryCatch fun _ => sim_pure rfl

/-- A method of the model that keeps them alike. -/
theorem onModel_sim {f g : ChatModel → ChatModel} (h : ∀ m m', m.Alike m' → (f m).Alike (g m')) :
    Sim Alike Eq (onModel f) (onModel g) :=
  sim_modify fun _ _ hc => { hc with model := h _ _ hc.model }

/-- The same, where it may raise: it raises in both. -/
theorem onModel'_sim {f g : ChatModel → ChatModel × Except PyErr Unit}
    (h : ∀ m m', m.Alike m' → (f m).1.Alike (g m').1 ∧ (f m).2 = (g m').2) :
    Sim Alike Eq (onModel' f) (onModel' g) := by
  refine sim_get fun c c' hc => ?_
  obtain ⟨hmodel, hout⟩ := h _ _ hc.model
  have hset : Sim Alike Eq (onModel fun _ => (f c.model).1) (onModel fun _ => (g c'.model).1) :=
    onModel_sim fun _ _ _ => hmodel
  refine (hset.bind fun _ _ _ => ?_) c c' hc
  rw [hout]
  cases (g c'.model).2 with
  | ok _ => exact sim_pure rfl
  | error e => exact sim_throw _

/-- Two keyring methods that leave the keyring in the same state. -/
theorem onKeyring_sim {α β : Type} {A : α → β → Prop} {k : Keyring} {m : Keyring.KeyringM α}
    {n : Keyring.KeyringM β} (h : Sim Eq A m n) :
    Sim Alike A (onKeyring k m) (onKeyring k n) := by
  have hk := h k k rfl
  unfold onKeyring
  rcases hm : exec m k with ⟨e | a, k₁⟩ <;> rcases hn : exec n k with ⟨e' | b, k₂⟩ <;>
    rw [hm, hn] at hk
  · obtain ⟨rfl, rfl⟩ := hk
    refine Sim.bind (sim_modify fun _ _ hc => ?_) fun _ _ _ => sim_throw _
    exact { hc with keyring := ⟨k₁, rfl, rfl⟩ }
  · exact hk.elim
  · exact hk.elim
  · obtain ⟨hA, rfl⟩ := hk
    refine Sim.bind (sim_modify fun _ _ hc => ?_) fun _ _ _ => sim_pure hA
    exact { hc with keyring := ⟨k₁, rfl, rfl⟩ }

/-! ## Sealing -/

open Keyring in
/-- Both are sealed, or both raise: `seal` encodes what it is given first. -/
theorem sealWith_sim {t t' : Str} (h : t.encodable = t'.encodable) (key : Key) (sender : Str) :
    Sim Eq SealedAlike (sealWith key t sender) (sealWith key t' sender) := by
  intro k k' hk
  subst hk
  rw [exec_sealWith, exec_sealWith]
  by_cases hs : t.encodable = true ∧ sender.encodable = true
  · have hsealed := Crypto.seal_ok key (k.urandom k.drawn) hs.1 hs.2
    have hsealed' := Crypto.seal_ok key (k.urandom k.drawn) (h.symm.trans hs.1) hs.2
    rw [hsealed, hsealed']
    exact ⟨⟨key, sender, _, t, t', hsealed, hsealed'⟩, rfl⟩
  · have hs' : ¬ (t'.encodable = true ∧ sender.encodable = true) := by
      rw [← h]
      exact hs
    rw [Crypto.seal_error key _ hs, Crypto.seal_error key _ hs']
    exact ⟨rfl, rfl⟩

open Keyring in
/-- Two texts of which both or neither have an encoding are sealed, or not, under the same
key. -/
theorem seal'_sim {t t' : Str} (h : t.encodable = t'.encodable) (user sender : Str) :
    Sim Eq (Option.Rel SealedAlike) (seal' user t sender) (seal' user t' sender) := by
  refine (sim_self (key user)).bind ?_
  rintro key _ rfl
  cases key with
  | none => exact sim_pure .none
  | some key => exact (sealWith_sim h key sender).bind fun _ _ h => sim_pure (.some h)

open Keyring in
/-- The same for everyone in the list, in the same order. -/
theorem sealEach_sim {t t' : Str} (ht : t.encodable = t'.encodable) (sender : Str) (names : List Str) :
    Sim Eq (PyDict.Rel SealedAlike) (sealEach t sender names) (sealEach t' sender names) := by
  induction names with
  | nil => exact sim_pure .nil
  | cons name names ih =>
    refine (seal'_sim ht name sender).bind fun s s' h => ?_
    cases h with
    | none => exact sim_throw _
    | some h => exact ih.bind fun _ _ hrest => sim_pure (.cons ⟨rfl, h⟩ hrest)

open Keyring in
/-- `seal_for_members` returns envelopes for the same people, or none, or raises in both. -/
theorem sealForMembers_sim {t t' : Str} (h : t.encodable = t'.encodable) (members : List Str) (sender : Str) :
    Sim Eq (Option.Rel (PyDict.Rel SealedAlike)) (sealForMembers members t sender)
      (sealForMembers members t' sender) := by
  refine (sim_self _).bind fun _ _ _ => ?_
  refine (sim_self _).bind ?_
  rintro unknown _ rfl
  cases unknown with
  | true => exact sim_pure .none
  | false => exact (sealEach_sim h sender _).bind fun _ _ h => sim_pure (.some h)

/-! ## Sending -/

/-- The two texts are held in the same place, and the same keys are asked for. -/
theorem hold_sim {t t' : Str} (h : TextAlike t t') (target : Str) (fetch : List Str) :
    Sim Alike Eq (hold target t fetch) (hold target t' fetch) := by
  refine sim_get fun c c' hc => ?_
  rw [hc.held.has target]
  have hput : Sim Alike Eq (modify fun c : ChatController => { c with
        held := PyDict.insert c.held target ((PyDict.get c.held target).getD [] ++ [t]) } :
          ClientM PUnit)
      (modify fun c : ChatController => { c with
        held := PyDict.insert c.held target ((PyDict.get c.held target).getD [] ++ [t']) }) := by
    refine sim_modify fun c c' hc => { hc with held := hc.held.insert target ?_ }
    exact List.rel_append (hc.held.getD target .nil) (.cons h .nil)
  refine (hput.bind fun _ _ _ => ?_) c c' hc
  cases PyDict.has c'.held target with
  | true => exact sim_pure rfl
  | false =>
    exact sim_forM_self fun user => call_unit_blind _

/-- To a room they go out under the same envelopes' names, or are held. -/
theorem sendToRoom_sim {t t' : Str} (h : TextAlike t t') (k : Keyring) (room me : Str) :
    Sim Alike Eq (sendToRoom k room t me) (sendToRoom k room t' me) := by
  refine sim_get fun c c' hc => ?_
  have hmembers : c.model.roomMembers room = c'.model.roomMembers room := by
    rw [ChatModel.roomMembers, ChatModel.roomMembers, hc.model.rooms]
  rw [hmembers]
  refine (?_ : Sim Alike Eq _ _) c c' hc
  -- Held for the keys that are missing, sealed when none is.
  refine sim_ite ((hold_sim h room _).bind fun _ _ _ => sim_pure rfl) ?_
  refine (onKeyring_sim (sealForMembers_sim h.encodable _ me)).bind fun s s' hs => ?_
  cases hs with
  | none => exact (hold_sim h room _).bind fun _ _ _ => sim_pure rfl
  | some hs =>
    refine (call_sim (.room room hs)).bind ?_
    rintro stamp _ rfl
    exact sim_pure rfl

/-- Wherever they go, they go the same way. This is where a keyring is needed: without one
the text is sent as it is. -/
theorem transmit_sim {t t' : Str} (h : TextAlike t t') (target me : Str) :
    Sim Alike Eq (transmit target t me) (transmit target t' me) := by
  refine sim_get fun c c' hc => ?_
  obtain ⟨k, hk, hk'⟩ := hc.keyring
  rw [hk, hk']
  refine (?_ : Sim Alike Eq _ _) c c' hc
  cases target.isRoom with
  | true => exact sendToRoom_sim h k target me
  | false =>
    refine (onKeyring_sim (seal'_sim h.encodable target me)).bind fun s s' hs => ?_
    cases hs with
    | none => exact (hold_sim h target _).bind fun _ _ _ => sim_pure rfl
    | some hs =>
      refine (call_sim (.direct target hs)).bind ?_
      rintro stamp _ rfl
      exact sim_pure rfl

/-- Both are logged in under the same name. -/
theorem me_alike {c c' : ChatController} (h : c.Alike c') : c.me = c'.me := by
  rw [ChatController.me, ChatController.me, h.model.username]

/-- **Two texts, one behaviour.** -/
theorem send_sim {t t' : Str} (h : TextAlike t t') : Sim Alike Eq (send t) (send t') := by
  refine sim_get fun c c' hc => ?_
  rw [hc.model.active]
  refine (?_ : Sim Alike Eq _ _) c c' hc
  cases c'.model.active with
  | none => exact sim_pure rfl
  | some target =>
    simp only
    rw [h.nonBlank, h.nonBlank']
    refine sim_get fun c c' hc => ?_
    rw [me_alike hc]
    refine ((transmit_sim h target c'.me).bind ?_) c c' hc
    rintro stamp _ rfl
    cases stamp with
    | none => exact sim_pure rfl
    | some stamp => exact onModel'_sim fun m m' hm => hm.addMessage target ⟨rfl, rfl, rfl, rfl, rfl⟩

/-- A blank text is not sent. -/
theorem send_blank {t : Str} (h : t.strip.isEmpty = true) : Blind (send t) := by
  refine sim_get fun c c' hc => ?_
  rw [hc.model.active]
  refine (?_ : Sim Alike Eq _ _) c c' hc
  cases c'.model.active with
  | none => exact sim_pure rfl
  | some target =>
    simp only
    rw [h]
    exact sim_pure rfl

/-- Putting another conversation on screen for a while. -/
theorem setActive_blind (key : Option Str) : Blind (onModel fun m => { m with active := key }) :=
  onModel_sim fun _ _ hm => { hm with active := rfl }

/-- `_release` sends what is held for a name, which is alike in both, in the same order. -/
theorem release_blind (user : Str) : Blind (release user) := by
  refine sim_get fun c c' hc => ?_
  have hwaiting : List.Forall₂ TextAlike ((PyDict.get c.held user).getD [])
      ((PyDict.get c'.held user).getD []) := hc.held.getD user .nil
  have hpop : Blind (modify fun c : ChatController => { c with held := PyDict.erase c.held user } :
      ClientM PUnit) :=
    sim_modify fun _ _ hc => { hc with held := hc.held.erase user }
  rw [hc.model.active]
  refine (hpop.bind fun _ _ _ => ?_) c c' hc
  generalize (PyDict.get c.held user).getD [] = waiting at hwaiting
  generalize (PyDict.get c'.held user).getD [] = waiting' at hwaiting
  cases hwaiting with
  | nil => exact sim_pure rfl
  | cons ht hts =>
    refine (setActive_blind _).bind fun _ _ _ => ?_
    refine Sim.bind (A := Eq) (Sim.tryCatch ?_ fun e => ?_) fun _ _ _ => setActive_blind _
    · exact sim_forM (.cons ht hts) fun _ _ h => send_sim h
    · exact (setActive_blind _).bind fun _ _ _ => sim_throw e

/-! ## The other gestures -/

omit [Crypto] in
/-- What is unread is told by who wrote it, not by what it says. -/
theorem unread_alike {ms ms' : List Message} (h : List.Forall₂ Message.Alike ms ms') (n : Nat) :
    List.Forall₂ Message.Alike (ms.filter fun m => !m.mine && n ≠ 0)
      (ms'.filter fun m => !m.mine && n ≠ 0) := by
  induction h with
  | nil => exact .nil
  | cons hm _ ih =>
    simp only [List.filter_cons, hm.mine]
    split
    · exact .cons hm ih
    · exact ih

/-- `select` reports ids. -/
theorem select_blind (key : Str) : Blind (select key) := by
  refine sim_get fun c c' hc => ?_
  have hconv := hc.model.conversation key
  have hunread := unread_alike hconv.messages (c'.model.conversation key).unread
  simp only
  rw [hconv.unread]
  refine Sim.bind (A := Eq) (onModel_sim fun _ _ hm => hm.select key) (fun _ _ _ => ?_) c c' hc
  split
  · exact sim_pure rfl
  · refine sim_forM hunread fun m m' hm => ?_
    rw [hm.sender, hm.id]
    exact tryReceipt_blind _ _ _

/-- Selecting `None` raises in both. -/
theorem selectNone_blind : Blind selectNone :=
  (onModel_sim fun _ _ hm => hm.conversationNone.selectNone).bind fun _ _ _ => sim_throw _

/-- `typing` says nothing of the text. -/
theorem typing_blind (on : Bool) : Blind (typing on) := by
  refine sim_get fun c c' hc => ?_
  rw [hc.model.active]
  refine (?_ : Sim Alike Eq _ _) c c' hc
  cases c'.model.active with
  | none => exact sim_pure rfl
  | some active => exact call_unit_blind _

/-- `request_history` names a conversation and a number. -/
theorem requestHistory_blind (key : Option Str) (limit : Int) : Blind (requestHistory key limit) := by
  refine sim_get fun c c' hc => ?_
  rw [hc.model.active]
  refine (?_ : Sim Alike Eq _ _) c c' hc
  simp only
  cases (key.filter fun k => !k.isEmpty).or c'.model.active with
  | none => exact sim_pure rfl
  | some target => exact call_unit_blind _

/-- Joining and inviting name a room and users. -/
theorem joinAndInvite_blind (room : Str) (members : List Str) : Blind (joinAndInvite room members) := by
  refine (call_unit_blind _).bind fun _ _ _ => ?_
  split
  · exact call_unit_blind _
  · exact sim_pure rfl

/-- `open_room` does that, or creates the room. -/
theorem openRoom_blind (room : Str) (members : List Str) : Blind (openRoom room members) := by
  refine Sim.bind (A := Eq) (sim_modify fun _ _ hc => { hc with pendingRoom := rfl }) fun _ _ _ => ?_
  refine sim_get fun c c' hc => ?_
  rw [hc.model.rooms]
  refine (?_ : Sim Alike Eq _ _) c c' hc
  split
  · exact joinAndInvite_blind room members
  · exact call_unit_blind _

/-- `open_conversation` selects, opens a room, or asks for a key. -/
theorem openConversation_blind (user : Str) : Blind (openConversation user) := by
  refine sim_get fun c c' hc => ?_
  simp only
  rw [hc.model.username, hc.model.contacts, hc.model.roster]
  refine (?_ : Sim Alike Eq _ _) c c' hc
  split
  · exact sim_pure rfl
  split
  · exact openRoom_blind _ _
  split
  · exact sim_pure rfl
  split
  · exact select_blind _
  · refine Sim.bind (A := Eq) (sim_modify fun _ _ hc => { hc with pendingUser := rfl }) fun _ _ _ => ?_
    exact call_unit_blind _

/-! ## Frames -/

/-- A name is a room's in both. -/
theorem startsRoom_blind (v : Json) : Blind (startsRoom v) := by
  cases v with
  | str s => exact sim_pure rfl
  | _ => exact sim_throw _

/-- The clocks are the same. -/
theorem timeOf_blind (ts : Int) : Blind (timeOf ts) := by
  refine sim_ite (sim_pure rfl) ?_
  refine sim_get fun c c' hc => ?_
  rw [hc.clock, hc.trace.length_eq]
  exact ⟨rfl, hc⟩

/-- A computation without effects does not look at the state. -/
theorem lift_blind {α : Type} (x : Except PyErr α) : Blind (lift x) := by
  cases x with
  | error e => exact sim_throw _
  | ok a => exact sim_pure rfl

/-- What is opened is opened in both runs, under one keyring. -/
theorem opening_blind (body nonce : Json) (m : Keyring.KeyringM (Option Str)) : Blind (opening body nonce m) := by
  refine sim_get fun c c' hc => ?_
  obtain ⟨k, hk, hk'⟩ := hc.keyring
  rw [hk, hk']
  refine (?_ : Sim Alike Eq _ _) c c' hc
  refine sim_ite (sim_pure rfl) ?_
  refine (onKeyring_sim (sim_self _)).bind ?_
  rintro text _ rfl
  cases text with
  | none => exact sim_pure rfl
  | some text => exact sim_pure rfl

/-- `_plaintext` opens with the same keys and comes to the same text. -/
theorem plaintext_blind (f : Frame) (peer : Json) : Blind (plaintext f peer) := by
  rw [plaintext_eq]
  exact opening_blind _ _ _

/-- A message is reported as delivered by its id. -/
theorem reportDelivery_blind (f : Frame) (key : Json) : Blind (reportDelivery f key) := by
  refine sim_ite ?_ (sim_pure rfl)
  refine (startsRoom_blind key).bind ?_
  rintro room _ rfl
  exact sim_ite (tryReceipt_blind _ _ _) (sim_pure rfl)

/-- `_file` does the same to both. -/
theorem file_blind (f : Frame) (key : Json) : Blind (file f key) := by
  refine (reportDelivery_blind f key).bind fun _ _ _ => ?_
  refine (plaintext_blind f _).bind ?_
  rintro body _ rfl
  refine (timeOf_blind f.ts).bind ?_
  rintro ts _ rfl
  cases key with
  | str key =>
    refine Sim.bind (A := Eq) (sim_modify fun _ _ hc => { hc with model := hc.model }) fun _ _ _ => ?_
    exact onModel'_sim fun _ _ hm => hm.addMessage key (.refl _)
  | _ => exact sim_throw _

/-- A frame waits in both, and its key is asked for. -/
theorem keepAwaiting_blind (f : Frame) (peer : Json) : Blind (keepAwaiting f peer) := by
  refine sim_get fun c c' hc => ?_
  rw [hc.awaiting]
  refine Sim.bind (A := Eq) (sim_modify fun _ _ hc => ?_) (fun _ _ _ => ?_) c c' hc
  · exact { hc with awaiting := by rw [hc.awaiting] }
  · exact sim_ite (call_unit_blind _) (sim_pure rfl)

/-- Whether a frame waits is decided by the keyring, which is the same. -/
theorem incomingMessage_blind (f : Frame) : Blind (incomingMessage f) := by
  refine (startsRoom_blind _).bind ?_
  rintro room _ rfl
  refine sim_ite (sim_pure rfl) ?_
  refine sim_get fun c c' hc => ?_
  obtain ⟨k, hk, hk'⟩ := hc.keyring
  have hread : ∀ peer, c.unreadable f peer = c'.unreadable f peer := by
    intro peer
    rw [unreadable, unreadable, hk, hk', hc.model.username]
  rw [hread]
  refine (?_ : Sim Alike Eq _ _) c c' hc
  split
  · exact sim_throw _
  · exact keepAwaiting_blind f _
  · exact file_blind f _

/-- The same frames waited. -/
theorem deliverAwaiting_blind (user : Str) : Blind (deliverAwaiting user) := by
  refine sim_get fun c c' hc => ?_
  rw [hc.awaiting]
  refine Sim.bind (A := Eq) (sim_modify fun _ _ hc => ?_) (fun _ _ _ => ?_) c c' hc
  · exact { hc with awaiting := by rw [hc.awaiting] }
  · refine sim_forM_self fun f => (startsRoom_blind _).bind ?_
    rintro room _ rfl
    exact file_blind f _

/-- A room is released when its last key is there, in both. -/
theorem releaseRoom_blind (room : Str) : Blind (releaseRoom room) := by
  refine sim_get fun c c' hc => ?_
  obtain ⟨k, hk, hk'⟩ := hc.keyring
  rw [hk, hk', ChatModel.roomMembers, ChatModel.roomMembers, hc.model.rooms, hc.model.username]
  refine (?_ : Sim Alike Eq _ _) c c' hc
  exact sim_ite (release_blind room) (sim_pure rfl)

variable [Runtime]

/-- A KEY frame does in both what it does in one. -/
theorem key_blind (f : Frame) : Blind (ChatController.key f) := by
  refine sim_get fun c c' hc => ?_
  obtain ⟨k, hk, hk'⟩ := hc.keyring
  rw [hk, hk']
  refine (?_ : Sim Alike Eq _ _) c c' hc
  refine sim_ite (sim_pure rfl) ?_
  refine Sim.bind (A := Eq) (sim_modify fun _ _ hc => ?_) fun _ _ _ => ?_
  · exact { hc with keyring := ⟨_, rfl, rfl⟩ }
  refine (release_blind _).bind fun _ _ _ => ?_
  refine (deliverAwaiting_blind _).bind fun _ _ _ => ?_
  refine sim_get fun c c' hc => ?_
  rw [hc.held.keys]
  exact (sim_forM_self fun room => releaseRoom_blind room) c c' hc

/-- A RECEIPT frame names an id, -/
theorem receipt_blind (f : Frame) : Blind (receipt f) :=
  sim_ite (onModel_sim fun _ _ hm => hm.setReceipt _ _ _) (sim_pure rfl)

/-- a PRESENCE frame a user, -/
theorem presence_blind (f : Frame) : Blind (presence f) :=
  sim_ite (onModel_sim fun _ _ hm => hm.setPresence _ _) (sim_pure rfl)

omit [Runtime] in
/-- and a TYPING frame a user and a conversation. -/
theorem incomingTyping_blind (f : Frame) : Blind (incomingTyping f) := by
  refine sim_ite (sim_pure rfl) ?_
  refine (startsRoom_blind _).bind ?_
  rintro room _ rfl
  simp only
  split
  · exact onModel'_sim fun _ _ hm => hm.setTyping _ _ _
  · exact sim_ite (sim_pure rfl) (sim_throw _)

/-- A row of the history is opened with the same keys. -/
theorem storedPlaintext_blind (row : Dict) (key me : Str) : Blind (storedPlaintext row key me) := by
  obtain ⟨body, peer, author, h⟩ := storedPlaintext_eq row key me
  rw [h]
  exact opening_blind _ _ _

/-- All of them are, in order. -/
theorem storedMessages_blind (key : Str) (username : Option Str) (rows : List Json) :
    Blind (storedMessages key username rows) := by
  induction rows with
  | nil => exact sim_pure rfl
  | cons row rows ih =>
    have hone : Blind (storedMessage key username row) := by
      cases row with
      | dict row =>
        refine (storedPlaintext_blind row key _).bind ?_
        rintro body _ rfl
        refine (timeOf_blind 0).bind ?_
        rintro now _ rfl
        refine (lift_blind _).bind ?_
        rintro ts _ rfl
        exact sim_pure rfl
      | _ => exact sim_throw _
    refine hone.bind ?_
    rintro m _ rfl
    refine ih.bind ?_
    rintro ms _ rfl
    exact sim_pure rfl

/-- A HISTORY_RESULT loads the same page. -/
theorem historyResult_blind (f : Frame) : Blind (historyResult f) := by
  refine sim_ite (sim_pure rfl) ?_
  refine sim_get fun c c' hc => ?_
  rw [hc.model.username]
  refine ((lift_blind _).bind ?_) c c' hc
  rintro rows _ rfl
  refine (storedMessages_blind _ _ rows).bind ?_
  rintro ms _ rfl
  exact onModel_sim fun m m' hm => hm.loadHistory _ ms

/-- CONTACTS are refused in both, or taken in both. -/
theorem replaceContacts_blind (contacts : Json) : Blind (replaceContacts contacts) := by
  refine (lift_blind _).bind ?_
  rintro entries _ rfl
  refine sim_get fun c c' hc => ?_
  rcases hc.model.replaceContacts entries with ⟨e, h₁, h₂⟩ | ⟨n, n', h₁, h₂, hn⟩
  · rw [h₁, h₂]
    exact ⟨rfl, hc⟩
  · rw [h₁, h₂]
    exact (onModel_sim (f := fun _ => n) (g := fun _ => n') fun _ _ _ => hn) c c' hc

omit [Runtime] in
/-- The same conversation had been asked for. -/
theorem openPendingUser_blind : Blind openPendingUser := by
  refine sim_get fun c c' hc => ?_
  rw [hc.pendingUser, hc.model.contacts]
  refine (?_ : Sim Alike Eq _ _) c c' hc
  cases c'.pendingUser with
  | none => exact sim_pure rfl
  | some user =>
    refine sim_ite ?_ (sim_pure rfl)
    refine Sim.bind (A := Eq) (sim_modify fun _ _ hc => { hc with pendingUser := rfl }) fun _ _ _ => ?_
    exact select_blind user

/-- A ROOM_STATE sets the same members, and selects the same room if one was asked for. -/
theorem roomState_blind (f : Frame) : Blind (ChatController.roomState f) := by
  refine sim_ite (sim_pure rfl) ?_
  refine (lift_blind _).bind ?_
  rintro members _ rfl
  refine Sim.bind (A := Eq) (onModel_sim fun _ _ hm => hm.setRoomMembers _ _) fun _ _ _ => ?_
  refine sim_get fun c c' hc => ?_
  rw [hc.pendingRoom, ChatModel.roomMembers, ChatModel.roomMembers, hc.model.rooms,
    hc.model.username]
  refine (?_ : Sim Alike Eq _ _) c c' hc
  cases c'.pendingRoom with
  | none => exact sim_pure rfl
  | some pending =>
    refine sim_ite ?_ (sim_pure rfl)
    refine Sim.bind (A := Eq) (sim_modify fun _ _ hc => { hc with pendingRoom := rfl }) fun _ _ _ => ?_
    exact select_blind _

omit [Runtime] in
/-- An ERROR gives up the same. -/
theorem onError_blind (code : Str) : Blind (onError code) := by
  refine sim_ite (sim_modify fun _ _ hc => { hc with pendingUser := rfl }) ?_
  refine sim_ite ?_ (sim_ite (sim_modify fun _ _ hc => { hc with pendingRoom := rfl }) (sim_pure rfl))
  refine sim_get fun c c' hc => ?_
  rw [hc.pendingRoom]
  refine (?_ : Sim Alike Eq _ _) c c' hc
  cases c'.pendingRoom with
  | none => exact sim_pure rfl
  | some pending => exact joinAndInvite_blind _ _

/-- A LOGIN_OK is taken over by both. -/
theorem loggedIn_blind (f : Frame) : Blind (loggedIn f) := by
  have hrest : Blind (do
      let roster ← lift (iter ((f.get "roster").orElse (.list [])))
      onModel fun m => m.replaceRoster (roster.map Json.pyStr)
      replaceContacts (f.get "contacts") : ClientM Unit) := by
    refine (lift_blind _).bind ?_
    rintro roster _ rfl
    refine Sim.bind (A := Eq) (onModel_sim fun _ _ hm => hm.replaceRoster _) fun _ _ _ => ?_
    exact replaceContacts_blind _
  unfold loggedIn
  refine sim_ite ?_ ?_
  · refine Sim.bind (A := Eq) (onModel_sim fun _ _ hm => { hm with username := rfl }) fun _ _ _ => ?_
    exact hrest
  · exact hrest

/-- **No frame tells them apart**, whatever its type. -/
theorem onFrame_blind (f : Frame) : Blind (onFrame f) := by
  refine Sim.bind (A := Eq) (sim_modify fun _ _ hc => ?_) fun _ _ _ => ?_
  · exact { hc with trace := List.rel_append hc.trace (.cons (.received f) .nil) }
  split
  · exact incomingMessage_blind f
  · exact presence_blind f
  · exact incomingTyping_blind f
  · exact receipt_blind f
  · exact key_blind f
  · exact historyResult_blind f
  · exact (replaceContacts_blind _).bind fun _ _ _ => openPendingUser_blind
  · exact roomState_blind f
  · exact loggedIn_blind f
  · exact onError_blind _
  · exact sim_pure rfl

/-! ## Runs -/

/-- The same gesture, but for the text of a `send`. -/
inductive GestureAlike : Gesture → Gesture → Prop
  | same (g : Gesture) : GestureAlike g g
  | send {t t' : Str} (h : t.nonBlank) (h' : t'.nonBlank) : GestureAlike (.send t) (.send t')

/-- What is typed has an encoding. -/
def ChatController.Gesture.encodes : Gesture → Bool
  | .send text => text.encodable
  | _ => true

/-- Neither do two gestures that differ in a text at most. -/
theorem handle_sim {g g' : Gesture} (h : GestureAlike g g') (hcoded : g.encodes = g'.encodes) :
    Sim Alike Eq (handle g) (handle g') := by
  cases h with
  | send h h' => exact send_sim ⟨h, h', hcoded⟩
  | same g =>
    cases g with
    | send t =>
      cases ht : t.strip.isEmpty with
      | true => exact send_blank ht
      | false => exact send_sim ⟨ht, ht, rfl⟩
    | select key => exact select_blind key
    | selectNone => exact selectNone_blind
    | ping => exact call_unit_blind _
    | typing on => exact typing_blind on
    | requestHistory key limit => exact requestHistory_blind key limit
    | createRoom room members => exact call_unit_blind _
    | invite room members => exact call_unit_blind _
    | openConversation user => exact openConversation_blind user
    | openRoom room members => exact openRoom_blind room members
    | addContact user => exact call_unit_blind _
    | removeContact user => exact call_unit_blind _
    | join room => exact call_unit_blind _
    | leave room => exact call_unit_blind _
    | frame f => exact onFrame_blind f
    | state s =>
      exact onModel_sim (f := fun m => m.setConnectionState s) (g := fun m => m.setConnectionState s)
        fun _ _ hm => ⟨hm.username, rfl, hm.roster, hm.contacts, hm.conversations, hm.rooms,
          hm.typing, hm.active⟩

/-- **One input** leaves them alike. -/
theorem step_alike {c c' : ChatController} (hc : c.Alike c') {g g' : Gesture}
    (hg : GestureAlike g g') (hcoded : g.encodes = g'.encodes) : (c.step g).Alike (c'.step g') := by
  have h := handle_sim hg hcoded c c' hc
  unfold step
  rcases hs : exec (handle g) c with ⟨e | a, s⟩ <;>
    rcases ht : exec (handle g') c' with ⟨e' | b, t⟩ <;> rw [hs, ht] at h
  · exact h.2
  · exact h.elim
  · exact h.elim
  · exact h.2

/-- And so does a run, input by input. -/
theorem run_alike {c c' : ChatController} (hc : c.Alike c') {gs gs' : List Gesture}
    (hgs : List.Forall₂ GestureAlike gs gs') (hcoded : gs.map Gesture.encodes = gs'.map Gesture.encodes) :
    (c.run gs).Alike (c'.run gs') := by
  induction hgs generalizing c c' with
  | nil => exact hc
  | cons hg _ ih =>
    obtain ⟨hhead, htail⟩ := List.cons.inj hcoded
    exact ih (step_alike hc hg hhead) htail

/-- The calls on the connection, each with whether it got through. -/
def ChatController.calls (c : ChatController) : List (Call × Bool) :=
  c.trace.filterMap fun
    | .called x through => some (x, through)
    | .received _ => none

omit [Runtime] in
/-- The calls on alike traces are alike, pair by pair. -/
theorem calls_alike {es es' : List Entry} (h : List.Forall₂ Entry.Alike es es') :
    List.Forall₂ (fun x x' => x.1.Alike x'.1 ∧ x.2 = x'.2)
      (es.filterMap fun | .called x through => some (x, through) | .received _ => none)
      (es'.filterMap fun | .called x through => some (x, through) | .received _ => none) := by
  induction h with
  | nil => exact .nil
  | cons he _ ih =>
    cases he with
    | called hx through => exact .cons ⟨hx, rfl⟩ ih
    | received f => exact ih

/-- The same calls up to the ciphertexts and nonces `seal` returned. -/
def ConcealedBy (c c' : ChatController) : Prop :=
  List.Forall₂ (fun x x' => x.1.Alike x'.1 ∧ x.2 = x'.2) c.calls c'.calls

/-- **Nothing typed shows in the calls**, but whether it can be encoded. Two runs of a
controller with a keyring that differ in the non-blank texts typed make the same calls, up
to the ciphertexts and nonces `seal` returned, if wherever a text is typed it has an
encoding in both or in neither: for a text without one no call is made. -/
theorem calls_conceal (k : Keyring) (connection : Outlet) (clock : Nat → Int)
    {gs gs' : List Gesture} (hgs : List.Forall₂ GestureAlike gs gs')
    (hcoded : gs.map Gesture.encodes = gs'.map Gesture.encodes) :
    ConcealedBy (({ keyring := some k, connection, clock } : ChatController).run gs)
      (({ keyring := some k, connection, clock } : ChatController).run gs') := by
  have hstart : ({ keyring := some k, connection, clock } : ChatController).Alike
      { keyring := some k, connection, clock } :=
    ⟨.refl _, ⟨k, rfl, rfl⟩, .nil, rfl, rfl, rfl, rfl, rfl, .nil⟩
  exact calls_alike (run_alike hstart hgs hcoded).trace

end Methods

end Alike

/-! ## A text that waits for its key -/

namespace Sample

/-- A cipher for the examples: the text backwards. -/
@[reducible] def toyCrypto : Crypto where
  publicB64 _ := "p"
  keyFor _ _ := .ok [0]
  encrypt _ text _ _ := (text.reverse, "n")
  open' _ _ _ _ := .failed

/-- A keyring that has been told nothing. -/
def toyKeyring : Keyring where
  identity := []
  urandom _ := []

/-- Two texts for `b`, the first before `b`'s key is here. -/
def typed (t t' : Str) : List Gesture :=
  [.select "b", .send t,
    .frame { type := .key, data := [("user", .str "b"), ("pubkey", .str "q")], id := .str "i", ts := 0 },
    .send t']

/-- One text for `b`, whose key is here. -/
def typedOnce (t : Str) : List Gesture :=
  [.select "b", .frame { type := .key, data := [("user", .str "b"), ("pubkey", .str "q")], id := .str "i", ts := 0 },
    .send t]

/-- A client with that keyring, whose connection is up. -/
def toyClient : ChatController where
  keyring := some toyKeyring
  connection _ := some ("i", 1)
  clock _ := 0

end Sample

section Concrete

open Sample

attribute [local instance] toyCrypto sampleRuntime

/-- The key is asked for, and both texts leave sealed. -/
theorem typed_conceal :
    (toyClient.run (typed "hi" "ho")).calls =
      [(.getKey (.str "b"), true), (.message "b" "ih" (some "n") [], true),
        (.message "b" "oh" (some "n") [], true)] ∧
    ConcealedBy (toyClient.run (typed "hi" "ho")) (toyClient.run (typed "x" "y")) := by
  refine ⟨by decide +kernel, calls_conceal toyKeyring (fun _ => some ("i", 1)) (fun _ => 0) ?_ (by decide)⟩
  have hsend : ∀ t t' : Str, t.strip.isEmpty = false → t'.strip.isEmpty = false →
      GestureAlike (.send t) (.send t') := fun t t' h h' => .send h h'
  exact .cons (.same _) (.cons (hsend _ _ (by decide) (by decide))
    (.cons (.same _) (.cons (hsend _ _ (by decide) (by decide)) .nil)))

/-- Half of a pair of surrogates is not sent, and that shows. -/
theorem typed_reveal : List.Forall₂ GestureAlike (typedOnce "hi") (typedOnce [0xD800]) ∧
    ¬ ConcealedBy (toyClient.run (typedOnce "hi")) (toyClient.run (typedOnce [0xD800])) := by
  have hsend : GestureAlike (.send "hi") (.send [0xD800]) := .send (by unfold Str.nonBlank; decide) (by unfold Str.nonBlank; decide)
  refine ⟨.cons (.same _) (.cons (.same _) (.cons hsend .nil)), fun h => ?_⟩
  have hlength := h.length_eq
  revert hlength
  decide +kernel

end Concrete

end Ciphertext
