import Ciphertext.Client.Keyring

/-!
# `ChatModel` — what the client shows

The model of `im/client/model/chat.py` and `conversation.py`. A mutation also
emits an event. The listeners only draw, so nothing comes back from them as long as
drawing does not raise (`Screen` has that); the model keeps what it has emitted, in
order, and with each event what a listener that is told of it finds in the model.
`raise_error` changes nothing and is left to the view. The methods that read a frame's
own data (`replace_contacts`, `set_typing`) meet JSON values and can raise on them.
-/

namespace Ciphertext

/-- `ROOM_PREFIX`, as the client's modules have it. -/
def clientRoomPrefix : Str := "#"

def Str.isRoom (s : Str) : Bool := s.startsWith clientRoomPrefix

/-- One line of chat. -/
structure Message where
  id : Json
  sender : Json
  body : Json
  ts : Int
  mine : Bool := false
  state : Str := "SENT"
deriving DecidableEq

structure Conversation where
  messages : List Message := []
  unread : Nat := 0
deriving DecidableEq

/-- `Conversation.add`. -/
def Conversation.add (c : Conversation) (m : Message) (active : Bool) : Conversation where
  messages := c.messages ++ [m]
  unread := if !active && !m.mine then c.unread + 1 else c.unread

/-- What the listeners are told. -/
inductive ChatModel.Event where
  | messageAdded (conversation : Str)
  | unreadChanged (conversation : Str) (unread : Nat)
  | receiptChanged (conversation : Str)
  | historyLoaded (conversation : Str)
  | conversationSelected (conversation : Option Str)
  | typingChanged (conversation : Str)
  | presenceChanged (user : Str) (online : Bool)
  | roomMembersChanged (room : Str)
  | rosterReplaced
  | contactsChanged
  | connectionStateChanged (state : Str)
  | identityEstablished (username : Str)
deriving DecidableEq

/-- The attributes of a `ChatModel`. -/
structure ChatModel.Fields where
  username : Option Str := none
  connectionState : Str := "DISCONNECTED"
  roster : List (Str × Bool) := []
  contacts : List (Str × Bool) := []
  conversations : List (Str × Conversation) := []
  /-- The conversation that `conversations` has under the key `None`, if it has that key -/
  nameless : Option Conversation := none
  rooms : List (Str × List Str) := []
  typing : List (Str × List Json) := []
  active : Option Str := none

structure ChatModel extends ChatModel.Fields where
  /-- What has been emitted, each event with what there is to see at that moment -/
  emitted : List (ChatModel.Event × ChatModel.Fields) := []

namespace ChatModel

/-- `_emit`, one after the other. -/
def emit (m : ChatModel) (es : List Event) : ChatModel :=
  { m with emitted := m.emitted ++ es.map fun e => (e, m.toFields) }

@[simp] theorem emit_toFields (m : ChatModel) (es : List Event) : (m.emit es).toFields = m.toFields := rfl

theorem emit_nil (m : ChatModel) : m.emit [] = m := by
  unfold emit
  rw [List.map_nil, List.append_nil]

def setIdentity (m : ChatModel) (username : Str) : ChatModel :=
  ({ m with username := some username } : ChatModel).emit [.identityEstablished username]

def setConnectionState (m : ChatModel) (state : Str) : ChatModel :=
  ({ m with connectionState := state } : ChatModel).emit
    (if state = m.connectionState then [] else [.connectionStateChanged state])

/-! ## The roster -/

/-- Everyone who was online at login; anyone else already known is offline. -/
def replaceRoster (m : ChatModel) (users : List Str) : ChatModel :=
  let known := users.foldl (fun roster name => PyDict.insert roster name true) m.roster
  ({ m with roster := known.map fun e => if users.contains e.1 then e else (e.1, false) } : ChatModel).emit
    [.rosterReplaced]

/-- `set_presence`. Only a change of the roster is announced. -/
def setPresence (m : ChatModel) (user : Str) (online : Bool) : ChatModel :=
  ({ m with
    contacts := if PyDict.has m.contacts user then PyDict.insert m.contacts user online
      else m.contacts
    roster := if PyDict.get m.roster user = some online then m.roster
      else PyDict.insert m.roster user online } : ChatModel).emit
    (if PyDict.get m.roster user = some online then [] else [.presenceChanged user online])

def isOnline (m : ChatModel) (user : Str) : Bool := (PyDict.get m.roster user).getD false

section Contacts

variable [Runtime]

/-- The dictionary `replace_contacts` builds from the server's list. -/
def freshContacts : List Json → List (Str × Bool) → Except PyErr (List (Str × Bool))
  | [], fresh => .ok fresh
  | .dict entry :: rest, fresh =>
    let user := Json.get entry "user"
    if user.truthy then
      freshContacts rest (PyDict.insert fresh user.pyStr (Json.get entry "online").truthy)
    else freshContacts rest fresh
  | _ :: _, _ => .error .attributeError

/-- `fresh == self.contacts`: the same items, in whatever order. -/
def sameItems (d d' : List (Str × Bool)) : Bool :=
  d.length == d'.length && d.all fun e => PyDict.get d' e.1 == some e.2

def replaceContacts (m : ChatModel) (contacts : List Json) : Except PyErr ChatModel := do
  let fresh ← freshContacts contacts []
  if sameItems fresh m.contacts then return m
  return ({ m with
    contacts := fresh
    roster := fresh.foldl (fun roster e => PyDict.setDefault roster e.1 e.2) m.roster } : ChatModel).emit
      [.contactsChanged]

/-- It is about the contacts and the roster alone. -/
theorem replaceContacts_cases {m m' : ChatModel} {contacts : List Json} (h : m.replaceContacts contacts = .ok m') :
    ∃ contacts roster es, m' = ({ m with contacts, roster } : ChatModel).emit es ∧ ∀ e ∈ es, e = .contactsChanged := by
  unfold replaceContacts at h
  cases hfresh : freshContacts contacts [] with
  | error e =>
    rw [hfresh] at h
    cases h
  | ok fresh =>
    rw [hfresh] at h
    change (if sameItems fresh m.contacts = true then Except.ok m else Except.ok _) = _ at h
    split at h
    · cases h
      exact ⟨m.contacts, m.roster, [], (emit_nil m).symm, nofun⟩
    · cases h
      exact ⟨_, _, _, rfl, fun e he => List.mem_singleton.mp he⟩

end Contacts

/-! ## Conversations -/

/-- `conversation`: fetched, or created the first time. -/
def conversation (m : ChatModel) (key : Str) : Conversation :=
  (PyDict.get m.conversations key).getD {}

/-- Put a conversation back. -/
def setConversation (m : ChatModel) (key : Str) (c : Conversation) : ChatModel :=
  { m with conversations := PyDict.insert m.conversations key c }

/-- Who types in a conversation. -/
def who (m : ChatModel) (key : Str) : List Json := (PyDict.get m.typing key).getD []

/-- `set_typing`. The set of those who type needs hashable names, and once it has
changed its event sorts them. -/
def setTyping (m : ChatModel) (key : Str) (user : Json) (typing : Bool) :
    ChatModel × Except PyErr Unit :=
  let who := m.who key
  if !user.hashable then
    ({ m with typing := PyDict.insert m.typing key who }, .error .typeError)
  else
    let who' := if typing then if who.any user.pyEq then who else who ++ [user]
      else who.filter fun v => !user.pyEq v
    let m' := { m with typing := PyDict.insert m.typing key who' }
    if who' = who then (m', .ok ())
    else if Json.sortable who' then (m'.emit [.typingChanged key], .ok ())
    else (m', .error .typeError)

/-- Who types in the conversation afterwards. -/
theorem typing_of_setTyping (m : ChatModel) (key : Str) (user : Json) (on : Bool) :
    (m.setTyping key user on).1.typing = PyDict.insert m.typing key
      (if !user.hashable then m.who key
      else if on then if (m.who key).any user.pyEq then m.who key else m.who key ++ [user]
      else (m.who key).filter fun v => !user.pyEq v) := by
  unfold setTyping
  dsimp only
  generalize (if on = true then _ else _ : List Json) = who'
  split
  · rfl
  · split
    · rfl
    · split
      · rfl
      · rfl

/-- It is about who types alone. -/
theorem setTyping_eq (m : ChatModel) (key : Str) (user : Json) (on : Bool) :
    ∃ typing es, (m.setTyping key user on).1 = ({ m with typing } : ChatModel).emit es ∧
      ∀ e ∈ es, e = .typingChanged key := by
  unfold setTyping
  dsimp only
  generalize (if on = true then _ else _ : List Json) = who'
  split
  · exact ⟨_, [], (emit_nil _).symm, nofun⟩
  · split
    · exact ⟨_, [], (emit_nil _).symm, nofun⟩
    · split
      · exact ⟨_, _, rfl, fun e he => List.mem_singleton.mp he⟩
      · exact ⟨_, [], (emit_nil _).symm, nofun⟩

/-- The message in its conversation. One of somebody else's ends their typing. -/
def added (m : ChatModel) (key : Str) (message : Message) : ChatModel × Except PyErr Unit :=
  let m' := m.setConversation key ((m.conversation key).add message (m.active = some key))
  if message.mine then (m', .ok ()) else m'.setTyping key message.sender false

/-- What is announced of it. -/
def arrival (key : Str) (before after : Conversation) : List Event :=
  .messageAdded key :: if after.unread ≠ before.unread then [.unreadChanged key after.unread] else []

/-- `add_message`. -/
def addMessage (m : ChatModel) (key : Str) (message : Message) : ChatModel × Except PyErr Unit :=
  let r := m.added key message
  match r.2 with
  | .ok () => (r.1.emit (arrival key (m.conversation key) (r.1.conversation key)), .ok ())
  | .error e => (r.1, .error e)

/-- Beside its events it comes to that. -/
theorem addMessage_added (m : ChatModel) (key : Str) (message : Message) :
    (∃ es, (m.addMessage key message).1 = (m.added key message).1.emit es) ∧
      (m.addMessage key message).2 = (m.added key message).2 := by
  unfold addMessage
  generalize m.added key message = r
  obtain ⟨m', e | u⟩ := r
  · exact ⟨⟨[], (emit_nil m').symm⟩, rfl⟩
  · exact ⟨⟨_, rfl⟩, rfl⟩

theorem conversation_set (m : ChatModel) (key key' : Str) (c : Conversation) :
    (m.setConversation key c).conversation key' = if key' = key then c else m.conversation key' := by
  unfold conversation setConversation
  split
  next h => rw [h, PyDict.get_insert_self]; rfl
  next h => rw [PyDict.get_insert_ne _ _ h]

/-- `set_typing(key, user, False)` returns: the name can be in a set, and if it is in
this one, those who are left can be sorted. -/
def Settles (m : ChatModel) (key : Str) (user : Json) : Prop :=
  user.hashable = true ∧
    ((m.who key).any user.pyEq = true → Json.sortable ((m.who key).filter fun v => !user.pyEq v) = true)

instance (m : ChatModel) (key : Str) (user : Json) : Decidable (m.Settles key user) :=
  inferInstanceAs (Decidable (_ ∧ _))

theorem setTyping_end (m : ChatModel) (key : Str) (user : Json) :
    (m.setTyping key user false).2 = if m.Settles key user then .ok () else .error .typeError := by
  unfold setTyping
  by_cases hh : user.hashable = true
  case neg =>
    have hno : ¬ m.Settles key user := fun hs => hh hs.1
    simp [hh, hno]
  have hsettles : m.Settles key user ↔
      ((m.who key).any user.pyEq = true → Json.sortable ((m.who key).filter fun v => !user.pyEq v) = true) :=
    and_iff_right hh
  -- nobody is left out exactly when the name is not there
  have hsame : (m.who key).filter (fun v => !user.pyEq v) = m.who key ↔ (m.who key).any user.pyEq = false := by
    rw [List.filter_eq_self, List.any_eq_false]
    simp
  by_cases hany : (m.who key).any user.pyEq = true
  · have hne : (m.who key).filter (fun v => !user.pyEq v) ≠ m.who key := fun he => by
      rw [hsame.mp he] at hany
      cases hany
    simp only [hh, hsettles, hany, Bool.not_true, Bool.false_eq_true, if_false, if_neg hne, forall_const]
    split
    · rfl
    · rfl
  · have hstays := hsame.mpr (by simpa using hany)
    simp only [hsettles, hany, hstays]
    simp [hh]

/-- Only those who type matter to it. -/
theorem Settles.of_typing {m m' : ChatModel} {key : Str} {user : Json} (h : m.Settles key user)
    (ht : m'.typing = m.typing) : m'.Settles key user := by
  unfold Settles who at h ⊢
  rw [ht]
  exact h

/-- One after the other stops typing, and each `set_typing` returns. -/
def SettlesAll : ChatModel → List (Str × Json) → Prop
  | _, [] => True
  | m, (key, user) :: rest => m.Settles key user ∧ (m.setTyping key user false).1.SettlesAll rest

theorem typing_setTyping {m m' : ChatModel} (h : m'.typing = m.typing) (key : Str) (user : Json) (on : Bool) :
    (m'.setTyping key user on).1.typing = (m.setTyping key user on).1.typing := by
  have hwho : m'.who key = m.who key := congrArg (fun d => (PyDict.get d key).getD []) h
  unfold setTyping
  dsimp only
  rw [hwho, h]
  generalize (if on = true then _ else _ : List Json) = who'
  split
  · rfl
  · split
    · rfl
    · split
      · rfl
      · rfl

theorem SettlesAll.of_typing {rest : List (Str × Json)} : ∀ {m m' : ChatModel}, m.SettlesAll rest →
    m'.typing = m.typing → m'.SettlesAll rest := by
  induction rest with
  | nil => exact fun _ _ => trivial
  | cons e rest ih => exact fun h ht => ⟨h.1.of_typing ht, ih h.2 (typing_setTyping ht ..)⟩

theorem setTyping_conversations (m : ChatModel) (key : Str) (user : Json) (on : Bool) :
    (m.setTyping key user on).1.conversations = m.conversations := by
  obtain ⟨typing, es, hset, -⟩ := setTyping_eq m key user on
  rw [hset]
  rfl

/-- The message is in its conversation, and nothing else changes there. -/
theorem addMessage_conversations (m : ChatModel) (key : Str) (message : Message) :
    (m.addMessage key message).1.conversations =
      (m.setConversation key ((m.conversation key).add message (m.active = some key))).conversations := by
  obtain ⟨⟨es, hes⟩, -⟩ := m.addMessage_added key message
  rw [hes]
  show (m.added key message).1.conversations = _
  unfold added
  cases message.mine with
  | true => rfl
  | false => exact setTyping_conversations ..

/-- One's own message goes in without more ado. -/
theorem addMessage_mine (m : ChatModel) (key : Str) {message : Message} (h : message.mine = true) :
    m.addMessage key message =
      ((m.setConversation key ((m.conversation key).add message (m.active = some key))).emit [.messageAdded key],
        .ok ()) := by
  have hread : ((m.conversation key).add message (m.active = some key)).unread = (m.conversation key).unread := by
    simp [Conversation.add, h]
  have hadded : m.added key message =
      (m.setConversation key ((m.conversation key).add message (m.active = some key)), .ok ()) := by
    unfold added
    rw [if_pos h]
  unfold addMessage
  rw [hadded]
  dsimp only
  rw [conversation_set, if_pos rfl, arrival, if_neg (not_not_intro hread)]

/-- Somebody else's raises, when it is in, unless the typing settles. -/
theorem addMessage_end (m : ChatModel) (key : Str) {message : Message} (h : message.mine = false) :
    (m.addMessage key message).2 = if m.Settles key message.sender then .ok () else .error .typeError := by
  rw [(addMessage_added m key message).2]
  unfold added
  rw [h]
  exact setTyping_end (m.setConversation key ((m.conversation key).add message (m.active = some key))) key message.sender

/-- Of those who type it takes out its sender. -/
theorem typing_addMessage (m : ChatModel) (key : Str) {message : Message} (h : message.mine = false) :
    (m.addMessage key message).1.typing = (m.setTyping key message.sender false).1.typing := by
  obtain ⟨⟨es, hes⟩, -⟩ := m.addMessage_added key message
  rw [hes]
  show (m.added key message).1.typing = _
  unfold added
  rw [h]
  have hset : (m.setConversation key ((m.conversation key).add message (m.active = some key))).typing = m.typing := rfl
  exact typing_setTyping hset key message.sender false

def loadHistory (m : ChatModel) (key : Str) (messages : List Message) : ChatModel :=
  (m.setConversation key { m.conversation key with messages }).emit [.historyLoaded key]

theorem conversation_loadHistory (m : ChatModel) (key : Str) (messages : List Message) (key' : Str) :
    (m.loadHistory key messages).conversation key' =
      if key' = key then { m.conversation key with messages } else m.conversation key' := conversation_set ..

/-- The place of a receipt's state in the order of receipts. -/
def receiptOrder (state : Str) : Nat :=
  if state = "DELIVERED" then 1 else if state = "READ" then 2 else 0

/-- Replace the first message with the id, unless that would move it back. -/
def receive (id : Str) (state : Str) : List Message → List Message
  | [] => []
  | m :: ms =>
    if m.id ≠ .str id then m :: receive id state ms
    else if receiptOrder state ≤ receiptOrder m.state then m :: ms
    else { m with state } :: ms

/-- `set_receipt`. One that moves nothing is not announced. -/
def setReceipt (m : ChatModel) (key id state : Str) : ChatModel :=
  match PyDict.get m.conversations key with
  | none => m
  | some c =>
    let messages := receive id state c.messages
    (m.setConversation key { c with messages }).emit (if messages ≠ c.messages then [.receiptChanged key] else [])

/-- `select`. -/
def select (m : ChatModel) (key : Str) : ChatModel :=
  let c := m.conversation key
  ({ m with active := some key }.setConversation key { c with unread := 0 }).emit
    (.conversationSelected (some key) :: if c.unread ≠ 0 then [.unreadChanged key 0] else [])

/-- `conversation(None)`: the lookup makes the conversation. -/
def conversationNone (m : ChatModel) : ChatModel := { m with nameless := some (m.nameless.getD {}) }

/-- `select(None)`. -/
def selectNone (m : ChatModel) : ChatModel := { m with active := none }.emit [.conversationSelected none]

/-! ## Rooms -/

def setRoomMembers (m : ChatModel) (room : Str) (members : List Str) : ChatModel :=
  let ordered := Str.sorted members
  if PyDict.get m.rooms room = some ordered then m
  else
    (({ m with rooms := PyDict.insert m.rooms room ordered } : ChatModel).setConversation room
      (m.conversation room)).emit [.roomMembersChanged room]

/-- It is about the rooms and the conversations alone. -/
theorem setRoomMembers_eq (m : ChatModel) (room : Str) (members : List Str) :
    ∃ rooms conversations es, m.setRoomMembers room members = ({ m with rooms, conversations } : ChatModel).emit es ∧
      ∀ e ∈ es, e = .roomMembersChanged room := by
  unfold setRoomMembers
  dsimp only
  split
  · exact ⟨m.rooms, m.conversations, [], (emit_nil m).symm, List.forall_mem_nil _⟩
  · exact ⟨_, _, _, rfl, fun e he => List.mem_singleton.mp he⟩

def roomMembers (m : ChatModel) (room : Str) : List Str := (PyDict.get m.rooms room).getD []

end ChatModel

end Ciphertext
