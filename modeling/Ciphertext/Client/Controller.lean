import Ciphertext.Client.ChatModel
import Ciphertext.Common.Frames

/-!
# `ChatController` — gestures in, frames out; frames in, model updates out

The model of `im/client/controller/chat.py`. The connection below it is an
object the controller calls: `Call` is the surface it uses, and whether a call
raises `NotConnected`, or with which id and time it builds its frame, is for the
connection to say (`Outlet`). The controller's trace keeps every call with
whether it got through, and every frame it was handed, in order; `filed` keeps what
became a message of the model.

A method that raises leaves the fields as they were at that point, as the views
do, which print the exception and go on with the next input.
-/

namespace Ciphertext

/-- A call on the connection. -/
inductive Call where
  | message (target body : Str) (nonce : Option Str) (envelopes : List (Str × Str × Str))
  | typing (target : Str) (on : Bool)
  | getKey (user : Json)
  | history (room : Str) (limit : Int)
  | receipt (target ref : Json) (state : Str)
  | createRoom (room : Str) (members : List Str)
  | invite (room : Str) (members : List Str)
  | addContact (user : Str)
  | removeContact (user : Str)
  | join (room : Str)
  | leave (room : Str)
  | ping
deriving DecidableEq

/-- What the controller did and was told, in order. -/
inductive Entry where
  | called (c : Call) (through : Bool)
  | received (f : Frame)
deriving DecidableEq

/-- The id and the time of the frame the connection built, or `none` where it
raised `NotConnected`; by the length of the trace when it was called. -/
abbrev Outlet := Nat → Option (Str × Int)

structure ChatController where
  model : ChatModel := {}
  keyring : Option Keyring
  /-- `_held` -/
  held : List (Str × List Str) := []
  /-- `_awaiting`; its keys are compared as Python compares them -/
  awaiting : List (Json × List Frame) := []
  pendingUser : Option Str := none
  pendingRoom : Option (Str × List Str) := none
  /-- The frames put into the model so far, each with its conversation -/
  filed : List (Str × Frame) := []
  connection : Outlet
  /-- `now_ms`, by the length of the trace -/
  clock : Nat → Int
  trace : List Entry := []

/-- What a controller method does. -/
abbrev ClientM := Act ChatController ClientErr

namespace ChatController

/-- A call on the connection. -/
def call (x : Call) : ClientM (Str × Int) := do
  let c ← get
  let stamp := c.connection c.trace.length
  modify fun c => { c with trace := c.trace ++ [.called x stamp.isSome] }
  match stamp with
  | some stamp => return stamp
  | none => throw .notConnected

/-- `try: self.connection.receipt(...) except Exception: ...` -/
def tryReceipt (target ref : Json) (state : Str) : ClientM Unit :=
  tryCatch (do let _ ← call (.receipt target ref state)) fun _ => pure ()

/-- A change of the model. -/
def onModel (f : ChatModel → ChatModel) : ClientM Unit :=
  modify fun c => { c with model := f c.model }

/-- A change of the model that may raise half-way. -/
def onModel' (f : ChatModel → ChatModel × Except PyErr Unit) : ClientM Unit := do
  let r := f (← get).model
  onModel fun _ => r.1
  match r.2 with
  | .ok () => return ()
  | .error e => throw (.py e)

/-- A keyring method. -/
def onKeyring {α : Type} (k : Keyring) (m : Keyring.KeyringM α) : ClientM α := do
  let r := Act.exec m k
  modify fun c => { c with keyring := some r.2 }
  match r.1 with
  | .ok a => return a
  | .error e => throw e

/-- Plain code that may raise. -/
def lift {α : Type} : Except PyErr α → ClientM α
  | .ok a => pure a
  | .error e => throw (.py e)

/-- `self.model.username or "me"`. -/
def me (c : ChatController) : Str :=
  match c.model.username with
  | some u => if u.isEmpty then "me" else u
  | none => "me"

/-! ## Gestures -/

/-- `_hold`: queue a text, and ask for the keys when it is the first for its
target. -/
def hold (target text : Str) (fetch : List Str) : ClientM Unit := do
  let first := !PyDict.has (← get).held target
  modify fun c =>
    { c with held := PyDict.insert c.held target ((PyDict.get c.held target).getD [] ++ [text]) }
  if first then
    fetch.forM fun user => do let _ ← call (.getKey (.str user))

variable [Crypto]

/-- `_send_to_room`: seal for every member, or hold. -/
def sendToRoom (k : Keyring) (room text me : Str) : ClientM (Option (Str × Int)) := do
  let members := (← get).model.roomMembers room
  let missing := k.missingKeys (members.filter fun name => name ≠ me)
  if !missing.isEmpty then
    hold room text missing
    return none
  match ← onKeyring k (Keyring.sealForMembers members text me) with
  | none =>
    hold room text members
    return none
  | some envelopes => return some (← call (.message room [] none envelopes))

/-- What goes on the wire for a text, with the stamp of the frame; `none` when it
is held instead. -/
def transmit (target text me : Str) : ClientM (Option (Str × Int)) := do
  match (← get).keyring with
  | none => return some (← call (.message target text none []))
  | some k =>
    if target.isRoom then sendToRoom k target text me
    else
      match ← onKeyring k (Keyring.seal' target text me) with
      | none =>
        hold target text [target]
        return none
      | some (ciphertext, nonce) => return some (← call (.message target ciphertext (some nonce) []))

/-- `send`. -/
def send (text : Str) : ClientM Unit := do
  match (← get).model.active with
  | none => return ()
  | some target =>
    if text.strip.isEmpty then return ()
    let me := (← get).me
    match ← transmit target text me with
    | none => return ()
    | some (id, ts) =>
      onModel' fun m => m.addMessage target
        { id := .str id, sender := .str me, body := .str text, ts, mine := true }

/-- `_release`: send whatever waited for this key. The conversation on screen is
put back in any case. -/
def release (user : Str) : ClientM Unit := do
  let c ← get
  let waiting := (PyDict.get c.held user).getD []
  modify fun c => { c with held := PyDict.erase c.held user }
  if waiting.isEmpty then return ()
  let previous := c.model.active
  onModel fun m => { m with active := some user }
  tryCatch (waiting.forM send) fun e => do
    onModel fun m => { m with active := previous }
    throw e
  onModel fun m => { m with active := previous }

/-- `select`, and a READ receipt for what was unread. -/
def select (key : Str) : ClientM Unit := do
  let conversation := (← get).model.conversation key
  let unread := conversation.messages.filter fun m => !m.mine && conversation.unread ≠ 0
  onModel fun m => m.select key
  if key.isRoom then return ()
  unread.forM fun m => tryReceipt m.sender m.id "READ"

/-- `select(None)`: the conversation is looked up, so there is one; nothing is on
screen, and `None` has no `startswith`. -/
def selectNone : ClientM Unit := do
  onModel fun m => m.conversationNone.selectNone
  throw (.py .attributeError)

def ping : ClientM Unit := do let _ ← call .ping

def typing (on : Bool) : ClientM Unit := do
  match (← get).model.active with
  | none => return ()
  | some active => let _ ← call (.typing active on)

def requestHistory (key : Option Str) (limit : Int) : ClientM Unit := do
  let active := (← get).model.active
  match (key.filter fun k => !k.isEmpty).or active with
  | none => return ()
  | some target => let _ ← call (.history target limit)

def createRoom (room : Str) (members : List Str) : ClientM Unit := do
  let _ ← call (.createRoom room members)

def invite (room : Str) (members : List Str) : ClientM Unit := do
  let _ ← call (.invite room members)

def addContact (user : Str) : ClientM Unit := do let _ ← call (.addContact user)

def removeContact (user : Str) : ClientM Unit := do let _ ← call (.removeContact user)

def join (room : Str) : ClientM Unit := do let _ ← call (.join room)

def leave (room : Str) : ClientM Unit := do let _ ← call (.leave room)

/-- `self.join(room)`, and the invitations if there are any. -/
def joinAndInvite (room : Str) (members : List Str) : ClientM Unit := do
  join room
  if !members.isEmpty then invite room members

/-- `open_room`: join a room we know, else try to make it. -/
def openRoom (room : Str) (members : List Str) : ClientM Unit := do
  modify fun c => { c with pendingRoom := some (room, members) }
  if PyDict.has (← get).model.rooms room then joinAndInvite room members
  else createRoom room members

/-- `open_conversation`: somebody known is opened at once, a new name is asked
about first. -/
def openConversation (user : Str) : ClientM Unit := do
  let user := user.strip
  let model := (← get).model
  if user.isEmpty then return ()
  else if user.isRoom then openRoom user []
  else if model.username = some user then return ()  -- an error is shown
  else if PyDict.has model.contacts user || PyDict.has model.roster user then select user
  else
    modify fun c => { c with pendingUser := some user }
    addContact user

/-! ## Frames -/

/-- `value.startswith(ROOM_PREFIX)`. -/
def startsRoom : Json → ClientM Bool
  | .str s => return s.isRoom
  | _ => throw (.py .attributeError)

/-- `frame.ts or now_ms()`. -/
def timeOf (ts : Int) : ClientM Int := do
  if ts ≠ 0 then return ts
  let c ← get
  return c.clock c.trace.length

def undecryptable : Str := "[could not decrypt this message]"

/-- `_plaintext`. -/
def plaintext (f : Frame) (peer : Json) : ClientM Json := do
  let body := f.body.orElse (.str [])
  match (← get).keyring with
  | none => return body
  | some k =>
    if !f.nonce.truthy then return body
    match ← onKeyring k (Keyring.open' peer body f.nonce (f.sender.orElse (.str []))) with
    | some text => return .str text
    | none => return .str undecryptable

/-- What `_plaintext` and `_stored_plaintext` have in common: a body is shown as it is
without a keyring or a nonce, and else as what opening it gives. -/
def opening (body nonce : Json) (m : Keyring.KeyringM (Option Str)) : ClientM Json := do
  match (← get).keyring with
  | none => return body
  | some k =>
    if !nonce.truthy then return body
    match ← onKeyring k m with
    | some text => return .str text
    | none => return .str undecryptable

theorem plaintext_eq (f : Frame) (peer : Json) :
    plaintext f peer = opening (f.body.orElse (.str [])) f.nonce
      (Keyring.open' peer (f.body.orElse (.str [])) f.nonce (f.sender.orElse (.str []))) := rfl

/-- The delivery receipt of a direct message. -/
def reportDelivery (f : Frame) (key : Json) : ClientM Unit := do
  if f.sender.truthy then
    if !(← startsRoom key) then tryReceipt f.sender f.id "DELIVERED"

/-- `self.model.add_message` for a frame, and a note that it was made. -/
def addFrame (f : Frame) (key : Str) (body : Json) (ts : Int) : ClientM Unit := do
  modify fun c => { c with filed := c.filed ++ [(key, f)] }
  onModel' fun m => m.addMessage key { id := f.id, sender := f.sender.orElse (.str "?"), body, ts }

/-- `_file`: report delivery, then put the message into the model. -/
def file (f : Frame) (key : Json) : ClientM Unit := do
  reportDelivery f key
  let body ← plaintext f (f.sender.orElse key)
  let ts ← timeOf f.ts
  match key with
  | .str key => addFrame f key body ts
  | _ => throw (.py .attributeError)

/-- `self._awaiting.setdefault(peer, []).append(frame)`. -/
def await (f : Frame) (peer : Json) (d : List (Json × List Frame)) : List (Json × List Frame) :=
  if d.any fun e => peer.pyEq e.1 then
    d.map fun e => if peer.pyEq e.1 then (e.1, e.2 ++ [f]) else e
  else d ++ [(peer, [f])]

/-- Whether the frame is sealed under a key we do not hold. -/
def unreadable (c : ChatController) (f : Frame) (peer : Json) : Except ClientErr Bool :=
  match c.keyring with
  | none => .ok false
  | some k =>
    if f.nonce.truthy && peer.truthy && some peer ≠ c.model.username.map .str then
      (k.knowsAny peer).map not
    else .ok false

/-- Keep the frame, and ask for the key when it is the first from this person. -/
def keepAwaiting (f : Frame) (peer : Json) : ClientM Unit := do
  let first := !(← get).awaiting.any fun e => peer.pyEq e.1
  modify fun c => { c with awaiting := await f peer c.awaiting }
  if first then let _ ← call (.getKey peer)

/-- `_incoming_message`: filed, or kept until its sender's key is here. -/
def incomingMessage (f : Frame) : ClientM Unit := do
  let target := f.target.orElse (.str [])
  let key := if ← startsRoom target then target else f.sender.orElse target
  if !key.truthy then return ()
  match (← get).unreadable f (f.sender.orElse key) with
  | .error e => throw e
  | .ok true => keepAwaiting f (f.sender.orElse key)
  | .ok false => file f key

/-- One frame that waited for the key of this user. -/
def deliverOne (user : Str) (f : Frame) : ClientM Unit := do
  let target := f.target.orElse (.str [])
  file f (if ← startsRoom target then target else .str user)

/-- `_deliver_awaiting`. -/
def deliverAwaiting (user : Str) : ClientM Unit := do
  let frames := ((← get).awaiting.find? fun e => e.1 = .str user).elim [] Prod.snd
  modify fun c => { c with awaiting := c.awaiting.filter fun e => e.1 ≠ .str user }
  frames.forM (deliverOne user)

/-- The rooms a KEY frame may have completed, one after the other. -/
def releaseRoom (room : Str) : ClientM Unit := do
  let c ← get
  match c.keyring with
  | none => return ()
  | some k =>
    let members := (c.model.roomMembers room).filter fun name => some name ≠ c.model.username
    if (k.missingKeys members).isEmpty then release room

/-- `for x in value`. -/
def iter : Json → Except PyErr (List Json)
  | .list xs => .ok xs
  | .str s => .ok (s.map fun c => .str [c])
  | .dict kvs => .ok (kvs.map fun kv => .str kv.1)
  | _ => .error .typeError

variable [Runtime]

/-- `_key`: remember it, and send and show what waited for it. -/
def key (f : Frame) : ClientM Unit := do
  let user := f.get "user"
  let pubkey := f.get "pubkey"
  match (← get).keyring with
  | none => return ()
  | some k =>
    if !user.truthy || !pubkey.truthy then return ()
    modify fun c => { c with keyring := some (k.remember user.pyStr pubkey.pyStr) }
    release user.pyStr
    deliverAwaiting user.pyStr
    let rooms := ((← get).held.map Prod.fst).filter Str.isRoom
    rooms.forM releaseRoom

/-- `_receipt`. -/
def receipt (f : Frame) : ClientM Unit := do
  let ref := f.get "ref"
  let state := f.get "state"
  if ref.truthy && state.truthy && f.sender.truthy then
    onModel fun m => m.setReceipt f.sender.pyStr ref.pyStr state.pyStr

/-- `_presence`. -/
def presence (f : Frame) : ClientM Unit := do
  let user := f.get "user"
  if user.truthy then
    onModel fun m => m.setPresence user.pyStr (f.get "state" = .str "ONLINE")

/-- `_typing`. An entry under a name that is no string is one nothing reads. -/
def incomingTyping (f : Frame) : ClientM Unit := do
  if !f.sender.truthy then return ()
  let target := f.target.orElse (.str [])
  let key := if ← startsRoom target then target else f.sender
  match key with
  | .str key => onModel' fun m => m.setTyping key f.sender (f.get "on").truthy
  | v => if v.hashable then return () else throw (.py .typeError)

/-- `_stored_plaintext`. -/
def storedPlaintext (row : Dict) (key me : Str) : ClientM Json := do
  let body := ((Json.get row "body").orElse (.str [])).pyStr
  let nonce := Json.get row "n"
  match (← get).keyring with
  | none => return .str body
  | some k =>
    if !nonce.truthy then return .str body
    let author := ((Json.get row "from").orElse (.str [])).pyStr
    let peer := if author ≠ me then author else if key.isRoom then me else key
    match ← onKeyring k (Keyring.open' (.str peer) (.str body) (.str nonce.pyStr) (.str author)) with
    | some text => return .str text
    | none => return .str undecryptable

theorem storedPlaintext_eq (row : Dict) (key me : Str) : ∃ body peer author : Str,
    storedPlaintext row key me = opening (.str body) (Json.get row "n")
      (Keyring.open' (.str peer) (.str body) (.str (Json.get row "n").pyStr) (.str author)) := ⟨_, _, _, rfl⟩

/-- One stored row as a message. -/
def storedMessage (key : Str) (username : Option Str) : Json → ClientM Message
  | .dict row => do
    let body ← storedPlaintext row key (username.getD [])
    let now ← timeOf 0
    let ts ← lift ((Json.get row "ts").orElse (.int now)).pyInt
    return { id := .str (Json.getD row "id" (.str [])).pyStr,
             sender := .str (Json.getD row "from" (.str "?")).pyStr, body, ts,
             mine := Json.get row "from" = (username.map .str).getD .null }
  | _ => throw (.py .attributeError)

/-- The rows of a HISTORY_RESULT, in order. -/
def storedMessages (key : Str) (username : Option Str) : List Json → ClientM (List Message)
  | [] => return []
  | row :: rows => do
    let m ← storedMessage key username row
    let ms ← storedMessages key username rows
    return m :: ms

/-- `_history_result`. -/
def historyResult (f : Frame) : ClientM Unit := do
  let key := (f.get "room").orElse f.target
  if !key.truthy then return ()
  let username := (← get).model.username
  let rows ← lift (iter ((f.get "messages").orElse (.list [])))
  let messages ← storedMessages key.pyStr username rows
  onModel fun m => m.loadHistory key.pyStr messages

/-- `self.model.replace_contacts(... or [])`. -/
def replaceContacts (contacts : Json) : ClientM Unit := do
  let entries ← lift (iter (contacts.orElse (.list [])))
  let model ← lift ((← get).model.replaceContacts entries)
  onModel fun _ => model

/-- `_open_pending_user`. -/
def openPendingUser : ClientM Unit := do
  let c ← get
  match c.pendingUser with
  | none => return ()
  | some user =>
    if PyDict.has c.model.contacts user then
      modify fun c => { c with pendingUser := none }
      select user

/-- `_room_state`. -/
def roomState (f : Frame) : ClientM Unit := do
  let room := (f.get "room").orElse f.target
  if !room.truthy then return ()
  let members ← lift (iter ((f.get "members").orElse (.list [])))
  onModel fun m => m.setRoomMembers room.pyStr (members.map Json.pyStr)
  let c ← get
  match c.pendingRoom with
  | none => return ()
  | some (pending, _) =>
    if pending = room.pyStr && (c.model.roomMembers room.pyStr).any fun n => some n = c.model.username then
      modify fun c => { c with pendingRoom := none }
      select room.pyStr

/-- `_on_error`: undo, or correct, what was refused. -/
def onError (code : Str) : ClientM Unit := do
  if code = "NO_SUCH_USER" then modify fun c => { c with pendingUser := none }
  else if code = "ROOM_EXISTS" then
    match (← get).pendingRoom with
    | none => return ()
    | some (room, members) => joinAndInvite room members
  else if code = "NO_SUCH_ROOM" || code = "BAD_ROOM" then
    modify fun c => { c with pendingRoom := none }

/-- `_logged_in`. The rooms of the frame are not looked at. -/
def loggedIn (f : Frame) : ClientM Unit := do
  let username := f.get "user"
  if username.truthy then onModel fun m => m.setIdentity username.pyStr
  let roster ← lift (iter ((f.get "roster").orElse (.list [])))
  onModel fun m => m.replaceRoster (roster.map Json.pyStr)
  replaceContacts (f.get "contacts")

/-- `on_frame`. -/
def onFrame (f : Frame) : ClientM Unit := do
  modify fun c => { c with trace := c.trace ++ [.received f] }
  match f.type with
  | .msg => incomingMessage f
  | .presence => presence f
  | .typing => incomingTyping f
  | .receipt => receipt f
  | .key => key f
  | .historyResult => historyResult f
  | .contacts => do
    replaceContacts (f.get "contacts")
    openPendingUser
  | .roomState => roomState f
  | .loginOk => loggedIn f
  | .error => onError (Json.getD f.data "code" (.str "ERROR")).pyStr
  | _ => return ()

/-! ## Runs -/

/-- What the views pass on: a gesture, a frame, a change of the connection's
state. -/
inductive Gesture where
  | send (text : Str)
  | select (key : Str)
  | selectNone
  | ping
  | typing (on : Bool)
  | requestHistory (key : Option Str) (limit : Int)
  | createRoom (room : Str) (members : List Str)
  | invite (room : Str) (members : List Str)
  | openConversation (user : Str)
  | openRoom (room : Str) (members : List Str)
  | addContact (user : Str)
  | removeContact (user : Str)
  | join (room : Str)
  | leave (room : Str)
  | frame (f : Frame)
  | state (s : Str)

def handle : Gesture → ClientM Unit
  | .send text => send text
  | .select key => select key
  | .selectNone => selectNone
  | .ping => ping
  | .typing on => typing on
  | .requestHistory key limit => requestHistory key limit
  | .createRoom room members => createRoom room members
  | .invite room members => invite room members
  | .openConversation user => openConversation user
  | .openRoom room members => openRoom room members
  | .addContact user => addContact user
  | .removeContact user => removeContact user
  | .join room => join room
  | .leave room => leave room
  | .frame f => onFrame f
  | .state s => onModel fun m => m.setConnectionState s

/-- One input. An exception is shown and forgotten. -/
def step (c : ChatController) (g : Gesture) : ChatController := (Act.exec (handle g) c).2

def run (c : ChatController) (gs : List Gesture) : ChatController := gs.foldl step c

end ChatController

end Ciphertext
