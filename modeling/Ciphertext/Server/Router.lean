import Ciphertext.Server.Calls

/-!
# `MessageRouter` — deciding who receives what

The model of `im/server/router.py`, method by method. Each handler is a `Prog`
over the calls of `Server/Calls.lean`, so the order of its reads, writes and
sends is the source's, and so is the point at which it raises: a string method
on a value that is not a string, a `sorted` over mixed names, a parameter
sqlite refuses.

The `session` argument of the source is the connection's identity here. Past
the login check a handler also gets `me`, the session's `username`: only the
connection's own thread ever sets it, so reading it once is reading it each
time. Another connection's `username` is read through a call.
-/

namespace Ciphertext

/-- Which optional stores the router was built with. `ChatServer` gives it both. -/
structure Config where
  messages : Bool
  contacts : Bool
deriving DecidableEq

/-- `ROOM_PREFIX`. -/
def roomPrefix : Str := "#"

/-- An f-string: its literal and formatted parts, in order. -/
def fstr (parts : List Str) : Str := parts.flatten

/-- `value or ""`. -/
def orEmpty (v : Json) : Json := v.orElse (.str [])

theorem orEmpty_str (name : Str) : orEmpty (.str name) = .str name := by
  unfold orEmpty Json.orElse
  split
  · rfl
  next h =>
    have hname : name = [] := by simpa [Json.truthy] using h
    rw [hname]

namespace MessageRouter

/-! ## The calls, as steps of a handler -/

abbrev newId : RouterM Str := Prog.call (S := routerSig) .newId .pure
abbrev nowMs : RouterM Int := Prog.call (S := routerSig) .nowMs .pure
abbrev send (s : Sid) (f : Frame) : RouterM Unit := Prog.call (S := routerSig) (.send s f) .pure
abbrev getUsername (s : Sid) : RouterM (Option Json) := Prog.call (S := routerSig) (.getUsername s) .pure
abbrev setUsername (s : Sid) (u : Option Json) : RouterM Unit :=
  Prog.call (S := routerSig) (.setUsername s u) .pure
abbrev sessionsLogin (u : Json) (s : Sid) : RouterM Bool := Prog.call (S := routerSig) (.sessionsLogin u s) .pure
abbrev sessionsLogout (u : Json) : RouterM Unit := Prog.call (S := routerSig) (.sessionsLogout u) .pure
abbrev sessionsGet (u : Json) : RouterM (Option Sid) := Prog.call (S := routerSig) (.sessionsGet u) .pure
abbrev sessionsUsernames : RouterM (List Json) := Prog.call (S := routerSig) .sessionsUsernames .pure
abbrev sessionsOthers (u : Json) : RouterM (List Sid) := Prog.call (S := routerSig) (.sessionsOthers u) .pure
abbrev usersRegister (u : Str) (passHash pubkey : Json) : RouterM Bool :=
  Prog.call (S := routerSig) (.usersRegister u passHash pubkey) .pure
abbrev usersVerify (u passHash : Json) : RouterM Bool :=
  Prog.call (S := routerSig) (.usersVerify u passHash) .pure
abbrev usersExists (u : Str) : RouterM Bool := Prog.call (S := routerSig) (.usersExists u) .pure
abbrev usersPubkey (u : Str) : RouterM (Option Str) := Prog.call (S := routerSig) (.usersPubkey u) .pure
abbrev roomsCreate (room : Str) : RouterM Bool := Prog.call (S := routerSig) (.roomsCreate room) .pure
abbrev roomsJoin (room : Str) (u : Json) : RouterM Unit := Prog.call (S := routerSig) (.roomsJoin room u) .pure
abbrev roomsLeave (room : Str) (u : Json) : RouterM Unit :=
  Prog.call (S := routerSig) (.roomsLeave room u) .pure
abbrev roomsMembers (room : Str) : RouterM (List Str) := Prog.call (S := routerSig) (.roomsMembers room) .pure
abbrev roomsExists (room : Str) : RouterM Bool := Prog.call (S := routerSig) (.roomsExists room) .pure
abbrev roomsOf (u : Json) : RouterM (List Str) := Prog.call (S := routerSig) (.roomsOf u) .pure
abbrev messagesRecord (id : Json) (conversation : Str) (sender : Json) (recipient : Str)
    (body nonce : Json) (ts : Int) : RouterM Unit :=
  Prog.call (S := routerSig) (.messagesRecord id conversation sender recipient body nonce ts) .pure
abbrev messagesQueueFor (u : Str) (id : Json) : RouterM Unit :=
  Prog.call (S := routerSig) (.messagesQueueFor u id) .pure
abbrev messagesMark (id state : Str) (now : Int) : RouterM (Option Str) :=
  Prog.call (S := routerSig) (.messagesMark id state now) .pure
abbrev messagesFlush (u : Json) : RouterM (List Row) := Prog.call (S := routerSig) (.messagesFlush u) .pure
abbrev messagesHistory (conversation : Str) (before : Option Int) (limit : Int) : RouterM (List Row) :=
  Prog.call (S := routerSig) (.messagesHistory conversation before limit) .pure
abbrev contactsAdd (owner contact : Json) : RouterM Bool :=
  Prog.call (S := routerSig) (.contactsAdd owner contact) .pure
abbrev contactsRemove (owner contact : Json) : RouterM Unit :=
  Prog.call (S := routerSig) (.contactsRemove owner contact) .pure
abbrev contactsOf (owner : Json) : RouterM (List Str) := Prog.call (S := routerSig) (.contactsOf owner) .pure

/-- Code between calls that may raise. -/
def lift {α : Type} : Except PyErr α → RouterM α
  | .ok a => .pure a
  | .error e => .raise e

/-- `Frame(type=..., to=..., sender=..., data=...)`: the id and the timestamp
come from the defaults. -/
def frame (type : MessageType) (sender target : Json) (data : Dict) : RouterM Frame := do
  let id ← newId
  let ts ← nowMs
  return { type, sender, target, data, id := .str id, ts }

/-- An ERROR frame. Every rejection path sends one of these. -/
def error (code message : Str) : RouterM Frame :=
  frame .error .null .null [("code", .str code), ("message", .str message)]

/-- `session.send(error(code, message))`. -/
def refuse (s : Sid) (code message : Str) : RouterM Unit := do
  send s (← error code message)

variable [Runtime]

/-! ## Presence -/

/-- Tell everyone else that a user arrived or left. -/
def announce (username : Json) (state : Str) : RouterM Unit := do
  let announcement ← frame .presence .null .null [("user", username), ("state", .str state)]
  Prog.forEach (← sessionsOthers username) fun other => send other announcement

/-- Called by the connection when its socket closes, for any reason. -/
def onDisconnect (s : Sid) : RouterM Unit := do
  match ← getUsername s with
  | none => return
  | some username =>
    sessionsLogout username
    setUsername s none
    announce username "OFFLINE"

/-! ## History -/

/-- The body and the nonce of a stored row that the reader is allowed to see.
The row of a room message with envelopes is split here: a reader with no
well-formed envelope sees nothing. A stored body that parses to something other
than an object has no `.get`. -/
def contentFor (row : Row) (reader : Json) : Except PyErr (Option (Json × Json)) :=
  if row.nonce = some envelopes then
    let body := row.body.getD []
    match Runtime.loads (if body.isEmpty then "\x7b\x7d" else body) with
    | .error .valueError => .ok none
    | .error e => .error e
    | .ok parsed =>
      match parsed with
      | .dict env =>
        match reader.asStr.bind fun r => env.lookup r with
        | some (.list [body, nonce]) => .ok (some (.str body.pyStr, .str nonce.pyStr))
        | _ => .ok none
      | _ => .error .attributeError
  else .ok (some ((row.body.map Json.str).getD .null, (row.nonce.map Json.str).getD .null))

/-- The object a row is shown as. -/
def entryOf (row : Row) (body nonce : Json) : Dict :=
  [("id", (row.id.map Json.str).getD .null), ("from", .str row.sender),
    ("to", .str row.recipient), ("body", body), ("n", nonce), ("ts", .int row.ts),
    ("state", .str (
      if row.readAt.any (· ≠ 0) then read
      else if row.deliveredAt.any (· ≠ 0) then delivered else sentState))]

/-- One stored row, as the reader is allowed to see it. -/
def historyEntry (row : Row) (reader : Json) : Except PyErr (Option Dict) :=
  (contentFor row reader).map fun content => content.map fun c => entryOf row c.1 c.2

/-- The MSG that hands over a stored row. -/
def flushed (row : Row) (entry : Dict) : Frame :=
  { type := .msg
    sender := .str row.sender
    target := .str row.recipient
    body := Json.get entry "body"
    nonce := Json.get entry "n"
    id := (row.id.map Json.str).getD .null
    ts := row.ts }

/-- One queued row's turn: skipped when it holds nothing for this user. -/
def handRow (s : Sid) (username : Json) (row : Row) : RouterM Unit := do
  match ← lift (historyEntry row username) with
  | none => return
  | some entry => send s (flushed row entry)

/-- Hand over everything that arrived while this user was away. -/
def flushPending (cfg : Config) (s : Sid) (username : Json) : RouterM Unit := do
  if !cfg.messages then return
  Prog.forEach (← messagesFlush username) (handRow s username)

/-! ## Contacts -/

/-- This person's contacts, each with whether they are online. -/
def contactStates (cfg : Config) (username : Json) : RouterM (List Json) := do
  if !cfg.contacts then return []
  let online ← sessionsUsernames
  let names ← contactsOf username
  return names.map fun name =>
    .dict [("user", .str name), ("online", .bool (online.contains (.str name)))]

def sendContacts (cfg : Config) (s : Sid) : RouterM Unit := do
  let target := (← getUsername s).getD .null
  let states ← contactStates cfg (orEmpty ((← getUsername s).getD .null))
  send s (← frame .contacts .null target [("contacts", .list states)])

/-- Remember somebody you actually talked to, and say so. -/
def noteContact (cfg : Config) (owner other : Json) : RouterM Unit := do
  if !cfg.contacts || !other.truthy then return
  match other with
  | .str name =>
    if name.startsWith roomPrefix then return
    if !(← contactsAdd owner other) then return
    match ← sessionsGet owner with
    | none => return
    | some theirs => sendContacts cfg theirs
  | _ => Prog.raise .attributeError

/-- Remember somebody, so they are still there after a restart. -/
def addContact (cfg : Config) (s : Sid) (me : Json) (f : Frame) : RouterM Unit := do
  if !cfg.contacts then
    refuse s "UNSUPPORTED" "this server keeps no contacts"
  else match f.get "user" with
  | .str name =>
    if name.isEmpty then
      refuse s "NO_RECIPIENT" "ADD_CONTACT needs a user"
    else if me.pyEq (.str name) then
      refuse s "BAD_CONTACT" "you are already in your own contacts"
    else if name.startsWith roomPrefix then
      refuse s "BAD_CONTACT" "a room is not a contact -- JOIN it instead"
    else if !(← usersExists name) then
      refuse s "NO_SUCH_USER" (fstr ["nobody is registered as ", name])
    else
      let _ ← contactsAdd (orEmpty me) (.str name)
      sendContacts cfg s
  | _ => refuse s "NO_RECIPIENT" "ADD_CONTACT needs a user"

/-- The row goes only if a name was given; the list is sent either way. -/
def forgetContact (me user : Json) : RouterM Unit :=
  match user with
  | .str name => if name.isEmpty then return else contactsRemove (orEmpty me) (.str name)
  | _ => return

def removeContact (cfg : Config) (s : Sid) (me : Json) (f : Frame) : RouterM Unit := do
  if !cfg.contacts then return
  forgetContact me (f.get "user")
  sendContacts cfg s

/-- Hand out somebody's public key. -/
def getKey (s : Sid) (f : Frame) : RouterM Unit := do
  let user := f.get "user"
  if !user.truthy then
    refuse s "NO_RECIPIENT" "GET_KEY needs a user"
  else match ← usersPubkey user.pyStr with
  | none => refuse s "NO_KEY" (fstr ["no public key is published for ", user.pyStr])
  | some pubkey =>
    send s (← frame .key .null .null [("user", .str user.pyStr), ("pubkey", .str pubkey)])

/-! ## Accounts -/

def register (s : Sid) (f : Frame) : RouterM Unit := do
  let username := f.get "user"
  let passHash := f.get "pass_hash"
  if !username.truthy || !passHash.truthy then
    refuse s "BAD_REGISTER" "user and pass_hash are required"
  else match username with
  | .str name =>
    if name.startsWith roomPrefix then
      refuse s "BAD_USERNAME" (fstr ["a username may not start with ", roomPrefix])
    else if !(← usersRegister name passHash (f.get "pubkey")) then
      refuse s "USER_EXISTS" (fstr [name, " is taken"])
    else
      send s (← frame .ok .null .null [("user", username)])
  | _ => Prog.raise .attributeError

/-- The LOGIN_OK: who else is here now, who this person knows, and the rooms
they are in. -/
def greet (cfg : Config) (s : Sid) (username : Json) : RouterM Unit := do
  let online ← sessionsUsernames
  let contacts ← contactStates cfg username
  let rooms ← roomsOf username
  send s (← frame .loginOk .null username
    [("user", username), ("roster", .list (online.filter fun u => !u.pyEq username)),
      ("contacts", .list contacts), ("rooms", .list (rooms.map .str))])

/-- What follows once the name has been claimed. -/
def welcome (cfg : Config) (s : Sid) (username : Json) : RouterM Unit := do
  setUsername s (some username)
  greet cfg s username
  announce username "ONLINE"
  flushPending cfg s username

def login (cfg : Config) (s : Sid) (f : Frame) : RouterM Unit := do
  match ← getUsername s with
  | some username =>
    refuse s "ALREADY_LOGGED_IN" (fstr ["this connection is already ", username.pyStr])
  | none =>
    let username := f.get "user"
    let passHash := f.get "pass_hash"
    if !username.truthy || !passHash.truthy then
      refuse s "BAD_LOGIN" "user and pass_hash are required"
    else if !(← usersVerify username passHash) then
      refuse s "BAD_CREDENTIALS" "unknown user or wrong password"
    else if !(← sessionsLogin username s) then
      refuse s "ALREADY_ONLINE" (fstr [username.pyStr, " is connected from elsewhere"])
    else
      welcome cfg s username

/-! ## Rooms -/

/-- The `room` field when it is a room name, the reason when it is not. -/
def roomProblem (room : Json) : Except Str Str :=
  match room with
  | .str room =>
    if room.isEmpty then .error "a room name is required"
    else if !room.startsWith roomPrefix then
      .error (fstr ["a room name must start with ", roomPrefix])
    else if room.length < 2 || 32 < room.length || room.any Str.isSpace then
      .error "a room name is 2-32 characters and has no spaces"
    else .ok room
  | _ => .error "a room name is required"

/-- Validate the `room` field, answering with an error if it is wrong. -/
def roomName (s : Sid) (f : Frame) : RouterM (Option Str) :=
  match roomProblem (f.get "room") with
  | .error message => do
    refuse s "BAD_ROOM" message
    return none
  | .ok room => return some room

omit [Runtime] in
theorem roomName_eq_some {s : Sid} {f : Frame} {room : Str} :
    roomName s f = .pure (some room) ↔ roomProblem (f.get "room") = .ok room := by
  unfold roomName
  cases roomProblem (f.get "room") with
  | error message =>
    constructor
    · intro h
      cases h
    · intro h
      cases h
  | ok room' =>
    constructor
    · intro h
      obtain rfl : room' = room := by simpa using h
      rfl
    · intro h
      obtain rfl : room' = room := by simpa using h
      rfl

def roomState (room : Str) : RouterM Frame := do
  let members ← roomsMembers room
  frame .roomState .null (.str room)
    [("room", .str room), ("members", .list ((Str.sorted members).map .str))]

/-- Tell every member who is in the room now. -/
def broadcastRoomState (room : Str) : RouterM Unit := do
  let state ← roomState room
  Prog.forEach (Str.sorted (← roomsMembers room)) fun name => do
    match ← sessionsGet (.str name) with
    | none => return
    | some member => send member state

/-- The loop of `addMembers`: who was joined, in order. -/
def joinAll (room : Str) : List Json → RouterM (List Str)
  | [] => return []
  | v :: rest => do
    let name := v.pyStr
    if !name.isEmpty && !name.startsWith roomPrefix then
      if ← usersExists name then
        roomsJoin room (.str name)
        return name :: (← joinAll room rest)
    joinAll room rest

/-- Join everyone named who actually has an account: the first 64 names. -/
def addMembers (room : Str) (members : Json) : RouterM (List Str) :=
  match members with
  | .list names => joinAll room (names.take 64)
  | _ => return []

def createRoom (s : Sid) (me : Json) (f : Frame) : RouterM Unit := do
  match ← roomName s f with
  | none => return
  | some room =>
    if !(← roomsCreate room) then
      refuse s "ROOM_EXISTS" (fstr [room, " already exists -- JOIN it instead"])
    else
      roomsJoin room me
      let _ ← addMembers room (f.get "members")
      broadcastRoomState room

/-- The requested names that are neither added nor members, in order: the
membership is read again for each name that was not added. -/
def missingNames (room : Str) (added : List Str) : List Json → RouterM (List Str)
  | [] => return []
  | v :: rest => do
    if added.contains v.pyStr then missingNames room added rest
    else if (← roomsMembers room).contains v.pyStr then missingNames room added rest
    else return v.pyStr :: (← missingNames room added rest)

/-- Name the ones that did not work. -/
def reportMissing (s : Sid) (missing : List Str) : RouterM Unit :=
  if missing.isEmpty then return
  else refuse s "NO_SUCH_USER"
    (fstr ["not registered: ", Str.join ", " (Str.sorted missing.dedup)])

/-- Add people to a room that already exists. -/
def invite (s : Sid) (me : Json) (f : Frame) : RouterM Unit := do
  match ← roomName s f with
  | none => return
  | some room =>
    if !(← roomsExists room) then
      refuse s "NO_SUCH_ROOM" (fstr [room, " does not exist"])
    else if !((← roomsMembers room).map Json.str).contains me then
      refuse s "NOT_A_MEMBER" (fstr ["join ", room, " before inviting anyone to it"])
    else
      let wanted := f.get "members"
      let added ← addMembers room wanted
      let missing ← missingNames room added (match wanted with | .list names => names | _ => [])
      reportMissing s missing
      if !added.isEmpty then
        broadcastRoomState room

def join (s : Sid) (me : Json) (f : Frame) : RouterM Unit := do
  match ← roomName s f with
  | none => return
  | some room =>
    if !(← roomsExists room) then
      refuse s "NO_SUCH_ROOM" (fstr [room, " does not exist -- CREATE_ROOM first"])
    else
      roomsJoin room me
      broadcastRoomState room

def leave (s : Sid) (me : Json) (f : Frame) : RouterM Unit := do
  match ← roomName s f with
  | none => return
  | some room =>
    if !((← roomsMembers room).map Json.str).contains me then
      refuse s "NOT_A_MEMBER" (fstr ["you are not in ", room])
    else
      roomsLeave room me
      broadcastRoomState room
      send s (← roomState room)

/-! ## Delivery -/

/-- The copy of a room message that one member can open. -/
def addressedTo (outgoing : Frame) (env : Option Dict) (member : Str) : Option Frame :=
  match env with
  | none => some outgoing
  | some env =>
    match env.lookup member with
    | some (.list [body, nonce]) =>
      some { type := .msg, sender := outgoing.sender, target := outgoing.target,
             body := .str body.pyStr, nonce := .str nonce.pyStr, id := outgoing.id,
             ts := outgoing.ts }
    | _ => none

/-- Store a room message as the whole per-member map, in one row. -/
def recordEnvelopes (cfg : Config) (outgoing : Frame) (room : Str) (env : Dict) : RouterM Unit := do
  if !cfg.messages then return
  messagesRecord outgoing.id room (orEmpty outgoing.sender) room
    (.str (Runtime.dumps (.dict env))) (.str envelopes) outgoing.ts

def record (cfg : Config) (outgoing : Frame) (conversation recipient : Str) : RouterM Unit := do
  if !cfg.messages then return
  messagesRecord outgoing.id conversation (orEmpty outgoing.sender) recipient outgoing.body
    outgoing.nonce outgoing.ts

/-- Whether a direct message can go anywhere: to a live connection, or into the
queue of somebody who has an account. -/
def reachable (cfg : Config) (recipient : Option Sid) (target : Str) : RouterM Bool :=
  if recipient.isSome then return true
  else if !cfg.messages then return false
  else usersExists target

/-- Hand a message to a live connection, or queue it for its absent owner. -/
def handOver (recipient : Option Sid) (name : Str) (outgoing : Frame) : RouterM Unit :=
  match recipient with
  | some recipient => send recipient outgoing
  | none => messagesQueueFor name outgoing.id

def toUser (cfg : Config) (s : Sid) (me : Json) (target : Str) (outgoing : Frame) :
    RouterM Bool := do
  let recipient ← sessionsGet (.str target)
  if !(← reachable cfg recipient target) then
    refuse s "USER_OFFLINE" (fstr [target, " is not online"])
    return false
  else
    let sender := orEmpty me
    let conversation ← lift (directConversation sender (.str target))
    record cfg outgoing conversation target
    noteContact cfg sender (.str target)
    noteContact cfg (.str target) sender
    handOver recipient target outgoing
    return true

/-- One member's turn in the fan-out of a room message. -/
def deliverTo (cfg : Config) (me : Json) (outgoing : Frame) (env : Option Dict) (name : Str) :
    RouterM Unit := do
  if me = .str name then return
  let member ← sessionsGet (.str name)
  match addressedTo outgoing env name with
  | none => return
  | some addressed =>
    if member.isNone && !cfg.messages then return
    handOver member name addressed

/-- Stored once, whatever the shape. -/
def recordRoom (cfg : Config) (outgoing : Frame) (room : Str) (env : Option Dict) : RouterM Unit :=
  match env with
  | some env => recordEnvelopes cfg outgoing room env
  | none => record cfg outgoing room room

def toRoom (cfg : Config) (s : Sid) (me : Json) (room : Str) (outgoing : Frame)
    (env : Option Dict) : RouterM Bool := do
  if !(← roomsExists room) then
    refuse s "NO_SUCH_ROOM" (fstr [room, " does not exist"])
    return false
  else
    let members ← roomsMembers room
    if !(members.map Json.str).contains me then
      refuse s "NOT_A_MEMBER" (fstr ["join ", room, " before sending to it"])
      return false
    else
      recordRoom cfg outgoing room env
      Prog.forEach (Str.sorted members) (deliverTo cfg me outgoing env)
      return true

/-- The frame the server relays for a MSG: `from` is the session's, whatever the
submitted frame said. -/
def outgoing (me : Json) (f : Frame) : Frame :=
  { type := .msg, sender := me, target := f.target, body := f.body, nonce := f.nonce, id := f.id,
    ts := f.ts }

/-- To a room or to a person, by the marker the name begins with. -/
def deliver (cfg : Config) (s : Sid) (me : Json) (target : Str) (f : Frame) : RouterM Bool :=
  if target.startsWith roomPrefix then
    toRoom cfg s me target (outgoing me f) (f.get "env").asDict
  else toUser cfg s me target (outgoing me f)

def message (cfg : Config) (s : Sid) (me : Json) (f : Frame) : RouterM Unit := do
  if !f.target.truthy then
    refuse s "NO_RECIPIENT" "MSG needs a 'to'"
  else match f.target with
  | .str target =>
    if ← deliver cfg s me target f then
      send s (← frame .ack .null .null [("ref", f.id)])
  | _ => Prog.raise .attributeError

/-! ## Scrollback, receipts, typing -/

/-- The rows of one page, as the reader may see them. -/
def entries (rows : List Row) (reader : Json) : Except PyErr (List Dict) := do
  return (← rows.mapM fun row => historyEntry row reader).filterMap id

/-- `int(value) if value else None`. -/
def intIf (v : Json) : Except PyErr (Option Int) :=
  if v.truthy then v.pyInt.map some else .ok none

/-- The stored key of a conversation the client names as it sees it, if the
client may read it. -/
def conversationOf (s : Sid) (me : Json) (target : Str) : RouterM (Option Str) := do
  if target.startsWith roomPrefix then
    if !((← roomsMembers target).map Json.str).contains me then
      refuse s "NOT_A_MEMBER" (fstr ["join ", target, " to read its history"])
      return none
    else return some target
  else
    return some (← lift (directConversation (orEmpty me) (.str target)))

/-- One page of a conversation, sent to the reader. -/
def sendPage (s : Sid) (me : Json) (f : Frame) (target conversation : Str) : RouterM Unit := do
  let before ← lift (intIf (f.get "before"))
  let limit ← lift (intIf (f.get "limit"))
  let rows ← messagesHistory conversation before (limit.getD defaultLimit)
  let messages ← lift (entries rows (orEmpty me))
  send s (← frame .historyResult .null (.str target)
    [("room", .str target), ("messages", .list (messages.map .dict))])

/-- The conversation a HISTORY asks for, as the client names it. -/
def asked (f : Frame) : Json := (f.get "room").orElse f.target

/-- Answer a request for scrollback. -/
def history (cfg : Config) (s : Sid) (me : Json) (f : Frame) : RouterM Unit := do
  if !cfg.messages then
    refuse s "UNSUPPORTED" "this server keeps no history"
  else if !(asked f).truthy then
    refuse s "NO_RECIPIENT" "HISTORY needs a conversation"
  else match ← conversationOf s me (asked f).pyStr with
  | none => return
  | some conversation => sendPage s me f (asked f).pyStr conversation

/-- Record that a message arrived or was read, and tell its sender. -/
def receipt (cfg : Config) (s : Sid) (me : Json) (f : Frame) : RouterM Unit := do
  let ref := f.get "ref"
  let state := f.get "state"
  if !cfg.messages then return
  if !ref.truthy || !(state = .str delivered || state = .str read) then
    refuse s "BAD_RECEIPT" "a receipt needs a ref and a state"
  else
    match ← messagesMark ref.pyStr state.pyStr (← nowMs) with
    | none => return
    | some sender =>
      if me.pyEq (.str sender) then return
      match ← sessionsGet (.str sender) with
      | none => return
      | some recipient =>
        send recipient (← frame .receipt me (.str sender)
          [("ref", .str ref.pyStr), ("state", .str state.pyStr)])

/-- Who a typing hint goes to: the other members of a room one is in, or one
person. -/
def typingTo (me : Json) (target : Str) : RouterM (List Str) := do
  if target.startsWith roomPrefix then
    let members ← roomsMembers target
    if !(members.map Json.str).contains me then return []
    else return (Str.sorted members).filter fun name => me ≠ .str name
  else return [target]

/-- Relay a typing hint. Nothing is stored and nothing is acknowledged. -/
def typing (me : Json) (f : Frame) : RouterM Unit := do
  if !f.target.truthy then return
  let relayed ← frame .typing me f.target [("on", .bool (f.get "on").truthy)]
  match f.target with
  | .str target =>
    Prog.forEach (← typingTo me target) fun name => do
      match ← sessionsGet (.str name) with
      | none => return
      | some recipient => send recipient relayed
  | _ => Prog.raise .attributeError

/-! ## Inbound -/

/-- The frames that need to know who is asking. -/
def dispatch (cfg : Config) (s : Sid) (me : Json) (f : Frame) : RouterM Unit :=
  match f.type with
  | .msg => message cfg s me f
  | .createRoom => createRoom s me f
  | .join => join s me f
  | .leave => leave s me f
  | .invite => invite s me f
  | .addContact => addContact cfg s me f
  | .removeContact => removeContact cfg s me f
  | .typing => typing me f
  | .receipt => receipt cfg s me f
  | .history => history cfg s me f
  | .getKey => getKey s f
  | type => refuse s "UNSUPPORTED" (fstr [type.value, " arrives in a later phase"])

/-- Act on one frame from one connection. -/
def handle (cfg : Config) (s : Sid) (f : Frame) : RouterM Unit := do
  match f.type with
  | .ping => send s (← frame .pong .null .null [])
  | .register => register s f
  | .login => login cfg s f
  | _ =>
    match ← getUsername s with
    | none => refuse s "NOT_LOGGED_IN" "log in before sending anything else"
    | some me => dispatch cfg s me f

end MessageRouter

end Ciphertext
