import Ciphertext.Py.Json

/-!
# `Frame` and `MessageType` — the vocabulary of the wire

The model of `im/common/frames.py`. A frame's named fields are JSON values, not
strings: `from_dict` checks that the object has the right version, a known type
and an integer timestamp, and copies everything else as it came. Two defaults
come from outside, a new id and the time, and are arguments here.

So a frame that was accepted may carry an id that is a number, a target that is a list or a
body that is a dictionary. The handlers have to cope with them, and each later condition
about well-typed frames is one that a client, not the parser, has to see to.

`MessageType.value` is the text on the wire and `MessageType.ofJson` reads it back. The
fields that `from_dict` takes for itself are `reserved`; the rest is the frame's data.
-/

namespace Ciphertext

/-- Every frame type. -/
inductive MessageType where
  | register
  | login
  | getKey
  | msg
  | createRoom
  | join
  | leave
  | invite
  | addContact
  | removeContact
  | typing
  | receipt
  | history
  | ping
  | ok
  | error
  | loginOk
  | key
  | ack
  | roomState
  | contacts
  | historyResult
  | pong
  | presence
deriving DecidableEq

namespace MessageType

/-- What travels on the wire, which is also `str` of the member. -/
def value : MessageType → Str
  | register => "REGISTER"
  | login => "LOGIN"
  | getKey => "GET_KEY"
  | msg => "MSG"
  | createRoom => "CREATE_ROOM"
  | join => "JOIN"
  | leave => "LEAVE"
  | invite => "INVITE"
  | addContact => "ADD_CONTACT"
  | removeContact => "REMOVE_CONTACT"
  | typing => "TYPING"
  | receipt => "RECEIPT"
  | history => "HISTORY"
  | ping => "PING"
  | ok => "OK"
  | error => "ERROR"
  | loginOk => "LOGIN_OK"
  | key => "KEY"
  | ack => "ACK"
  | roomState => "ROOM_STATE"
  | contacts => "CONTACTS"
  | historyResult => "HISTORY_RESULT"
  | pong => "PONG"
  | presence => "PRESENCE"

/-- The members in the order the source lists them. -/
def all : List MessageType :=
  [register, login, getKey, msg, createRoom, join, leave, invite, addContact, removeContact,
    typing, receipt, history, ping, ok, error, loginOk, key, ack, roomState, contacts,
    historyResult, pong, presence]

/-- `MessageType(raw)`, `none` where it raises `ValueError`. -/
def ofJson (raw : Json) : Option MessageType := all.find? fun t => raw == .str t.value

end MessageType

/-- `PROTOCOL_VERSION`. -/
def protocolVersion : Json := .int 1

/-- The keys a `Frame` owns. Anything else in an object lands in `data`. -/
def reserved : List Str := ["v", "id", "type", "ts", "from", "to", "body", "n"]

/-- One protocol message. `target` is the field `to`, a keyword here as `from`
is one in Python. -/
structure Frame where
  type : MessageType
  sender : Json := .null
  target : Json := .null
  body : Json := .null
  nonce : Json := .null
  data : Dict := []
  id : Json
  ts : Int
  v : Json := protocolVersion
deriving DecidableEq

namespace Frame

/-- `frame.data.get(key)`. -/
def get (f : Frame) (key : Str) : Json := Json.get f.data key

variable [Runtime]

/-- `Frame.from_dict`: the frame, or the text of the `ProtocolError`. -/
def fromDict (newId : Str) (now : Int) (raw : Json) : Except Str Frame :=
  match raw with
  | .dict kvs =>
    let version := Json.getD kvs "v" protocolVersion
    if !Json.pyEq version protocolVersion then
      .error (Str.ofString "unsupported protocol version " ++ version.repr)
    else
      let rawType := Json.get kvs "type"
      if rawType = .null then .error "frame has no type"
      else
        match MessageType.ofJson rawType with
        | none => .error (Str.ofString "unknown frame type " ++ rawType.repr)
        | some type =>
          match Json.getD kvs "ts" (.int now) with
          | .int ts =>
            .ok
              { type
                sender := Json.get kvs "from"
                target := Json.get kvs "to"
                body := Json.get kvs "body"
                nonce := Json.get kvs "n"
                data := kvs.filter fun kv => !reserved.contains kv.1
                id := (Json.get kvs "id").orElse (.str newId)
                ts
                v := version }
          | _ => .error "ts must be an integer"
  | _ => .error "frame must be a JSON object"

end Frame

end Ciphertext
