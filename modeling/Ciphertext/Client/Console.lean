import Ciphertext.Client.Controller
import Ciphertext.Common.Relay
import Ciphertext.Server.Router

/-!
# `ConsoleView` — lines typed and frames received

The model of `im/client/view/console.py`. Lines and frames come out of one inbox and are
handled one after the other; what an input raises is printed and forgotten, and the next
one finds the model as it was left. Printing itself is taken to succeed.

The view is also a listener of the model. `_render` puts together what an event brings,
and the one thing there that could raise is joining the names of those who type
(`renderTyping`). `run_draws` says that they are strings, given that the server says so of
whoever types. So what a frame does to the controller is what it does without the view.
-/

namespace Ciphertext

open Act

/-- `str.lower`. -/
class Lowercase where
  lower : Str → Str

/-- `s.partition(" ")`: what is before the first space, and what is after it. -/
def Str.partition (s : Str) : Str × Str :=
  (s.takeWhile (· ≠ 0x20), (s.dropWhile (· ≠ 0x20)).drop 1)

/-! ## What the view asks the model -/

namespace ChatModel

/-- `online_users`. -/
def onlineUsers (m : ChatModel) : List Str := Str.sorted ((m.roster.filter Prod.snd).map Prod.fst)

/-- `my_rooms`. -/
def myRooms (m : ChatModel) : List Str :=
  match m.username with
  | none => []
  | some me => Str.sorted ((m.rooms.filter fun e => e.2.contains me).map Prod.fst)

/-- The keys of `conversations`. -/
def conversationKeys (m : ChatModel) : List (Option Str) :=
  m.conversations.map (fun e => some e.1) ++ m.nameless.toList.map fun _ => none

section Keys

variable [Lowercase]

/-- A key beside what `keys` sorts it by: rooms first, then by name. `None` has no
`startswith`. -/
def sortKey : Option Str → Except PyErr (Str × (Bool ×ₗ Str))
  | some key => .ok (key, toLex (!key.startsWith "#", Lowercase.lower key))
  | none => .error .attributeError

/-- `keys`. -/
def keys (m : ChatModel) : Except PyErr (List Str) := do
  let keyed ← m.conversationKeys.mapM sortKey
  return (keyed.insertionSort fun a b => a.2 ≤ b.2).map Prod.fst

end Keys

/-- `_render` of a `TypingChanged`: who types in the conversation on screen. -/
def renderTyping (m : ChatModel) (conversation : Str) (users : List Json) : Except PyErr (Option Str) :=
  if users.isEmpty || m.active ≠ some conversation then .ok none
  else
    match users.mapM Json.asStr with
    | some names =>
      .ok (some (fstr ["\n  ... ", Str.join ", " names, " ", if names.length = 1 then "is" else "are", " typing"]))
    | none => .error .typeError

end ChatModel

/-- `send`, with the message it returns. -/
def ChatController.sendMessage [Crypto] (text : Str) : ClientM (Option Message) := do
  match (← get).model.active with
  | none => return none
  | some target =>
    if text.strip.isEmpty then return none
    let me := (← get).me
    match ← transmit target text me with
    | none => return none
    | some (id, ts) =>
      let message : Message := { id := .str id, sender := .str me, body := .str text, ts, mine := true }
      onModel' fun m => m.addMessage target message
      return some message

/-! ## The view -/

/-- What has been printed: a line, or the exception of an input. -/
inductive Printed where
  | line (text : Str)
  | raised (e : ClientErr)
deriving DecidableEq

structure ConsoleView where
  controller : ChatController
  /-- `_running` -/
  running : Bool := true
  printed : List Printed := []

/-- What a method of the view does. -/
abbrev ConsoleM := Act ConsoleView ClientErr

namespace ConsoleView

def print (text : Str) : ConsoleM Unit := modify fun v => { v with printed := v.printed ++ [.line text] }

/-- A method of the controller. -/
def onController {α : Type} (m : ClientM α) : ConsoleM α := do
  let r := Act.exec m (← get).controller
  modify fun v => { v with controller := r.2 }
  match r.1 with
  | .ok a => return a
  | .error e => throw e

/-- `HELP`. -/
def help : Str := Str.join "\n" [
  "",
  "  /to <user|#room>   talk to someone, e.g. /to bob",
  "  /who               who is online",
  "  /history           fetch this conversation's scrollback from the server",
  "  /chats             conversations, with unread counts",
  "",
  "  /create #room      make a room and join it",
  "  /join #room        join a room somebody else made",
  "  /leave #room       leave a room",
  "  /rooms             rooms you are in",
  "  /members           who is in the room on screen",
  "  /typing on|off     announce that you are composing",
  "",
  "  /help              this",
  "  /quit              leave",
  "",
  "  anything else is sent to the conversation on screen",
  ""]

/-- Names after a label, or what stands there when there are none. -/
def listing (label : Str) (names : List Str) (nobody : Str) : Str :=
  fstr [label, " ", if names.isEmpty then nobody else Str.join ", " names]

/-- `_members`. -/
def members : ConsoleM Unit := do
  let model := (← get).controller.model
  match model.active with
  | none => print "  ! not in a room -- /to #general first"
  | some room =>
    if !room.startsWith "#" then print "  ! not in a room -- /to #general first"
    else print (listing (fstr ["  ", room, ":"]) (model.roomMembers room) "(nobody)")

/-- `_history`. `request_history` returns False where nothing is selected. -/
def history : ConsoleM Unit := do
  let active := (← get).controller.model.active
  onController (ChatController.requestHistory none 50)
  if active.isNone then print "  ! nobody selected -- try /to bob"

/-- A line of `_chats`. -/
def chatLine (m : ChatModel) (key : Str) : Str :=
  let conversation := m.conversation key
  let unread : Str := if conversation.unread ≠ 0 then fstr ["  (", Str.ofInt conversation.unread, " unread)"] else []
  fstr ["  ", if m.active = some key then "*" else " ", " ", key, "  ", Str.ofInt conversation.messages.length,
    " messages", unread]

/-- `_chats`. -/
def chats [Lowercase] : ConsoleM Unit := do
  let model := (← get).controller.model
  match model.keys with
  | .error e => throw (.py e)
  | .ok keys =>
    if keys.isEmpty then print "  (no conversations yet)"
    else keys.forM fun key => print (chatLine model key)

/-- `_room_command`. A room is made without members. -/
def roomCommand (command room : Str) : ConsoleM Unit := do
  if room.isEmpty then print (fstr ["  ! usage: ", command, " #roomname"])
  else if !room.startsWith "#" then print "  ! a room name starts with # -- try /join #general"
  else if command = "/create" then onController (ChatController.createRoom room [])
  else if command = "/join" then onController (ChatController.join room)
  else
    onController (ChatController.leave room)
    let active := (← get).controller.model.active
    if active = some room then onController ChatController.selectNone

variable [Crypto] [Lowercase]

/-- `_typed`, of a text that is no command. -/
def said (text : Str) : ConsoleM Unit := do
  match (← get).controller.model.active with
  | none => print "  ! nobody selected -- try /to bob"
  | some _ =>
    match ← onController (ChatController.sendMessage text) with
    | none => print "  ! not sent"
    | some _ => return ()

/-- `_typed`, of a command. -/
def commanded (command argument : Str) : ConsoleM Unit := do
  let model := (← get).controller.model
  if command = "/quit" || command = "/exit" then modify fun v => { v with running := false }
  else if command = "/help" then print help
  else if command = "/who" then print (listing "  online:" model.onlineUsers "(nobody else)")
  else if command = "/to" then
    if argument.isEmpty then print "  ! usage: /to <user|#room>"
    else onController (ChatController.select argument)
  else if command = "/history" then history
  else if command = "/chats" then chats
  else if command = "/create" || command = "/join" || command = "/leave" then roomCommand command argument
  else if command = "/rooms" then print (listing "  rooms:" model.myRooms "(none -- try /create #general)")
  else if command = "/members" then members
  else if command = "/typing" then onController (ChatController.typing (argument ≠ "off"))
  else print (fstr ["  ! unknown command ", command, " -- try /help"])

/-- `_typed`. -/
def typed (line : Str) : ConsoleM Unit := do
  let text := line.strip
  if text.isEmpty then return ()
  else if !text.startsWith "/" then said text
  else commanded text.partition.1 text.partition.2.strip

/-- `_prompt`. -/
def prompt : ConsoleM Unit := do
  let active := (← get).controller.model.active
  print (fstr ["\n[", if active = some [] then "nobody" else active.getD "nobody", "] > "])

/-! ## The loop -/

/-- A line as the terminal decodes it. -/
structure Line where
  text : Str
  encodable : text.encodable = true

/-- A frame as the server sends it: whoever types has a string for a name, and what has
been encoded has no lone surrogate. -/
structure Inbound where
  frame : Frame
  named : frame.type = .typing → ∃ name, frame.sender = .str name
  encodable : (Json.dict frame.data).encodable = true

/-- What is put into the inbox. -/
inductive Item where
  | frame (f : Inbound)
  | state (s : Str)
  | input (line : Line)

variable [Runtime]

/-- What `run` does with it. -/
def handle : Item → ConsoleM Unit
  | .frame f => onController (ChatController.handle (.frame f.frame))
  | .state s => onController (ChatController.handle (.state s))
  | .input line => typed line.text

/-- One round of the loop. -/
def step (v : ConsoleView) (item : Item) : ConsoleView :=
  let round : ConsoleM Unit := do
    tryCatch (handle item) fun e => modify fun v => { v with printed := v.printed ++ [.raised e] }
    prompt
  (Act.exec round v).2

/-- `run`, from its first round on: until one of them ends it, or nothing more comes. -/
def run (v : ConsoleView) : List Item → ConsoleView
  | [] => v
  | item :: items => if (v.step item).running then (v.step item).run items else v.step item

end ConsoleView

end Ciphertext
