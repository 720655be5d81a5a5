import Ciphertext.Prog.Basic
import Ciphertext.Prog.Ranked
import Ciphertext.Common.Frames

/-!
# What the server holds: the registries and the database

`World` is everything `MessageRouter` reaches through its collaborators: the
sqlite tables, the `SessionRegistry`, each connection's `username`, and the
frames handed to each connection so far. Every method of a collaborator is one
function here, under its own name, returning what it answers and the world it
leaves; a method that raises leaves the world alone, because every write is one
transaction.

Sqlite decides more than the source shows. A parameter bound to a `TEXT` column
is stored as text: a number becomes its spelling, a NaN becomes `NULL`, a list
or an unencodable string raises. `Sql.text` is that rule.

Left out: the columns nothing reads back (`created_at`, `added_at`), and the
locks, whose whole effect is that each method is atomic.
-/

namespace Ciphertext

/-- A connection, by identity. -/
abbrev Sid := Nat

namespace Sql

variable [Runtime]

/-- A string parameter. -/
def str (s : Str) : Except PyErr Str :=
  if s.encodable then .ok s else .error .unicodeEncodeError

/-- An integer parameter: sqlite stores 64 bits. -/
def int (n : Int) : Except PyErr Int :=
  if -2 ^ 63 ≤ n ∧ n < 2 ^ 63 then .ok n else .error .overflowError

/-- Any parameter, as a `TEXT` column keeps it or compares it; `none` is `NULL`. -/
def text : Json → Except PyErr (Option Str)
  | .null => .ok none
  | .bool b => .ok (some (if b then "1" else "0"))
  | .int n => (int n).map fun n => some (Str.ofInt n)
  | .float .nan => .ok none
  | .float x => .ok (some (Runtime.realText x))
  | .str s => (str s).map some
  | .list _ => .error .sqliteError
  | .dict _ => .error .sqliteError

end Sql

/-- A row of `users`. -/
structure Account where
  username : Str
  salt : List UInt8
  digest : List UInt8
  pubkey : Option Str
deriving DecidableEq

/-- A row of `messages`. The table is kept in `rowid` order, which is the order
of insertion: nothing deletes from it. -/
structure Row where
  id : Option Str
  conversation : Str
  sender : Str
  recipient : Str
  body : Option Str
  nonce : Option Str
  ts : Int
  deliveredAt : Option Int := none
  readAt : Option Int := none
deriving DecidableEq

/-- A frame in a connection's outbox, with who the connection was logged in as
when it was put there. -/
structure Delivery where
  session : Sid
  holder : Option Json
  frame : Frame
deriving DecidableEq

/-- The state the router works on. The last five fields are where fresh values
come from: an endless supply of ids, clock readings and salts, and how many of
the first two have been used. -/
structure World where
  accounts : List Account := []
  rooms : List Str := []
  memberships : List (Str × Str) := []
  messages : List Row := []
  pending : List (Str × Str) := []
  contacts : List (Str × Str) := []
  online : List (Json × Sid) := []
  username : Sid → Option Json := fun _ => none
  sent : List Delivery := []
  uuid : Nat → Str
  uuids : Nat := 0
  clock : Nat → Int
  reads : Nat := 0
  salt : Nat → List UInt8

/-! ## `SessionRegistry` -/

namespace SessionRegistry

/-- Claim a username. `false` if somebody is already using it. -/
def login (w : World) (username : Json) (s : Sid) : Bool × World :=
  if w.online.any fun e => username.pyEq e.1 then (false, w)
  else (true, { w with online := w.online ++ [(username, s)] })

def logout (w : World) (username : Json) : World :=
  { w with online := w.online.filter fun e => !username.pyEq e.1 }

def get (w : World) (username : Json) : Option Sid :=
  (w.online.find? fun e => username.pyEq e.1).map Prod.snd

def usernames (w : World) : Except PyErr (List Json) := Json.sortedNames (w.online.map Prod.fst)

/-- Every logged-in session except this user's own. -/
def others (w : World) (username : Json) : List Sid :=
  (w.online.filter fun e => !username.pyEq e.1).map Prod.snd

end SessionRegistry

/-! ## `SqliteUsers` -/

namespace SqliteUsers

variable [Runtime]

/-- `pass_hash.encode("utf-8")` raises before scrypt is reached. -/
def derive (passHash : Json) (salt : List UInt8) : Except PyErr (List UInt8) :=
  match passHash with
  | .str p => if p.encodable then .ok (Runtime.scrypt p salt) else .error .unicodeEncodeError
  | _ => .error .attributeError

/-- Create an account. `false` if the name is taken, which is found out before
the public key is bound. -/
def register (w : World) (username : Str) (passHash pubkey : Json) :
    Except PyErr (Bool × World) := do
  let salt := w.salt w.accounts.length
  let digest ← derive passHash salt
  let username ← Sql.str username
  if w.accounts.any fun a => a.username == username then
    return (false, w)
  let pubkey ← Sql.text pubkey
  return (true, { w with accounts := w.accounts ++ [{ username, salt, digest, pubkey }] })

/-- Check a login. `false` for both a wrong password and an unknown user. -/
def verify (w : World) (username passHash : Json) : Except PyErr Bool := do
  let name ← Sql.text username
  match w.accounts.find? fun a => some a.username == name with
  | none =>
    let _ ← derive passHash []
    return false
  | some a =>
    let digest ← derive passHash a.salt
    return a.digest == digest

def exists' (w : World) (username : Str) : Except PyErr Bool := do
  let name ← Sql.str username
  return w.accounts.any fun a => a.username == name

def pubkey (w : World) (username : Str) : Except PyErr (Option Str) := do
  let name ← Sql.str username
  return (w.accounts.find? fun a => a.username == name).bind Account.pubkey

end SqliteUsers

/-! ## `SqliteRooms` -/

namespace SqliteRooms

variable [Runtime]

/-- Create an empty room. `false` if it already exists. -/
def create (w : World) (room : Str) : Except PyErr (Bool × World) := do
  let room ← Sql.str room
  if w.rooms.contains room then return (false, w)
  return (true, { w with rooms := w.rooms ++ [room] })

/-- Add a member, creating the room if it is new. Both inserts ignore a row
that is already there, and a `NULL` member. -/
def join (w : World) (room : Str) (username : Json) : Except PyErr World := do
  let room ← Sql.str room
  let name ← Sql.text username
  let rooms := if w.rooms.contains room then w.rooms else w.rooms ++ [room]
  match name with
  | none => return { w with rooms }
  | some name =>
    if w.memberships.contains (room, name) then return { w with rooms }
    return { w with rooms, memberships := w.memberships ++ [(room, name)] }

def leave (w : World) (room : Str) (username : Json) : Except PyErr World := do
  let room ← Sql.str room
  let name ← Sql.text username
  return { w with memberships := w.memberships.filter fun m => !(m.1 == room && some m.2 == name) }

/-- A set, in no particular order: callers sort it or test membership. -/
def members (w : World) (room : Str) : Except PyErr (List Str) := do
  let room ← Sql.str room
  return (w.memberships.filter fun m => m.1 == room).map Prod.snd

def exists' (w : World) (room : Str) : Except PyErr Bool := do
  let room ← Sql.str room
  return w.rooms.contains room

def roomsOf (w : World) (username : Json) : Except PyErr (List Str) := do
  let name ← Sql.text username
  return Str.sorted ((w.memberships.filter fun m => some m.2 == name).map Prod.fst)

end SqliteRooms

/-! ## `MessageStore` -/

/-- `PAIR_SEPARATOR`. -/
def pairSeparator : Str := "\x1f"

/-- `ENVELOPES`: the nonce that marks a row whose body is a map, one ciphertext
per member. -/
def envelopes : Str := "*"

def sentState : Str := "SENT"
def delivered : Str := "DELIVERED"
def read : Str := "READ"

/-- `DEFAULT_LIMIT` -/
def defaultLimit : Int := 50

/-- `MAX_LIMIT` -/
def maxLimit : Int := 200

/-- The canonical key for a conversation between two people. Sorting a name
that is not text against one that is raises. -/
def directConversation : Json → Json → Except PyErr Str
  | .str a, .str b => .ok (Str.join pairSeparator (Str.sorted [a, b]))
  | _, _ => .error .typeError

namespace MessageStore

variable [Runtime]

/-- Store one message. Ignores a repeat of an id already stored. -/
def record (w : World) (messageId : Json) (conversation : Str) (sender : Json) (recipient : Str)
    (body nonce : Json) (ts : Int) : Except PyErr World := do
  let id ← Sql.text messageId
  let conversation ← Sql.str conversation
  let sender ← Sql.text sender
  let recipient ← Sql.str recipient
  let body ← Sql.text body
  let nonce ← Sql.text nonce
  let ts ← Sql.int ts
  match sender with
  | none => return w
  | some sender =>
    if id.isSome && w.messages.any fun r => r.id == id then return w
    return { w with
      messages := w.messages ++ [{ id, conversation, sender, recipient, body, nonce, ts }] }

/-- Note that `username` still owes a delivery of this message. -/
def queueFor (w : World) (username : Str) (messageId : Json) : Except PyErr World := do
  let id ← Sql.text messageId
  let username ← Sql.str username
  match id with
  | none => return w
  | some id =>
    if w.pending.contains (id, username) then return w
    return { w with pending := w.pending ++ [(id, username)] }

/-- The row after `UPDATE`s that only fill an empty column; `READ` implies
having arrived. -/
def markRow (r : Row) (state : Str) (now : Int) : Row :=
  if state = read then
    { r with readAt := r.readAt.orElse fun _ => some now
             deliveredAt := r.deliveredAt.orElse fun _ => some now }
  else { r with deliveredAt := r.deliveredAt.orElse fun _ => some now }

/-- Record that a message was delivered or read. Returns its sender. -/
def mark (w : World) (messageId state : Str) (now : Int) : Except PyErr (Option Str × World) := do
  let id ← Sql.str messageId
  match w.messages.find? fun r => r.id == some id with
  | none => return (none, w)
  | some row =>
    return (some row.sender,
      { w with messages :=
          w.messages.map fun r => if r.id = some id then markRow r state now else r })

/-- The queued rows of a user, oldest first: `ORDER BY m.ts, m.rowid`. -/
def queued (w : World) (username : Str) : List Row :=
  (w.messages.filter fun r => w.pending.any fun p => some p.1 == r.id && p.2 == username).insertionSort
    fun a b => a.ts ≤ b.ts

/-- Take everything queued for a user, oldest first, and clear it. -/
def flush (w : World) (username : Json) : Except PyErr (List Row × World) := do
  match ← Sql.text username with
  | none => return ([], w)
  | some name =>
    return (queued w name, { w with pending := w.pending.filter fun p => p.2 != name })

/-- `ORDER BY ts DESC, rowid DESC LIMIT ?`. The rowid of a row is its place in the table. -/
def selectNewest (rows : List (Row × Nat)) (limit : Int) : List Row :=
  ((Ranked.descending Row.ts rows).take limit.toNat).map Prod.fst

/-- The newest messages in a conversation, selected newest first and returned oldest first. -/
def history (w : World) (conversation : Str) (before : Option Int) (limit : Int) :
    Except PyErr (List Row) := do
  let limit := max 1 (min limit maxLimit)
  let conversation ← Sql.str conversation
  let rows ← match before with
    | none => pure (w.messages.zipIdx.filter fun r => r.1.conversation == conversation)
    | some before => do
      let before ← Sql.int before
      pure (w.messages.zipIdx.filter fun r => r.1.conversation == conversation && r.1.ts < before)
  return (selectNewest rows limit).reverse

omit [Runtime] in
/-- It comes to the end of the rows in order. -/
theorem history_eq (w : World) (conversation : Str) (before : Option Int) (limit : Int) :
    history w conversation before limit = (do
      let conversation ← Sql.str conversation
      let rows ← match before with
        | none => pure (w.messages.filter fun r => r.conversation == conversation)
        | some before => do
          let before ← Sql.int before
          pure (w.messages.filter fun r => r.conversation == conversation && r.ts < before)
      let rows := rows.insertionSort fun a b => a.ts ≤ b.ts
      return rows.drop (rows.length - (max 1 (min limit maxLimit)).toNat)) := by
  unfold history
  simp only [Bind.bind, Except.bind, Pure.pure, Except.pure]
  cases Sql.str conversation with
  | error e => rfl
  | ok conversation =>
    cases before with
    | none =>
      exact congrArg Except.ok
        (Ranked.newest_filter w.messages (fun r => r.conversation == conversation) _)
    | some before =>
      dsimp only
      cases Sql.int before with
      | error e => rfl
      | ok before =>
        exact congrArg Except.ok
          (Ranked.newest_filter w.messages (fun r => r.conversation == conversation && r.ts < before) _)

end MessageStore

/-! ## `SqliteContacts` -/

namespace SqliteContacts

variable [Runtime]

/-- Remember a contact. `false` if it was already there. -/
def add (w : World) (owner contact : Json) : Except PyErr (Bool × World) := do
  if !owner.truthy || !contact.truthy || owner.pyEq contact then return (false, w)
  match ← Sql.text owner, ← Sql.text contact with
  | some owner, some contact =>
    if w.contacts.contains (owner, contact) then return (false, w)
    return (true, { w with contacts := w.contacts ++ [(owner, contact)] })
  | _, _ => return (false, w)

def remove (w : World) (owner contact : Json) : Except PyErr World := do
  let owner ← Sql.text owner
  let contact ← Sql.text contact
  return { w with contacts :=
    w.contacts.filter fun c => !(some c.1 == owner && some c.2 == contact) }

/-- This person's contacts, alphabetically. -/
def of (w : World) (owner : Json) : Except PyErr (List Str) := do
  let owner ← Sql.text owner
  return Str.sorted ((w.contacts.filter fun c => some c.1 == owner).map Prod.snd)

end SqliteContacts

end Ciphertext
