import Ciphertext.Prog.Rely
import Ciphertext.Server.Calls

/-!
# The stores, statement by statement

`Server/Tables.lean` has one function for each method of a store, because each is
atomic. Here the methods are what `im/server/store` writes down: statements on
one sqlite connection, between the taking of the `Database`'s lock and its
giving back, and for a `write` a `COMMIT` at the end or a `ROLLBACK` after an
exception. The connection keeps what it has written apart from what is
committed, which is what is on disk.

Sqlite itself fails in no other way than by refusing a parameter or a row: a full
disk is left out.
-/

namespace Ciphertext

namespace Sql

/-- The tables. -/
structure Tables where
  accounts : List Account := []
  rooms : List Str := []
  memberships : List (Str × Str) := []
  messages : List Row := []
  pending : List (Str × Str) := []
  contacts : List (Str × Str) := []

/-- The connection: the tables as it sees them, the tables on disk, and the
random bytes that `secrets` has in store. -/
structure Connection where
  working : Tables := {}
  committed : Tables := {}
  salt : Nat → List UInt8

/-- The statements of `im/server/store`, with their parameters. -/
inductive Statement where
  /-- `secrets.token_bytes(SALT_BYTES)` -/
  | tokenBytes
  /-- `SELECT 1 FROM users WHERE username = ?` -/
  | selectUser (username : Str)
  /-- `INSERT INTO users (username, salt, digest, pubkey, created_at)` -/
  | insertUser (username : Str) (salt digest : List UInt8) (pubkey : Json)
  /-- `SELECT salt, digest FROM users WHERE username = ?` -/
  | selectDigest (username : Json)
  /-- `SELECT pubkey FROM users WHERE username = ?` -/
  | selectPubkey (username : Str)
  /-- `SELECT 1 FROM rooms WHERE room = ?` -/
  | selectRoom (room : Str)
  /-- `INSERT INTO rooms (room, created_at)` -/
  | insertRoom (room : Str)
  /-- `INSERT OR IGNORE INTO rooms (room, created_at)` -/
  | insertOrIgnoreRoom (room : Str)
  /-- `INSERT OR IGNORE INTO memberships (room, username)` -/
  | insertOrIgnoreMembership (room : Str) (username : Json)
  /-- `DELETE FROM memberships WHERE room = ? AND username = ?` -/
  | deleteMembership (room : Str) (username : Json)
  /-- `SELECT username FROM memberships WHERE room = ?` -/
  | selectMembers (room : Str)
  /-- `SELECT room FROM memberships WHERE username = ? ORDER BY room` -/
  | selectRooms (username : Json)
  /-- `INSERT OR IGNORE INTO messages (id, conversation, sender, recipient, body, nonce, ts)` -/
  | insertOrIgnoreMessage (id : Json) (conversation : Str) (sender : Json) (recipient : Str)
      (body nonce : Json) (ts : Int)
  /-- `INSERT OR IGNORE INTO pending (message_id, username)` -/
  | insertOrIgnorePending (messageId : Json) (username : Str)
  /-- `SELECT sender FROM messages WHERE id = ?` -/
  | selectSender (id : Str)
  /-- `UPDATE messages SET read_at = ? WHERE id = ? AND read_at IS NULL` -/
  | updateReadAt (now : Int) (id : Str)
  /-- `UPDATE messages SET delivered_at = ? WHERE id = ? AND delivered_at IS NULL` -/
  | updateDeliveredAt (now : Int) (id : Str)
  /-- `SELECT m.* FROM messages m JOIN pending p ... WHERE p.username = ? ORDER BY m.ts, m.rowid` -/
  | selectQueued (username : Json)
  /-- `DELETE FROM pending WHERE username = ?` -/
  | deletePending (username : Json)
  /-- `SELECT * FROM messages WHERE conversation = ? [AND ts < ?] ORDER BY ts DESC, rowid DESC LIMIT ?` -/
  | selectNewest (conversation : Str) (before : Option Int) (limit : Int)
  /-- `INSERT OR IGNORE INTO contacts (owner, contact, added_at)`, and `rowcount` -/
  | insertOrIgnoreContact (owner contact : Json)
  /-- `DELETE FROM contacts WHERE owner = ? AND contact = ?` -/
  | deleteContact (owner contact : Json)
  /-- `SELECT contact FROM contacts WHERE owner = ? ORDER BY contact` -/
  | selectContacts (owner : Json)
  | commit
  | rollback

namespace Statement

/-- What each statement answers when it does not raise. -/
@[reducible] def Val : Statement → Type
  | tokenBytes => List UInt8
  | selectUser _ => Bool
  | insertUser _ _ _ _ => Unit
  | selectDigest _ => Option Account
  | selectPubkey _ => Option Account
  | selectRoom _ => Bool
  | insertRoom _ => Unit
  | insertOrIgnoreRoom _ => Unit
  | insertOrIgnoreMembership _ _ => Unit
  | deleteMembership _ _ => Unit
  | selectMembers _ => List Str
  | selectRooms _ => List Str
  | insertOrIgnoreMessage _ _ _ _ _ _ _ => Unit
  | insertOrIgnorePending _ _ => Unit
  | selectSender _ => Option Str
  | updateReadAt _ _ => Unit
  | updateDeliveredAt _ _ => Unit
  | selectQueued _ => List Row
  | deletePending _ => Unit
  | selectNewest _ _ _ => List Row
  | insertOrIgnoreContact _ _ => Bool
  | deleteContact _ _ => Unit
  | selectContacts _ => List Str
  | commit => Unit
  | rollback => Unit

end Statement

namespace Tables

variable [Runtime]

/-- `PRIMARY KEY (username)`: a second row for a name is refused. -/
def insertUser (t : Tables) (username : Str) (salt digest : List UInt8) (pubkey : Json) :
    Except PyErr Tables := do
  let username ← str username
  let pubkey ← text pubkey
  if t.accounts.any fun a => a.username == username then .error .sqliteError
  else .ok { t with accounts := t.accounts ++ [{ username, salt, digest, pubkey }] }

def insertRoom (t : Tables) (room : Str) : Except PyErr Tables := do
  let room ← str room
  if t.rooms.contains room then .error .sqliteError
  else .ok { t with rooms := t.rooms ++ [room] }

def insertOrIgnoreRoom (t : Tables) (room : Str) : Except PyErr Tables := do
  let room ← str room
  return { t with rooms := if t.rooms.contains room then t.rooms else t.rooms ++ [room] }

/-- `NOT NULL` is a reason to ignore a row, too. -/
def insertOrIgnoreMembership (t : Tables) (room : Str) (username : Json) : Except PyErr Tables := do
  let room ← str room
  match ← text username with
  | none => return t
  | some name =>
    if t.memberships.contains (room, name) then return t
    return { t with memberships := t.memberships ++ [(room, name)] }

def deleteMembership (t : Tables) (room : Str) (username : Json) : Except PyErr Tables := do
  let room ← str room
  let name ← text username
  return { t with memberships := t.memberships.filter fun m => !(m.1 == room && some m.2 == name) }

def insertOrIgnoreMessage (t : Tables) (id : Json) (conversation : Str) (sender : Json)
    (recipient : Str) (body nonce : Json) (ts : Int) : Except PyErr Tables := do
  let id ← text id
  let conversation ← str conversation
  let sender ← text sender
  let recipient ← str recipient
  let body ← text body
  let nonce ← text nonce
  let ts ← int ts
  match sender with
  | none => return t
  | some sender =>
    if id.isSome && t.messages.any fun r => r.id == id then return t
    return { t with
      messages := t.messages ++ [{ id, conversation, sender, recipient, body, nonce, ts }] }

def insertOrIgnorePending (t : Tables) (messageId : Json) (username : Str) : Except PyErr Tables := do
  let id ← text messageId
  let username ← str username
  match id with
  | none => return t
  | some id =>
    if t.pending.contains (id, username) then return t
    return { t with pending := t.pending ++ [(id, username)] }

/-- An `UPDATE` of the rows with an id. A reading of the clock is in range. -/
def updateWhere (t : Tables) (id : Str) (f : Row → Row) : Except PyErr Tables := do
  let id ← str id
  return { t with messages := t.messages.map fun r => if r.id = some id then f r else r }

def updateReadAt (t : Tables) (now : Int) (id : Str) : Except PyErr Tables :=
  t.updateWhere id fun r => { r with readAt := r.readAt.orElse fun _ => some now }

def updateDeliveredAt (t : Tables) (now : Int) (id : Str) : Except PyErr Tables :=
  t.updateWhere id fun r => { r with deliveredAt := r.deliveredAt.orElse fun _ => some now }

def selectQueued (t : Tables) (username : Json) : Except PyErr (List Row) := do
  let name ← text username
  return (t.messages.filter fun r =>
    t.pending.any fun p => some p.1 == r.id && some p.2 == name).insertionSort fun a b => a.ts ≤ b.ts

def deletePending (t : Tables) (username : Json) : Except PyErr Tables := do
  let name ← text username
  return { t with pending := t.pending.filter fun p => some p.2 != name }

def selectNewest (t : Tables) (conversation : Str) (before : Option Int) (limit : Int) :
    Except PyErr (List Row) := do
  let conversation ← str conversation
  let rows ← match before with
    | none => pure (t.messages.zipIdx.filter fun r => r.1.conversation == conversation)
    | some before => do
      let before ← int before
      pure (t.messages.zipIdx.filter fun r => r.1.conversation == conversation && r.1.ts < before)
  return MessageStore.selectNewest rows limit

def insertOrIgnoreContact (t : Tables) (owner contact : Json) : Except PyErr (Bool × Tables) := do
  match ← text owner, ← text contact with
  | some owner, some contact =>
    if t.contacts.contains (owner, contact) then return (false, t)
    return (true, { t with contacts := t.contacts ++ [(owner, contact)] })
  | _, _ => return (false, t)

def deleteContact (t : Tables) (owner contact : Json) : Except PyErr Tables := do
  let owner ← text owner
  let contact ← text contact
  return { t with contacts :=
    t.contacts.filter fun c => !(some c.1 == owner && some c.2 == contact) }

end Tables

section Effects

variable [Runtime]

/-- What a statement answers and makes of the tables. -/
def Statement.effect (salt : Nat → List UInt8) (t : Tables) :
    (m : Statement) → Except PyErr (m.Val × Tables)
  | .tokenBytes => .ok (salt t.accounts.length, t)
  | .selectUser u => (str u).map fun u => (t.accounts.any fun a => a.username == u, t)
  | .insertUser u salt digest pubkey => (t.insertUser u salt digest pubkey).map fun t => ((), t)
  | .selectDigest u => (text u).map fun u => (t.accounts.find? fun a => some a.username == u, t)
  | .selectPubkey u => (str u).map fun u => (t.accounts.find? fun a => a.username == u, t)
  | .selectRoom room => (str room).map fun room => (t.rooms.contains room, t)
  | .insertRoom room => (t.insertRoom room).map fun t => ((), t)
  | .insertOrIgnoreRoom room => (t.insertOrIgnoreRoom room).map fun t => ((), t)
  | .insertOrIgnoreMembership room u => (t.insertOrIgnoreMembership room u).map fun t => ((), t)
  | .deleteMembership room u => (t.deleteMembership room u).map fun t => ((), t)
  | .selectMembers room =>
    (str room).map fun room => ((t.memberships.filter fun m => m.1 == room).map Prod.snd, t)
  | .selectRooms u => (text u).map fun u =>
    (Str.sorted ((t.memberships.filter fun m => some m.2 == u).map Prod.fst), t)
  | .insertOrIgnoreMessage id conversation sender recipient body nonce ts =>
    (t.insertOrIgnoreMessage id conversation sender recipient body nonce ts).map fun t => ((), t)
  | .insertOrIgnorePending id u => (t.insertOrIgnorePending id u).map fun t => ((), t)
  | .selectSender id => (str id).map fun id =>
    ((t.messages.find? fun r => r.id == some id).map Row.sender, t)
  | .updateReadAt now id => (t.updateReadAt now id).map fun t => ((), t)
  | .updateDeliveredAt now id => (t.updateDeliveredAt now id).map fun t => ((), t)
  | .selectQueued u => (t.selectQueued u).map fun rows => (rows, t)
  | .deletePending u => (t.deletePending u).map fun t => ((), t)
  | .selectNewest conversation before limit =>
    (t.selectNewest conversation before limit).map fun rows => (rows, t)
  | .insertOrIgnoreContact owner contact => t.insertOrIgnoreContact owner contact
  | .deleteContact owner contact => (t.deleteContact owner contact).map fun t => ((), t)
  | .selectContacts owner => (text owner).map fun owner =>
    (Str.sorted ((t.contacts.filter fun c => some c.1 == owner).map Prod.snd), t)
  | .commit => .ok ((), t)
  | .rollback => .ok ((), t)

/-- One statement on the connection. One that raises has changed nothing. -/
def Connection.step (m : Statement) (c : Connection) : Except PyErr m.Val × Connection :=
  match m with
  | .commit => (.ok (), { c with committed := c.working })
  | .rollback => (.ok (), { c with working := c.committed })
  | m =>
    match m.effect c.salt c.working with
    | .ok (a, t) => (.ok a, { c with working := t })
    | .error e => (.error e, c)

end Effects

/-- The statements as a signature. -/
@[reducible] def statements : Signature := ⟨Statement, fun m => Except PyErr m.Val⟩

/-- What a method does while it has the lock. -/
abbrev StoreM := Prog statements PyErr

/-- An exception goes on from where it was raised. -/
def raised {α : Type} : Except PyErr α → StoreM α
  | .ok a => .pure a
  | .error e => .raise e

/-- `conn.execute`. -/
def execute (m : Statement) : StoreM m.Val := Prog.call (S := statements) m raised

/-- `Database.write`: commits on success, rolls back on an exception. -/
def write {α : Type} (block : StoreM α) : StoreM α :=
  Prog.tryCatch
    (do
      let a ← block
      execute .commit
      .pure a)
    fun e => do
      execute .rollback
      .raise e

/-! ## The methods -/

namespace SqliteUsers

/-- The digest is derived before the lock is taken; nothing else can tell. -/
def register [Runtime] (username : Str) (passHash pubkey : Json) : StoreM Bool := do
  let salt ← execute .tokenBytes
  let digest ← raised (Ciphertext.SqliteUsers.derive passHash salt)
  write do
    let taken ← execute (.selectUser username)
    if taken then .pure false
    else do
      execute (.insertUser username salt digest pubkey)
      .pure true

/-- And here after it is given back. -/
def verify [Runtime] (username passHash : Json) : StoreM Bool := do
  match ← execute (.selectDigest username) with
  | none => do
    let _ ← raised (Ciphertext.SqliteUsers.derive passHash [])
    .pure false
  | some a => do
    let digest ← raised (Ciphertext.SqliteUsers.derive passHash a.salt)
    .pure (a.digest == digest)

def exists' (username : Str) : StoreM Bool := execute (.selectUser username)

def pubkey (username : Str) : StoreM (Option Str) := do
  let row ← execute (.selectPubkey username)
  .pure (row.bind Account.pubkey)

end SqliteUsers

namespace SqliteRooms

def create (room : Str) : StoreM Bool :=
  write do
    let existing ← execute (.selectRoom room)
    if existing then .pure false
    else do
      execute (.insertRoom room)
      .pure true

def join (room : Str) (username : Json) : StoreM Unit :=
  write do
    execute (.insertOrIgnoreRoom room)
    execute (.insertOrIgnoreMembership room username)

def leave (room : Str) (username : Json) : StoreM Unit :=
  write (execute (.deleteMembership room username))

def members (room : Str) : StoreM (List Str) := execute (.selectMembers room)

def exists' (room : Str) : StoreM Bool := execute (.selectRoom room)

def roomsOf (username : Json) : StoreM (List Str) := execute (.selectRooms username)

end SqliteRooms

namespace MessageStore

def record (messageId : Json) (conversation : Str) (sender : Json) (recipient : Str)
    (body nonce : Json) (ts : Int) : StoreM Unit :=
  write (execute (.insertOrIgnoreMessage messageId conversation sender recipient body nonce ts))

def queueFor (username : Str) (messageId : Json) : StoreM Unit :=
  write (execute (.insertOrIgnorePending messageId username))

def mark (messageId state : Str) (now : Int) : StoreM (Option Str) :=
  write do
    match ← execute (.selectSender messageId) with
    | none => .pure none
    | some sender => do
      if state = read then execute (.updateReadAt now messageId)
      else execute (.updateDeliveredAt now messageId)
      if state = read then execute (.updateDeliveredAt now messageId)
      .pure (some sender)

def flush (username : Json) : StoreM (List Row) :=
  write do
    let rows ← execute (.selectQueued username)
    execute (.deletePending username)
    .pure rows

def history (conversation : Str) (before : Option Int) (limit : Int) : StoreM (List Row) := do
  let limit := max 1 (min limit maxLimit)
  let rows ← execute (.selectNewest conversation before limit)
  .pure rows.reverse

end MessageStore

namespace SqliteContacts

def add (owner contact : Json) : StoreM Bool :=
  if !owner.truthy || !contact.truthy || owner.pyEq contact then .pure false
  else write (execute (.insertOrIgnoreContact owner contact))

def remove (owner contact : Json) : StoreM Unit :=
  write (execute (.deleteContact owner contact))

def of (owner : Json) : StoreM (List Str) := execute (.selectContacts owner)

end SqliteContacts

end Sql

end Ciphertext
