import Ciphertext.Prog.Monitor
import Ciphertext.Server.Statements

/-!
# The statements add up

Every method of a store is a function on the `World` in `Server/Tables.lean` and a
program of statements in `Server/Statements.lean`. `Amounts p f` says that the
program comes to the function when it has the connection to itself: it answers
what `f` answers, it leaves the tables `f` leaves, and they are committed; where
`f` raises, it raises the same and the tables are what they were. It also says
that a `COMMIT` is the last thing the program does.

A block inside a transaction satisfies less (`Does`): it may leave half of its
work behind when it raises. The rules for blocks follow the programs, and
`Does.write` turns a block into a method.
-/

namespace Ciphertext

open Prog

namespace Sql

/-- The tables of a world. -/
def tablesOf (w : World) : Tables where
  accounts := w.accounts
  rooms := w.rooms
  memberships := w.memberships
  messages := w.messages
  pending := w.pending
  contacts := w.contacts

/-- The same world with other tables. -/
def Tables.on (t : Tables) (w : World) : World :=
  { w with
    accounts := t.accounts, rooms := t.rooms, memberships := t.memberships
    messages := t.messages, pending := t.pending, contacts := t.contacts }

variable [Runtime] {α β : Type}

/-- The statements of a method, one after the other. -/
abbrev StoreM.runAlone (p : StoreM α) (c : Connection) : Except PyErr α × Connection :=
  p.runSteps Connection.step c

/-- What a block ends with, from a world, when `f` says what it does to it. -/
def DoesTo (p : StoreM α) (w : World) (committed : Tables) : Except PyErr (α × World) → Prop
  | .ok (a, w') => w' = (tablesOf w').on w ∧
      p.runAlone ⟨tablesOf w, committed, w.salt⟩ = (.ok a, ⟨tablesOf w', committed, w.salt⟩)
  | .error e => ∃ t, p.runAlone ⟨tablesOf w, committed, w.salt⟩ = (.error e, ⟨t, committed, w.salt⟩)

/-- A block does in its statements what `f` does in one piece, or raises with it. Nothing is
committed meanwhile. -/
structure Does (p : StoreM α) (f : World → Except PyErr (α × World)) : Prop where
  runs : ∀ w committed, DoesTo p w committed (f w)
  keeps : p.Uses fun m => m ≠ Statement.commit

/-- After a `COMMIT` there is nothing left to do. -/
def CommitsLast : StoreM α → Prop
  | .pure _ => True
  | .raise _ => True
  | .call .commit k => ∃ a, k (.ok ()) = .pure a
  | .call _ k => ∀ r, CommitsLast (k r)

/-- What a method ends with. -/
def AmountsTo (p : StoreM α) (w : World) : Except PyErr (α × World) → Prop
  | .ok (a, w') => w' = (tablesOf w').on w ∧
      p.runAlone ⟨tablesOf w, tablesOf w, w.salt⟩ = (.ok a, ⟨tablesOf w', tablesOf w', w.salt⟩)
  | .error e => p.runAlone ⟨tablesOf w, tablesOf w, w.salt⟩ = (.error e, ⟨tablesOf w, tablesOf w, w.salt⟩)

/-- A method comes to `f`: what it has done is committed when it returns, and when it raises it
has done nothing. -/
structure Amounts (p : StoreM α) (f : World → Except PyErr (α × World)) : Prop where
  runs : ∀ w, AmountsTo p w (f w)
  last : CommitsLast p

/-! ## Blocks -/

/-- Equal functions are done alike. -/
theorem Does.congr {p : StoreM α} {f g : World → Except PyErr (α × World)} (h : Does p f)
    (hfg : ∀ w, g w = f w) : Does p g := by
  rw [funext hfg]
  exact h

/-- Returning executes nothing. -/
theorem does_pure (a : α) : Does (.pure a : StoreM α) fun w => .ok (a, w) :=
  ⟨fun _ _ => ⟨rfl, rfl⟩, trivial⟩

/-- Two pieces after each other, inside one transaction. -/
theorem Does.bind {p : StoreM α} {k : α → StoreM β} {f : World → Except PyErr (α × World)}
    {g : α → World → Except PyErr (β × World)} (hp : Does p f) (hk : ∀ a, Does (k a) (g a)) :
    Does (p >>= k) fun w => f w >>= fun r => g r.1 r.2 := by
  refine ⟨fun w committed => ?_, hp.keeps.bind fun a => (hk a).keeps⟩
  have hw := hp.runs w committed
  unfold DoesTo StoreM.runAlone at hw ⊢
  rw [runSteps_bind]
  cases hf : f w with
  | error e =>
    rw [hf] at hw
    obtain ⟨t, hrun⟩ := hw
    rw [hrun]
    exact ⟨t, rfl⟩
  | ok r =>
    obtain ⟨a, w₁⟩ := r
    rw [hf] at hw
    obtain ⟨hw₁, hrun⟩ := hw
    have hsalt : w₁.salt = w.salt := by rw [hw₁]; rfl
    have hnext := (hk a).runs w₁ committed
    rw [hrun]
    unfold DoesTo StoreM.runAlone at hnext
    dsimp only [Bind.bind, Except.bind]
    rw [hsalt] at hnext
    cases hg : g a w₁ with
    | error e =>
      rw [hg] at hnext
      exact hnext
    | ok r =>
      obtain ⟨b, w₂⟩ := r
      rw [hg] at hnext
      refine ⟨hnext.1.trans ?_, hnext.2⟩
      rw [hw₁]
      rfl

omit [Runtime] in
/-- An exception executes nothing. -/
theorem raised_uses {A : Statement → Prop} (r : Except PyErr α) : (raised r).Uses A := by
  cases r <;> trivial

omit [Runtime] in
/-- One statement executes itself. -/
theorem execute_uses {A : Statement → Prop} {m : Statement} (h : A m) : (execute m).Uses A :=
  ⟨h, fun r => raised_uses r⟩

/-- A value that may be an exception. -/
theorem does_raised (r : Except PyErr α) : Does (raised r) fun w => r.map fun a => (a, w) := by
  refine ⟨fun w committed => ?_, raised_uses r⟩
  cases r with
  | error e => exact ⟨_, rfl⟩
  | ok a => exact ⟨rfl, rfl⟩

/-- A statement that neither ends the transaction nor undoes it. -/
def Statement.within : Statement → Bool
  | commit => false
  | rollback => false
  | _ => true

/-- A statement inside a transaction touches the working tables only. -/
theorem Connection.step_eq {m : Statement} (h : m.within = true) (c : Connection) :
    c.step m =
      match m.effect c.salt c.working with
      | .ok (a, t) => (.ok a, { c with working := t })
      | .error e => (.error e, c) := by
  cases m with
  | commit => cases h
  | rollback => cases h
  | _ => rfl

/-- A statement inside a transaction. -/
theorem does_execute (m : Statement) (h : m.within = true) :
    Does (execute m) fun w => (m.effect w.salt (tablesOf w)).map fun r => (r.1, r.2.on w) := by
  refine ⟨fun w committed => ?_, execute_uses (by rintro rfl; cases h)⟩
  unfold DoesTo execute StoreM.runAlone
  rw [runSteps_call, Connection.step_eq h]
  dsimp only
  cases m.effect w.salt (tablesOf w) with
  | error e => exact ⟨_, rfl⟩
  | ok r => exact ⟨rfl, rfl⟩

omit [Runtime] in
/-- Before the last statement nothing is committed. -/
theorem commitsLast_call {m : Statement} {k : Except PyErr m.Val → StoreM α} (h : m ≠ .commit) :
    CommitsLast (.call m k) ↔ ∀ r, CommitsLast (k r) := by
  cases m with
  | commit => exact absurd rfl h
  | _ => exact Iff.rfl

omit [Runtime] in
/-- What commits nothing can come first. -/
theorem CommitsLast.after {p : StoreM α} {k : α → StoreM β} (hp : p.Uses fun m => m ≠ Statement.commit)
    (hk : ∀ a, CommitsLast (k a)) : CommitsLast (p >>= k) := by
  induction p with
  | pure a => exact hk a
  | raise e => trivial
  | call m q ih => exact (commitsLast_call hp.1).mpr fun r => ih r (hp.2 r)

omit [Runtime] in
/-- `Database.write` commits at its end. -/
theorem write_commitsLast {p : StoreM α} (hp : p.Uses fun m => m ≠ Statement.commit) : CommitsLast (write p) := by
  unfold Sql.write
  induction p with
  | pure a => exact ⟨a, rfl⟩
  | raise e => exact fun r => by cases r <;> trivial
  | call m q ih => exact (commitsLast_call hp.1).mpr fun r => ih r (hp.2 r)

/-- **A transaction.** -/
theorem Does.write {p : StoreM α} {f : World → Except PyErr (α × World)} (h : Does p f) :
    Amounts (write p) f := by
  refine ⟨fun w => ?_, write_commitsLast h.keeps⟩
  have hp := h.runs w (tablesOf w)
  have hrun : (Sql.write p).runAlone ⟨tablesOf w, tablesOf w, w.salt⟩ =
      match p.runAlone ⟨tablesOf w, tablesOf w, w.salt⟩ with
      | (.ok a, c) => (.ok a, { c with committed := c.working })
      | (.error e, c) => (.error e, { c with working := c.committed }) := by
    unfold Sql.write StoreM.runAlone
    rw [runSteps_tryCatch, runSteps_bind]
    generalize p.runSteps Connection.step ⟨tablesOf w, tablesOf w, w.salt⟩ = r
    rcases r with ⟨e | a, c⟩ <;> rfl
  unfold AmountsTo
  rw [hrun]
  cases hf : f w with
  | ok r =>
    obtain ⟨a, w'⟩ := r
    rw [hf] at hp
    rw [hp.2]
    exact ⟨hp.1, rfl⟩
  | error e =>
    rw [hf] at hp
    obtain ⟨t, hp⟩ := hp
    rw [hp]

/-- The statement looks, and changes nothing. -/
def Looks (m : Statement) : Prop := ∀ c : Connection, (c.step m).2 = c

/-- A `SELECT` leaves the connection as it was. -/
theorem runAlone_looks {p : StoreM α} (hp : p.Uses Looks) (c : Connection) : (p.runAlone c).2 = c := by
  induction p with
  | pure a => rfl
  | raise e => rfl
  | call m k ih =>
    dsimp only [StoreM.runAlone] at ih ⊢
    rw [runSteps_call, hp.1 c]
    exact ih _ (hp.2 _)

/-- A method that only looks needs no transaction. -/
theorem Does.looking {p : StoreM α} {f : World → Except PyErr (α × World)} (h : Does p f)
    (hp : p.Uses Looks) : Amounts p f := by
  refine ⟨fun w => ?_, ?_⟩
  case refine_2 =>
    have hlast := CommitsLast.after (k := fun a => (.pure a : StoreM α)) h.keeps fun _ => trivial
    rwa [Prog.bind_pure'] at hlast
  have hsame := runAlone_looks hp ⟨tablesOf w, tablesOf w, w.salt⟩
  have hw := h.runs w (tablesOf w)
  unfold AmountsTo
  cases hf : f w with
  | ok r =>
    obtain ⟨a, w'⟩ := r
    rw [hf] at hw
    refine ⟨hw.1, ?_⟩
    rw [hw.2] at hsame ⊢
    exact congrArg (Prod.mk _) (by rw [(Connection.mk.inj hsame).1])
  | error e =>
    rw [hf] at hw
    obtain ⟨t, hrun⟩ := hw
    rw [hrun] at hsame ⊢
    exact congrArg (Prod.mk _) hsame

omit [Runtime] in
/-- What is asked for without changing anything. -/
def Statement.selects : Statement → Bool
  | tokenBytes => true
  | selectUser _ => true
  | selectDigest _ => true
  | selectPubkey _ => true
  | selectRoom _ => true
  | selectMembers _ => true
  | selectRooms _ => true
  | selectNewest _ _ _ => true
  | selectContacts _ => true
  | _ => false

omit [Runtime] in
/-- A `SELECT` neither commits nor rolls back, -/
theorem Statement.selects.within {m : Statement} (h : m.selects = true) : m.within = true := by
  cases m with
  | commit => cases h
  | rollback => cases h
  | _ => rfl

/-- and writes nothing. -/
theorem Statement.selects.looks {m : Statement} (h : m.selects = true) : Looks m := by
  intro c
  rw [Connection.step_eq (Statement.selects.within h)]
  -- what is answered is about the parameter; the tables stay
  have hmap : ∀ {γ : Type} {r : Except PyErr γ} {f : γ → m.Val},
      m.effect c.salt c.working = r.map (fun a => (f a, c.working)) →
      (match m.effect c.salt c.working with
        | .ok (a, t) => ((.ok a : Except PyErr m.Val), { c with working := t })
        | .error e => (.error e, c)).2 = c := by
    intro γ r f he
    rw [he]
    cases r <;> rfl
  cases m with
  | tokenBytes => rfl
  | selectUser u => exact hmap rfl
  | selectDigest u => exact hmap rfl
  | selectPubkey u => exact hmap rfl
  | selectRoom room => exact hmap rfl
  | selectMembers room => exact hmap rfl
  | selectRooms u => exact hmap rfl
  | selectNewest conversation before limit => exact hmap (f := id) rfl
  | selectContacts owner => exact hmap rfl
  | _ => cases h

/-! ## The methods -/

omit [Runtime] in
/-- What comes after a parameter has been bound. -/
theorem bound {γ : Type} {x : Except PyErr γ} {f : γ → Except PyErr α} {g : γ → Except PyErr β} {h : β → α}
    (hfg : ∀ a, f a = (g a).map h) : (x >>= f) = (x >>= g).map h := by
  cases x with
  | error e => rfl
  | ok a => exact hfg a

/-- A method that answers nothing. -/
def silent (f : World → Except PyErr World) (w : World) : Except PyErr (Unit × World) :=
  (f w).map fun w' => ((), w')

/-- A method that changes nothing. -/
def still (f : World → Except PyErr α) (w : World) : Except PyErr (α × World) :=
  (f w).map fun a => (a, w)

/-- One of them reads the tables that a method sees. -/
theorem does_select {m : Statement} (h : m.selects = true) :
    Does (execute m) fun w => (m.effect w.salt (tablesOf w)).map fun r => (r.1, r.2.on w) :=
  does_execute m (Statement.selects.within h)

/-- A method of one `SELECT`, and what is made of the rows. -/
theorem amounts_select {m : Statement} {k : m.Val → α} {f : World → Except PyErr α} (h : m.selects = true)
    (hf : ∀ w, still f w = (m.effect w.salt (tablesOf w)).map fun r => (k r.1, r.2.on w)) :
    Amounts (execute m >>= fun rows => .pure (k rows)) (still f) := by
  refine (((does_select h).bind fun rows => does_pure (k rows)).congr fun w => ?_).looking
    ((execute_uses (Statement.selects.looks h)).bind fun _ => trivial)
  rw [hf]
  cases m.effect w.salt (tablesOf w) <;> rfl

/-- The same as it comes. -/
theorem amounts_query {m : Statement} {f : World → Except PyErr m.Val} (h : m.selects = true)
    (hf : ∀ w, still f w = (m.effect w.salt (tablesOf w)).map fun r => (r.1, r.2.on w)) :
    Amounts (execute m) (still f) :=
  ((does_select h).congr hf).looking (execute_uses (Statement.selects.looks h))

/-- A method of one statement that changes the tables. -/
theorem amounts_change {m : Statement} {f : World → Except PyErr (m.Val × World)} (h : m.within = true)
    (hf : ∀ w, f w = (m.effect w.salt (tablesOf w)).map fun r => (r.1, r.2.on w)) :
    Amounts (write (execute m)) f := ((does_execute m h).congr hf).write

/-- What comes before a transaction. -/
theorem Amounts.after {p : StoreM α} {k : α → StoreM β} {f : World → Except PyErr α}
    {g : α → World → Except PyErr (β × World)} (hp : Does p (still f)) (hlooks : p.Uses Looks)
    (hk : ∀ a, Amounts (k a) (g a)) : Amounts (p >>= k) fun w => f w >>= fun a => g a w := by
  refine ⟨fun w => ?_, CommitsLast.after hp.keeps fun a => (hk a).last⟩
  have hw := (hp.looking hlooks).runs w
  unfold AmountsTo StoreM.runAlone still at hw
  unfold AmountsTo StoreM.runAlone
  rw [runSteps_bind]
  cases hf : f w with
  | error e =>
    rw [hf] at hw
    have hrun : p.runSteps Connection.step ⟨tablesOf w, tablesOf w, w.salt⟩ = (.error e, _) := hw
    rw [hrun]
    exact rfl
  | ok a =>
    rw [hf] at hw
    have hrun : p.runSteps Connection.step ⟨tablesOf w, tablesOf w, w.salt⟩ = (.ok a, _) := hw.2
    rw [hrun]
    exact (hk a).runs w

namespace SqliteUsers

/-- The account is inserted where the name is free, and the random salt is one more. -/
theorem register_amounts (u : Str) (passHash pubkey : Json) :
    Amounts (register u passHash pubkey) fun w => Ciphertext.SqliteUsers.register w u passHash pubkey := by
  have hsalt : Does (execute .tokenBytes) (still fun w => .ok (w.salt w.accounts.length)) :=
    does_select rfl
  have hrest : ∀ salt digest : List UInt8, Amounts (write do
      let taken ← execute (.selectUser u)
      if taken then .pure false
      else do
        execute (.insertUser u salt digest pubkey)
        .pure true) fun w => (do
      let username ← Sql.str u
      if w.accounts.any fun a => a.username == username then return (false, w)
      let pubkey ← Sql.text pubkey
      return (true, { w with accounts := w.accounts ++ [⟨username, salt, digest, pubkey⟩] })) := by
    intro salt digest
    refine (((does_select (m := .selectUser u) rfl).bind (g := fun taken w =>
        if taken then .ok (false, w)
        else ((tablesOf w).insertUser u salt digest pubkey).map fun t => (true, t.on w))
      fun taken => ?_).congr fun w => ?_).write
    · cases taken with
      | true => exact does_pure false
      | false =>
        refine ((does_execute (.insertUser u salt digest pubkey) rfl).bind fun _ =>
          does_pure true).congr fun w => ?_
        dsimp only [Statement.effect]
        cases (tablesOf w).insertUser u salt digest pubkey <;> rfl
    · dsimp only [Statement.effect]
      unfold Tables.insertUser
      cases str u with
      | error e => rfl
      | ok name =>
        show (if w.accounts.any fun a => a.username == name then _ else _) =
          (if w.accounts.any fun a => a.username == name then _ else
            Except.map _ (text pubkey >>= fun pubkey => if w.accounts.any fun a => a.username == name then _ else _))
        cases w.accounts.any fun a => a.username == name with
        | true => rfl
        | false => cases text pubkey <;> rfl
  exact Amounts.after (f := fun w => .ok (w.salt w.accounts.length)) hsalt
    (execute_uses (Statement.selects.looks rfl)) fun salt =>
      Amounts.after (f := fun _ => Ciphertext.SqliteUsers.derive passHash salt) (does_raised _) (raised_uses _)
        fun digest => hrest salt digest

/-- What `verify` makes of the row. -/
def compare (passHash : Json) : Option Account → Except PyErr Bool
  | none => do
    let _ ← Ciphertext.SqliteUsers.derive passHash []
    return false
  | some a => do
    let digest ← Ciphertext.SqliteUsers.derive passHash a.salt
    return a.digest == digest

theorem verify_amounts (u passHash : Json) :
    Amounts (verify u passHash) (still fun w => Ciphertext.SqliteUsers.verify w u passHash) := by
  have hselect : (Statement.selectDigest u).selects = true := rfl
  refine Does.looking (((does_select hselect).bind (g := fun row => still fun _ => compare passHash row)
    fun row => ?_).congr fun w => ?_) ?_
  · cases row with
    | none =>
      refine ((does_raised _).bind fun _ => does_pure _).congr fun w => ?_
      dsimp only [still, compare]
      cases Ciphertext.SqliteUsers.derive passHash [] <;> rfl
    | some a =>
      refine ((does_raised _).bind fun digest => does_pure (a.digest == digest)).congr fun w => ?_
      dsimp only [still, compare]
      cases Ciphertext.SqliteUsers.derive passHash a.salt <;> rfl
  · dsimp only [still, Statement.effect]
    unfold Ciphertext.SqliteUsers.verify
    have haccounts : (tablesOf w).accounts = w.accounts := rfl
    rw [haccounts]
    cases text u with
    | error e => rfl
    | ok name =>
      dsimp only [Bind.bind, Except.bind, Except.map]
      cases w.accounts.find? fun a => some a.username == name <;> rfl
  · refine (execute_uses (Statement.selects.looks hselect)).bind fun row => ?_
    cases row with
    | none => exact (raised_uses _).bind fun _ => trivial
    | some a => exact (raised_uses _).bind fun _ => trivial

theorem exists_amounts (u : Str) : Amounts (exists' u) (still fun w => Ciphertext.SqliteUsers.exists' w u) := by
  refine amounts_query (m := .selectUser u) rfl fun w => ?_
  dsimp only [still, Statement.effect]
  unfold Ciphertext.SqliteUsers.exists'
  cases str u <;> rfl

theorem pubkey_amounts (u : Str) : Amounts (pubkey u) (still fun w => Ciphertext.SqliteUsers.pubkey w u) := by
  refine amounts_select (m := .selectPubkey u) rfl fun w => ?_
  dsimp only [still, Statement.effect]
  unfold Ciphertext.SqliteUsers.pubkey
  cases str u <;> rfl

end SqliteUsers

namespace SqliteRooms

theorem create_amounts (room : Str) : Amounts (create room) fun w => Ciphertext.SqliteRooms.create w room := by
  refine Does.write (((does_select (m := .selectRoom room) rfl).bind
    (g := fun existing w =>
      if existing then .ok (false, w) else ((tablesOf w).insertRoom room).map fun t => (true, t.on w))
    fun existing => ?_).congr fun w => ?_)
  · cases existing with
    | true => exact does_pure false
    | false =>
      refine ((does_execute (.insertRoom room) rfl).bind fun _ => does_pure true).congr fun w => ?_
      dsimp only [Statement.effect]
      cases (tablesOf w).insertRoom room <;> rfl
  · dsimp only [Statement.effect]
    unfold Ciphertext.SqliteRooms.create Tables.insertRoom
    cases str room with
    | error e => rfl
    | ok room =>
      show (if w.rooms.contains room then _ else _) =
        (if w.rooms.contains room then _ else Except.map _ (if w.rooms.contains room then _ else _))
      split <;> rfl

theorem join_amounts (room : Str) (u : Json) :
    Amounts (join room u) (silent fun w => Ciphertext.SqliteRooms.join w room u) := by
  refine (((does_execute (.insertOrIgnoreRoom room) rfl).bind fun _ =>
    does_execute (.insertOrIgnoreMembership room u) rfl).congr fun w => ?_).write
  dsimp only [silent, Statement.effect]
  unfold Ciphertext.SqliteRooms.join Tables.insertOrIgnoreRoom Tables.insertOrIgnoreMembership
  cases str room with
  | error e => rfl
  | ok room =>
    cases text u with
    | error e => rfl
    | ok name =>
      cases name with
      | none => rfl
      | some name =>
        show Except.map _ (if w.memberships.contains (room, name) then _ else _) =
          Except.map _ (Except.map _ (if w.memberships.contains (room, name) then _ else _))
        split <;> rfl

theorem leave_amounts (room : Str) (u : Json) :
    Amounts (leave room u) (silent fun w => Ciphertext.SqliteRooms.leave w room u) := by
  refine amounts_change rfl fun w => ?_
  dsimp only [silent, Statement.effect]
  unfold Ciphertext.SqliteRooms.leave Tables.deleteMembership
  cases str room <;> try rfl
  cases text u <;> rfl

theorem members_amounts (room : Str) : Amounts (members room) (still fun w => Ciphertext.SqliteRooms.members w room) := by
  refine amounts_query (m := .selectMembers room) rfl fun w => ?_
  dsimp only [still, Statement.effect]
  unfold Ciphertext.SqliteRooms.members
  cases str room <;> rfl

theorem exists_amounts (room : Str) : Amounts (exists' room) (still fun w => Ciphertext.SqliteRooms.exists' w room) := by
  refine amounts_query (m := .selectRoom room) rfl fun w => ?_
  dsimp only [still, Statement.effect]
  unfold Ciphertext.SqliteRooms.exists'
  cases str room <;> rfl

theorem roomsOf_amounts (u : Json) : Amounts (roomsOf u) (still fun w => Ciphertext.SqliteRooms.roomsOf w u) := by
  refine amounts_query (m := .selectRooms u) rfl fun w => ?_
  dsimp only [still, Statement.effect]
  unfold Ciphertext.SqliteRooms.roomsOf
  cases text u <;> rfl

end SqliteRooms

namespace MessageStore

/-- One row, or the one that was there. -/
theorem record_amounts (id : Json) (conversation : Str) (sender : Json) (recipient : Str) (body nonce : Json)
    (ts : Int) : Amounts (record id conversation sender recipient body nonce ts)
      (silent fun w => Ciphertext.MessageStore.record w id conversation sender recipient body nonce ts) := by
  refine amounts_change rfl fun w => ?_
  have hrecord : Ciphertext.MessageStore.record w id conversation sender recipient body nonce ts =
      ((tablesOf w).insertOrIgnoreMessage id conversation sender recipient body nonce ts).map fun t => t.on w := by
    unfold Ciphertext.MessageStore.record Tables.insertOrIgnoreMessage
    refine bound fun id => bound fun conversation => bound fun sender => bound fun recipient =>
      bound fun body => bound fun nonce => bound fun ts => ?_
    cases sender with
    | none => rfl
    | some sender =>
      show (if id.isSome && w.messages.any fun r => r.id == id then _ else _) =
        Except.map _ (if id.isSome && w.messages.any fun r => r.id == id then _ else _)
      split <;> rfl
  dsimp only [silent, Statement.effect]
  rw [hrecord]
  cases (tablesOf w).insertOrIgnoreMessage id conversation sender recipient body nonce ts <;> rfl

theorem queueFor_amounts (u : Str) (id : Json) :
    Amounts (queueFor u id) (silent fun w => Ciphertext.MessageStore.queueFor w u id) := by
  refine amounts_change rfl fun w => ?_
  dsimp only [silent, Statement.effect]
  unfold Ciphertext.MessageStore.queueFor Tables.insertOrIgnorePending
  cases text id with
  | error e => rfl
  | ok id =>
    cases str u with
    | error e => rfl
    | ok u =>
      cases id with
      | none => rfl
      | some id =>
        show Except.map _ (if w.pending.contains (id, u) then _ else _) =
          Except.map _ (Except.map _ (if w.pending.contains (id, u) then _ else _))
        split <;> rfl

/-- The `UPDATE`s of `mark`. -/
def updates (state : Str) (now : Int) (id : Str) (t : Tables) : Except PyErr Tables := do
  let t ← if state = read then t.updateReadAt now id else t.updateDeliveredAt now id
  if state = read then t.updateDeliveredAt now id else .ok t

/-- What they come to. -/
def markWhere (i state : Str) (now : Int) (t : Tables) : Tables :=
  { t with messages :=
      t.messages.map fun r => if r.id = some i then Ciphertext.MessageStore.markRow r state now else r }

omit [Runtime] in
/-- The two `UPDATE`s of `mark` are one pass over the rows. -/
theorem updates_eq {id i : Str} (hi : str id = .ok i) (state : Str) (now : Int) (t : Tables) :
    updates state now id t = .ok (markWhere i state now t) := by
  have hmap : ∀ {rows rows' : List Row}, rows = rows' → (Except.ok { t with messages := rows } : Except PyErr Tables) =
      .ok { t with messages := rows' } := fun h => by rw [h]
  unfold updates markWhere Tables.updateReadAt Tables.updateDeliveredAt Tables.updateWhere
  by_cases hread : state = read
  · simp only [hread, hi, if_true, Bind.bind, Except.bind, Pure.pure, Except.pure, List.map_map]
    refine hmap (List.map_congr_left fun r _ => ?_)
    by_cases hr : r.id = some i <;> simp [hr, Ciphertext.MessageStore.markRow]
  · simp only [hread, hi, if_false, Bind.bind, Except.bind, Pure.pure, Except.pure]
    refine hmap (List.map_congr_left fun r _ => ?_)
    by_cases hr : r.id = some i <;> simp [hr, Ciphertext.MessageStore.markRow, hread]

/-- What `mark` does once it knows the sender. -/
def marking (id state : Str) (now : Int) : Option Str → World → Except PyErr (Option Str × World)
  | none, w => .ok (none, w)
  | some sender, w => (updates state now id (tablesOf w)).map fun t => (some sender, t.on w)

/-- The sender is read first: no row, no stamp. -/
theorem mark_amounts (id state : Str) (now : Int) :
    Amounts (mark id state now) fun w => Ciphertext.MessageStore.mark w id state now := by
  refine (((does_execute (.selectSender id) rfl).bind (g := marking id state now)
    fun sender => ?_).congr fun w => ?_).write
  · cases sender with
    | none => exact does_pure none
    | some sender =>
      by_cases hread : state = read
      · simp only [hread, if_true]
        refine ((does_execute (.updateReadAt now id) rfl).bind fun _ =>
          (does_execute (.updateDeliveredAt now id) rfl).bind fun _ => does_pure (some sender)).congr fun w => ?_
        dsimp only [marking, updates, Statement.effect]
        cases (tablesOf w).updateReadAt now id with
        | error e => rfl
        | ok t =>
          show Except.map _ (t.updateDeliveredAt now id) = (Except.map _ (Except.map _ (t.updateDeliveredAt now id))) >>= _
          cases t.updateDeliveredAt now id <;> rfl
      · simp only [hread, if_false]
        refine ((does_execute (.updateDeliveredAt now id) rfl).bind fun _ =>
          (does_pure ()).bind fun _ => does_pure (some sender)).congr fun w => ?_
        dsimp only [marking, updates, Statement.effect]
        rw [if_neg hread]
        cases (tablesOf w).updateDeliveredAt now id <;> simp [hread, Except.map, Bind.bind, Except.bind]
  · dsimp only [Statement.effect]
    unfold Ciphertext.MessageStore.mark
    cases hi : str id with
    | error e => rfl
    | ok i =>
      dsimp only [Bind.bind, Except.bind, Except.map]
      have hmessages : (tablesOf w).messages = w.messages := rfl
      rw [hmessages]
      cases w.messages.find? fun r => r.id == some i with
      | none => rfl
      | some row =>
        dsimp only [Option.map, marking]
        rw [updates_eq hi]
        rfl

/-- What was queued is read before it is deleted. -/
theorem flush_amounts (u : Json) : Amounts (flush u) fun w => Ciphertext.MessageStore.flush w u := by
  refine (((does_execute (.selectQueued u) rfl).bind (g := fun rows w =>
    ((tablesOf w).deletePending u).map fun t => (rows, t.on w)) fun rows => ?_).congr fun w => ?_).write
  · refine ((does_execute (.deletePending u) rfl).bind fun _ => does_pure rows).congr fun w => ?_
    dsimp only [Statement.effect]
    cases (tablesOf w).deletePending u <;> rfl
  · dsimp only [Statement.effect]
    unfold Ciphertext.MessageStore.flush Tables.selectQueued Tables.deletePending
    cases text u with
    | error e => rfl
    | ok name =>
      -- nobody is queued under no name
      cases name with
      | none =>
        have hrows : (w.messages.filter fun r => w.pending.any fun p => some p.1 == r.id && some p.2 == none) = [] :=
          List.filter_eq_nil_iff.mpr fun r _ => by simp
        have hpending : (w.pending.filter fun p => some p.2 != none) = w.pending :=
          List.filter_eq_self.mpr fun p _ => rfl
        simp only [Bind.bind, Except.bind, Except.map, Pure.pure, Except.pure, tablesOf, Tables.on, hrows, hpending]
        rfl
      | some name =>
        simp [Bind.bind, Except.bind, Except.map, Pure.pure, Except.pure, Tables.on, tablesOf,
          Ciphertext.MessageStore.queued, bne]

/-- Newest first, with or without a bound. -/
theorem history_amounts (conversation : Str) (before : Option Int) (limit : Int) :
    Amounts (history conversation before limit)
      (still fun w => Ciphertext.MessageStore.history w conversation before limit) := by
  refine amounts_select (m := .selectNewest conversation before (max 1 (min limit maxLimit))) rfl fun w => ?_
  dsimp only [still, Statement.effect]
  unfold Ciphertext.MessageStore.history Tables.selectNewest
  cases str conversation with
  | error e => rfl
  | ok conversation =>
    cases before with
    | none => rfl
    | some before =>
      dsimp only [Bind.bind, Except.bind]
      cases int before <;> rfl

end MessageStore

namespace SqliteContacts

/-- `rowcount` says whether the pair is new. -/
theorem add_amounts (owner contact : Json) :
    Amounts (add owner contact) fun w => Ciphertext.SqliteContacts.add w owner contact := by
  unfold add
  by_cases hnames : (!owner.truthy || !contact.truthy || owner.pyEq contact) = true
  · rw [if_pos hnames]
    refine ((does_pure false).congr fun w => ?_).looking trivial
    unfold Ciphertext.SqliteContacts.add
    rw [if_pos hnames]
    rfl
  · rw [if_neg hnames]
    refine amounts_change (m := .insertOrIgnoreContact owner contact) rfl fun w => ?_
    dsimp only [Statement.effect]
    unfold Ciphertext.SqliteContacts.add Tables.insertOrIgnoreContact
    rw [if_neg hnames]
    cases text owner with
    | error e => rfl
    | ok owner =>
      cases text contact with
      | error e => rfl
      | ok contact =>
        cases owner with
        | none => rfl
        | some owner =>
          cases contact with
          | none => rfl
          | some contact =>
            show (if w.contacts.contains (owner, contact) then _ else _) =
              Except.map _ (if w.contacts.contains (owner, contact) then _ else _)
            split <;> rfl

theorem remove_amounts (owner contact : Json) :
    Amounts (remove owner contact) (silent fun w => Ciphertext.SqliteContacts.remove w owner contact) := by
  refine amounts_change rfl fun w => ?_
  dsimp only [silent, Statement.effect]
  unfold Ciphertext.SqliteContacts.remove Tables.deleteContact
  cases text owner with
  | error e => rfl
  | ok owner => cases text contact <;> rfl

theorem of_amounts (owner : Json) : Amounts (of owner) (still fun w => Ciphertext.SqliteContacts.of w owner) := by
  refine amounts_query (m := .selectContacts owner) rfl fun w => ?_
  dsimp only [still, Statement.effect]
  unfold Ciphertext.SqliteContacts.of
  cases text owner <;> rfl

end SqliteContacts

end Sql

end Ciphertext
