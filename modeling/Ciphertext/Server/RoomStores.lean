import Mathlib.Data.Finset.Dedup
import Ciphertext.Py.Dict
import Ciphertext.Server.CallSpecs

/-!
# The two room stores

The router is handed rooms in memory (`RoomRegistry`, a map from each room to the
set of its members) or on disk (`SqliteRooms`, a table of rooms and one of
memberships), and is not to tell which. `SameRooms` is the simulation: the same
rooms, and the same members of each. Every call keeps it and answers alike on both
sides, as long as sqlite can store its strings; one that sqlite cannot encode raises
there, and the map takes it.

`rooms_interchangeable` is both directions: over any sequence of calls the answers are
the same exactly if every string of every call can be encoded. At the first that cannot,
one raises and the other answers; a room named by half of a surrogate pair shows it.
-/

namespace Ciphertext

/-! ## `RoomRegistry` -/

/-- `_members`: a room's members are a set, in no particular order. -/
structure RoomRegistry where
  rooms : List (Str × List Str) := []

namespace RoomRegistry

/-- Create an empty room. `false` if it already exists. -/
def create (r : RoomRegistry) (room : Str) : Bool × RoomRegistry :=
  if PyDict.has r.rooms room then (false, r) else (true, ⟨PyDict.insert r.rooms room []⟩)

/-- A copy of the membership. -/
def members (r : RoomRegistry) (room : Str) : List Str := (PyDict.get r.rooms room).getD []

/-- Add a member, creating the room if it is new. -/
def join (r : RoomRegistry) (room username : Str) : RoomRegistry :=
  ⟨PyDict.insert (PyDict.setDefault r.rooms room []) room (addOnce (r.members room) username)⟩

def leave (r : RoomRegistry) (room username : Str) : RoomRegistry :=
  match PyDict.get r.rooms room with
  | none => r
  | some members => ⟨PyDict.insert r.rooms room (members.filter (· ≠ username))⟩

def exists' (r : RoomRegistry) (room : Str) : Bool := PyDict.has r.rooms room

def roomsOf (r : RoomRegistry) (username : Str) : List Str :=
  Str.sorted ((r.rooms.filter fun e => e.2.contains username).map Prod.fst)

/-- Drop a user from every room. -/
def forget (r : RoomRegistry) (username : Str) : RoomRegistry :=
  ⟨r.rooms.map fun e => (e.1, e.2.filter (· ≠ username))⟩

end RoomRegistry

/-- Remove a user from every room. -/
def SqliteRooms.forget [Runtime] (w : World) (username : Json) : Except PyErr World := do
  let name ← Sql.text username
  return { w with memberships := w.memberships.filter fun m => !(some m.2 == name) }

/-! ## The calls and their answers -/

/-- One call on a room store. -/
inductive RoomCall where
  | create (room : Str)
  | join (room username : Str)
  | leave (room username : Str)
  | forget (username : Str)
  | members (room : Str)
  | exists' (room : Str)
  | roomsOf (username : Str)

/-- What a call returns: nothing, a truth value, a set or a list. -/
inductive RoomAnswer where
  | nothing
  | bool (b : Bool)
  | set (names : Finset Str)
  | list (names : List Str)
deriving DecidableEq

namespace RoomCall

/-- The strings a call is given. -/
def strings : RoomCall → List Str
  | create room => [room]
  | join room username => [room, username]
  | leave room username => [room, username]
  | forget username => [username]
  | members room => [room]
  | exists' room => [room]
  | roomsOf username => [username]

/-- UTF-8 has an encoding for all of them. -/
def Encodable (c : RoomCall) : Prop := ∀ s ∈ c.strings, s.encodable = true

def onRegistry (r : RoomRegistry) : RoomCall → RoomAnswer × RoomRegistry
  | create room => (.bool (r.create room).1, (r.create room).2)
  | join room username => (.nothing, r.join room username)
  | leave room username => (.nothing, r.leave room username)
  | forget username => (.nothing, r.forget username)
  | members room => (.set (r.members room).toFinset, r)
  | exists' room => (.bool (r.exists' room), r)
  | roomsOf username => (.list (r.roomsOf username), r)

variable [Runtime]

def onSqlite (w : World) : RoomCall → Except PyErr (RoomAnswer × World)
  | create room => (SqliteRooms.create w room).map fun a => (.bool a.1, a.2)
  | join room username => (SqliteRooms.join w room (.str username)).map fun w' => (.nothing, w')
  | leave room username => (SqliteRooms.leave w room (.str username)).map fun w' => (.nothing, w')
  | forget username => (SqliteRooms.forget w (.str username)).map fun w' => (.nothing, w')
  | members room => (SqliteRooms.members w room).map fun names => (.set names.toFinset, w)
  | exists' room => (SqliteRooms.exists' w room).map fun b => (.bool b, w)
  | roomsOf username => (SqliteRooms.roomsOf w (.str username)).map fun names => (.list names, w)

omit [Runtime] in
/-- The answers to a sequence of calls. -/
def registryAnswers (r : RoomRegistry) : List RoomCall → List (Except PyErr RoomAnswer)
  | [] => []
  | c :: cs => .ok (c.onRegistry r).1 :: registryAnswers (c.onRegistry r).2 cs

/-- The same from sqlite. A call that raises leaves the tables as they were. -/
def sqliteAnswers (w : World) : List RoomCall → List (Except PyErr RoomAnswer)
  | [] => []
  | c :: cs =>
    match c.onSqlite w with
    | .ok (a, w') => .ok a :: sqliteAnswers w' cs
    | .error e => .error e :: sqliteAnswers w cs

end RoomCall

/-! ## The simulation -/

/-- Two lists of the same strings, each once, sort alike. -/
theorem Str.sorted_congr {l l' : List Str} (h : l.Nodup) (h' : l'.Nodup) (hmem : ∀ x, x ∈ l ↔ x ∈ l') :
    Str.sorted l = Str.sorted l' := by
  have hperm : l.Perm l' := (List.perm_ext_iff_of_nodup h h').mpr hmem
  have hsorted : (Str.sorted l).Perm (Str.sorted l') :=
    (Str.sorted_perm l).trans (hperm.trans (Str.sorted_perm l').symm)
  exact hsorted.eq_of_pairwise' (List.pairwise_insertionSort _ l) (List.pairwise_insertionSort _ l')

/-- The same rooms with the same members. -/
structure SameRooms (r : RoomRegistry) (w : World) : Prop where
  rooms : ∀ room, PyDict.has r.rooms room = true ↔ room ∈ w.rooms
  members : ∀ room u, u ∈ r.members room ↔ (room, u) ∈ w.memberships
  keys : (r.rooms.map Prod.fst).Nodup
  rows : w.memberships.Nodup

namespace RoomRegistry

/-- The members after a room's were assigned. -/
theorem members_insert (d : List (Str × List Str)) (room room' : Str) (names : List Str) :
    members ⟨PyDict.insert d room names⟩ room' = if room' = room then names else members ⟨d⟩ room' := by
  unfold members
  by_cases hr : room' = room
  · subst hr
    rw [PyDict.get_insert_self, if_pos rfl]
    rfl
  · rw [PyDict.get_insert_ne d names hr, if_neg hr]

/-- Assigning to a room makes it exist. -/
theorem has_insert (d : List (Str × List Str)) (room room' : Str) (names : List Str) :
    PyDict.has (PyDict.insert d room names) room' = true ↔ PyDict.has d room' = true ∨ room' = room := by
  by_cases hr : room' = room
  · subst hr
    simp [PyDict.has]
  · rw [PyDict.has_insert_ne d names hr]
    simp [hr]

/-- `setdefault` with no members changes no membership. -/
theorem members_setDefault (r : RoomRegistry) (room room' : Str) :
    members ⟨PyDict.setDefault r.rooms room []⟩ room' = r.members room' := by
  unfold PyDict.setDefault
  split
  · rfl
  next hno =>
    rw [members_insert]
    by_cases hr : room' = room
    · have hnone : PyDict.get r.rooms room = none := by simpa [PyDict.has] using hno
      rw [if_pos hr, hr, members, hnone]
      rfl
    · rw [if_neg hr]

/-- So does `setdefault`. -/
theorem has_setDefault (r : RoomRegistry) (room room' : Str) :
    PyDict.has (PyDict.setDefault r.rooms room []) room' = true ↔
      PyDict.has r.rooms room' = true ∨ room' = room := by
  unfold PyDict.setDefault
  split
  next hyes =>
    constructor
    · exact .inl
    · intro h
      rcases h with h | rfl
      · exact h
      · exact hyes
  next => exact has_insert r.rooms room room' []

/-- No room is listed twice for it. -/
theorem nodup_setDefault {r : RoomRegistry} (h : (r.rooms.map Prod.fst).Nodup) (room : Str) :
    ((PyDict.setDefault r.rooms room []).map Prod.fst).Nodup := by
  unfold PyDict.setDefault
  split
  · exact h
  · exact PyDict.nodup_insert h room []

/-- Leaving a room one is not in, or one there is not, changes no membership. -/
theorem members_leave (r : RoomRegistry) (room u room' : Str) :
    (r.leave room u).members room' =
      if room' = room then (r.members room).filter (· ≠ u) else r.members room' := by
  unfold leave
  split
  next hnone =>
    split
    next hr => rw [hr, members, hnone]; rfl
    next => rfl
  next names hsome =>
    have hnames : r.members room = names := by
      rw [members, hsome]
      rfl
    rw [members_insert, hnames]

/-- Leaving a room does not remove it. -/
theorem has_leave (r : RoomRegistry) (room u room' : Str) :
    PyDict.has (r.leave room u).rooms room' = true ↔ PyDict.has r.rooms room' = true := by
  unfold leave
  split
  · rfl
  next names hsome =>
    rw [has_insert]
    constructor
    · intro h
      rcases h with h | h
      · exact h
      · rw [h, PyDict.has, hsome]
        rfl
    · exact .inl

theorem nodup_leave {r : RoomRegistry} (h : (r.rooms.map Prod.fst).Nodup) (room u : Str) :
    ((r.leave room u).rooms.map Prod.fst).Nodup := by
  unfold leave
  split
  · exact h
  · exact PyDict.nodup_insert h room _

/-- Whoever is forgotten is in no room any more. -/
theorem members_forget (r : RoomRegistry) (u room : Str) :
    (r.forget u).members room = (r.members room).filter (· ≠ u) := by
  unfold members forget
  rw [PyDict.get_map]
  cases PyDict.get r.rooms room with
  | none => rfl
  | some names => rfl

/-- Forgetting somebody removes no room. -/
theorem has_forget (r : RoomRegistry) (u room : Str) :
    PyDict.has (r.forget u).rooms room = PyDict.has r.rooms room := by
  unfold forget PyDict.has
  rw [PyDict.get_map]
  cases PyDict.get r.rooms room with
  | none => rfl
  | some names => rfl

end RoomRegistry

section Simulation

variable [Runtime] {r : RoomRegistry} {w : World}

omit [Runtime] in
/-- **`create`**: both answer the same, and hold the same afterwards. -/
theorem SameRooms.create (h : SameRooms r w) {room : Str} (he : room.encodable = true) :
    ∃ w', SqliteRooms.create w room = .ok ((r.create room).1, w') ∧ SameRooms (r.create room).2 w' := by
  unfold SqliteRooms.create RoomRegistry.create
  rw [Sql.str_of_encodable he]
  by_cases hin : PyDict.has r.rooms room = true
  · have hmem : w.rooms.contains room = true := by simpa using (h.rooms room).mp hin
    rw [if_pos hin]
    refine ⟨w, ?_, h⟩
    simp only [Bind.bind, Except.bind, Pure.pure, Except.pure, if_pos hmem]
  · have hmem : ¬ w.rooms.contains room = true := by simpa [← h.rooms room] using hin
    rw [if_neg hin]
    refine ⟨{ w with rooms := w.rooms ++ [room] }, ?_, fun room' => ?_, fun room' u => ?_, ?_, h.rows⟩
    · simp only [Bind.bind, Except.bind, Pure.pure, Except.pure, if_neg hmem]
    · rw [RoomRegistry.has_insert, h.rooms]
      simp
    · rw [RoomRegistry.members_insert]
      by_cases hr : room' = room
      · -- a room that did not exist has no memberships
        have hnone : PyDict.get r.rooms room = none := by simpa [PyDict.has] using hin
        have hempty : r.members room = [] := by
          rw [RoomRegistry.members, hnone]
          rfl
        rw [if_pos hr, ← hempty, hr]
        exact h.members room u
      · rw [if_neg hr]
        exact h.members room' u
    · exact PyDict.nodup_insert h.keys room []

/-- **`join`** creates the room where it is missing, in both. -/
theorem SameRooms.join (h : SameRooms r w) {room u : Str} (he : room.encodable = true)
    (hu : u.encodable = true) : ∃ w', SqliteRooms.join w room (.str u) = .ok w' ∧ SameRooms (r.join room u) w' := by
  have hrun : SqliteRooms.join w room (.str u) = .ok { w with
      rooms := addOnce w.rooms room
      memberships := addOnce w.memberships (room, u) } := by
    unfold SqliteRooms.join addOnce
    rw [Sql.str_of_encodable he, Sql.text_of_encodable hu]
    simp only [Bind.bind, Except.bind, Pure.pure, Except.pure]
    split <;> rfl
  refine ⟨_, hrun, fun room' => ?_, fun room' u' => ?_, ?_, ?_⟩
  · show PyDict.has (PyDict.insert _ _ _) room' = true ↔ room' ∈ addOnce w.rooms room
    rw [RoomRegistry.has_insert, RoomRegistry.has_setDefault, mem_addOnce, h.rooms]
    tauto
  · show u' ∈ RoomRegistry.members ⟨PyDict.insert _ _ _⟩ room' ↔ (room', u') ∈ addOnce w.memberships (room, u)
    rw [RoomRegistry.members_insert, RoomRegistry.members_setDefault, mem_addOnce, ← h.members]
    by_cases hr : room' = room
    · subst hr
      rw [if_pos rfl, mem_addOnce]
      simp
    · rw [if_neg hr]
      simp [hr]
  · exact PyDict.nodup_insert (RoomRegistry.nodup_setDefault h.keys room) room _
  · show (addOnce w.memberships (room, u)).Nodup
    unfold addOnce
    split
    · exact h.rows
    next hnew =>
      have hnew : (room, u) ∉ w.memberships := by simpa using hnew
      refine List.nodup_append.mpr ⟨h.rows, List.nodup_singleton _, fun a ha b hb hab => hnew ?_⟩
      rw [← List.mem_singleton.mp hb, ← hab]
      exact ha

/-- **`leave`**. -/
theorem SameRooms.leave (h : SameRooms r w) {room u : Str} (he : room.encodable = true)
    (hu : u.encodable = true) : ∃ w', SqliteRooms.leave w room (.str u) = .ok w' ∧ SameRooms (r.leave room u) w' := by
  have hrun : SqliteRooms.leave w room (.str u) = .ok { w with
      memberships := w.memberships.filter fun m => !(m.1 == room && some m.2 == some u) } := by
    unfold SqliteRooms.leave
    rw [Sql.str_of_encodable he, Sql.text_of_encodable hu]
    rfl
  refine ⟨_, hrun, fun room' => ?_, fun room' u' => ?_, RoomRegistry.nodup_leave h.keys room u, h.rows.filter _⟩
  · rw [RoomRegistry.has_leave]
    exact h.rooms room'
  · rw [RoomRegistry.members_leave, List.mem_filter, ← h.members]
    by_cases hr : room' = room
    · subst hr
      rw [if_pos rfl, List.mem_filter]
      simp
    · rw [if_neg hr]
      simp [hr]

/-- **`forget`**. -/
theorem SameRooms.forget (h : SameRooms r w) {u : Str} (hu : u.encodable = true) :
    ∃ w', SqliteRooms.forget w (.str u) = .ok w' ∧ SameRooms (r.forget u) w' := by
  have hrun : SqliteRooms.forget w (.str u) = .ok { w with
      memberships := w.memberships.filter fun m => !(some m.2 == some u) } := by
    unfold SqliteRooms.forget
    rw [Sql.text_of_encodable hu]
    rfl
  refine ⟨_, hrun, fun room => ?_, fun room u' => ?_, ?_, h.rows.filter _⟩
  · rw [RoomRegistry.has_forget]
    exact h.rooms room
  · rw [RoomRegistry.members_forget, List.mem_filter, List.mem_filter, h.members]
    simp
  · have hkeys : (r.forget u).rooms.map Prod.fst = r.rooms.map Prod.fst := by
      unfold RoomRegistry.forget
      rw [List.map_map]
      rfl
    rw [hkeys]
    exact h.keys

omit [Runtime] in
/-- The members of a room, as sets. -/
theorem SameRooms.members_eq (h : SameRooms r w) (room : Str) :
    ((w.memberships.filter fun m => m.1 == room).map Prod.snd).toFinset = (r.members room).toFinset := by
  ext u
  rw [List.mem_toFinset, List.mem_toFinset, h.members, List.mem_map]
  constructor
  · intro hm
    obtain ⟨m, hm, rfl⟩ := hm
    obtain ⟨hmem, hroom⟩ := List.mem_filter.mp hm
    rw [← beq_iff_eq.mp hroom]
    exact hmem
  · exact fun hm => ⟨(room, u), List.mem_filter.mpr ⟨hm, by simp⟩, rfl⟩

omit [Runtime] in
/-- The rooms of a user, as sorted lists. -/
theorem SameRooms.roomsOf_eq (h : SameRooms r w) (u : Str) :
    Str.sorted ((w.memberships.filter fun m => some m.2 == some u).map Prod.fst) = r.roomsOf u := by
  refine Str.sorted_congr ?_ ?_ fun room => ?_
  · refine List.Nodup.map_on (fun a ha b hb hab => ?_) (h.rows.filter _)
    have ha' := (List.mem_filter.mp ha).2
    have hb' := (List.mem_filter.mp hb).2
    simp only [beq_iff_eq, Option.some.injEq] at ha' hb'
    exact Prod.ext hab (ha'.trans hb'.symm)
  · exact h.keys.sublist (List.filter_sublist.map _)
  · rw [List.mem_map, List.mem_map]
    constructor
    · intro hm
      obtain ⟨m, hm, rfl⟩ := hm
      obtain ⟨hmem, hu⟩ := List.mem_filter.mp hm
      simp only [beq_iff_eq, Option.some.injEq] at hu
      have hin : u ∈ r.members m.1 := (h.members m.1 u).mpr (by rw [← hu]; exact hmem)
      unfold RoomRegistry.members at hin
      cases hg : PyDict.get r.rooms m.1 with
      | none => rw [hg] at hin; cases hin
      | some names =>
        rw [hg] at hin
        exact ⟨(m.1, names), List.mem_filter.mpr ⟨(PyDict.mem_iff_get h.keys).mpr hg, by simpa using hin⟩, rfl⟩
    · intro he
      obtain ⟨e, he, rfl⟩ := he
      obtain ⟨hmem, hu⟩ := List.mem_filter.mp he
      have hg : PyDict.get r.rooms e.1 = some e.2 := (PyDict.mem_iff_get h.keys).mp hmem
      have hin : u ∈ r.members e.1 := by
        rw [RoomRegistry.members, hg]
        simpa using hu
      exact ⟨(e.1, u), List.mem_filter.mpr ⟨(h.members e.1 u).mp hin, by simp⟩, rfl⟩

/-- **One call** whose strings sqlite can store. -/
theorem SameRooms.call (h : SameRooms r w) {c : RoomCall} (hc : c.Encodable) :
    ∃ w', c.onSqlite w = .ok ((c.onRegistry r).1, w') ∧ SameRooms (c.onRegistry r).2 w' := by
  cases c with
  | create room =>
    obtain ⟨w', hrun, hsame⟩ := h.create (hc room (List.mem_singleton.mpr rfl))
    exact ⟨w', by rw [RoomCall.onSqlite, hrun]; rfl, hsame⟩
  | join room u =>
    obtain ⟨w', hrun, hsame⟩ := h.join (hc room (by simp [RoomCall.strings])) (hc u (by simp [RoomCall.strings]))
    exact ⟨w', by rw [RoomCall.onSqlite, hrun]; rfl, hsame⟩
  | leave room u =>
    obtain ⟨w', hrun, hsame⟩ := h.leave (hc room (by simp [RoomCall.strings])) (hc u (by simp [RoomCall.strings]))
    exact ⟨w', by rw [RoomCall.onSqlite, hrun]; rfl, hsame⟩
  | forget u =>
    obtain ⟨w', hrun, hsame⟩ := h.forget (hc u (List.mem_singleton.mpr rfl))
    exact ⟨w', by rw [RoomCall.onSqlite, hrun]; rfl, hsame⟩
  | members room =>
    refine ⟨w, ?_, h⟩
    rw [RoomCall.onSqlite, SqliteRooms.members, Sql.str_of_encodable (hc room (List.mem_singleton.mpr rfl))]
    show Except.ok (RoomAnswer.set _, w) = Except.ok (RoomAnswer.set _, w)
    rw [h.members_eq room]
  | exists' room =>
    refine ⟨w, ?_, h⟩
    have hsame : w.rooms.contains room = PyDict.has r.rooms room := by
      rw [Bool.eq_iff_iff, List.contains_iff_mem, ← h.rooms room]
    rw [RoomCall.onSqlite, SqliteRooms.exists', Sql.str_of_encodable (hc room (List.mem_singleton.mpr rfl))]
    show Except.ok (RoomAnswer.bool (w.rooms.contains room), w) = _
    rw [hsame]
    rfl
  | roomsOf u =>
    refine ⟨w, ?_, h⟩
    rw [RoomCall.onSqlite, SqliteRooms.roomsOf, Sql.text_of_encodable (hc u (List.mem_singleton.mpr rfl))]
    show Except.ok (RoomAnswer.list (Str.sorted _), w) = _
    rw [h.roomsOf_eq u]
    rfl

omit [Runtime] in
/-- Text with a lone surrogate cannot be bound. -/
theorem Sql.str_of_not_encodable {s : Str} (h : ¬ s.encodable = true) : Sql.str s = .error .unicodeEncodeError :=
  if_neg h

theorem Sql.text_of_not_encodable {s : Str} (h : ¬ s.encodable = true) :
    Sql.text (.str s) = .error .unicodeEncodeError := by
  show (Sql.str s).map some = _
  rw [Sql.str_of_not_encodable h]
  rfl

/-- Any other call raises. -/
theorem RoomCall.onSqlite_raises {c : RoomCall} (hc : ¬ c.Encodable) (w : World) :
    c.onSqlite w = .error .unicodeEncodeError := by
  have hone : ∀ s, ¬ (∀ t ∈ [s], Str.encodable t = true) → ¬ s.encodable = true := by
    intro s hs he
    exact hs fun t ht => by rw [List.mem_singleton.mp ht]; exact he
  have htwo : ∀ s t, ¬ (∀ x ∈ [s, t], Str.encodable x = true) →
      ¬ s.encodable = true ∨ s.encodable = true ∧ ¬ t.encodable = true := by
    intro s t hst
    by_cases hs : s.encodable = true
    · refine .inr ⟨hs, fun ht => hst fun x hx => ?_⟩
      rcases List.mem_cons.mp hx with rfl | hx
      · exact hs
      · rw [List.mem_singleton.mp hx]
        exact ht
    · exact .inl hs
  cases c with
  | create room => rw [onSqlite, SqliteRooms.create, Sql.str_of_not_encodable (hone room hc)]; rfl
  | join room u =>
    rcases htwo room u hc with hr | ⟨hr, hu⟩
    · rw [onSqlite, SqliteRooms.join, Sql.str_of_not_encodable hr]; rfl
    · rw [onSqlite, SqliteRooms.join, Sql.str_of_encodable hr, Sql.text_of_not_encodable hu]; rfl
  | leave room u =>
    rcases htwo room u hc with hr | ⟨hr, hu⟩
    · rw [onSqlite, SqliteRooms.leave, Sql.str_of_not_encodable hr]; rfl
    · rw [onSqlite, SqliteRooms.leave, Sql.str_of_encodable hr, Sql.text_of_not_encodable hu]; rfl
  | forget u => rw [onSqlite, SqliteRooms.forget, Sql.text_of_not_encodable (hone u hc)]; rfl
  | members room => rw [onSqlite, SqliteRooms.members, Sql.str_of_not_encodable (hone room hc)]; rfl
  | exists' room => rw [onSqlite, SqliteRooms.exists', Sql.str_of_not_encodable (hone room hc)]; rfl
  | roomsOf u => rw [onSqlite, SqliteRooms.roomsOf, Sql.text_of_not_encodable (hone u hc)]; rfl

/-- From stores that agree, the answers agree exactly as long as every string can
be encoded. -/
theorem SameRooms.answers_iff (h : SameRooms r w) (cs : List RoomCall) :
    RoomCall.registryAnswers r cs = RoomCall.sqliteAnswers w cs ↔ ∀ c ∈ cs, c.Encodable := by
  induction cs generalizing r w with
  | nil => simp [RoomCall.registryAnswers, RoomCall.sqliteAnswers]
  | cons c cs ih =>
    unfold RoomCall.registryAnswers RoomCall.sqliteAnswers
    rw [List.forall_mem_cons]
    by_cases hc : c.Encodable
    · obtain ⟨w', hrun, hsame⟩ := h.call hc
      rw [hrun]
      dsimp only
      rw [List.cons_inj_right, ih hsame]
      simp [hc]
    · rw [RoomCall.onSqlite_raises hc w]
      simp [hc]

/-- **The two room stores are interchangeable** exactly for strings that can be
encoded. -/
theorem rooms_interchangeable (uuid : Nat → Str) (clock : Nat → Int) (salt : Nat → List UInt8)
    (cs : List RoomCall) : RoomCall.registryAnswers {} cs =
      RoomCall.sqliteAnswers (World.start uuid clock salt) cs ↔ ∀ c ∈ cs, c.Encodable := by
  have hempty : SameRooms {} (World.start uuid clock salt) := by
    constructor <;> simp [World.start, PyDict.has, RoomRegistry.members]
  exact hempty.answers_iff cs

end Simulation

section Concrete

attribute [local instance] sampleRuntime

/-- A room named by half a surrogate pair: the map takes it, sqlite raises. -/
theorem rooms_differ : ¬ ∀ cs : List RoomCall,
    RoomCall.registryAnswers {} cs = RoomCall.sqliteAnswers Sample.fresh cs := by
  intro h
  have hlone := h [.create [0x23, 0xd800]]
  simp [RoomCall.registryAnswers, RoomCall.sqliteAnswers, RoomCall.onSqlite, SqliteRooms.create, Sql.str,
    Str.encodable, Str.isSurrogate, Except.map, Bind.bind, Except.bind] at hlone

end Concrete

end Ciphertext
