import Ciphertext.Server.Router

/-!
# The name typed into the room dialog

The model of `name_problem` in `im/client/view/tk/room_dialog.py` and of
`TkView._hashed`, beside the server's `_room_name`. The dialog takes every leading
marker off before it counts, the view puts one on where there is none, and the
server counts what arrives, markers and all. On a name with one marker or none that
comes to the same. On a name with several it does not, and `nameProblem_agrees_iff`
says for which of them the two rules part.

They part in both directions (`twoMarkers_part`): `##` is a room for the server and none
for the dialog, and a name that is just short enough without its two markers passes the
dialog and is too long for the server. Nothing is checked of a name on the way between
the two.
-/

namespace Ciphertext

open MessageRouter

/-- `s.lstrip(chars)`. -/
def Str.lstrip (s chars : Str) : Str := s.dropWhile fun c => chars.contains c

/-- How many characters `s.lstrip(chars)` takes off. -/
def Str.leading (s chars : Str) : Nat := (s.takeWhile fun c => chars.contains c).length

theorem Str.leading_add_lstrip (s chars : Str) : s.leading chars + (s.lstrip chars).length = s.length := by
  unfold leading lstrip
  rw [← List.length_append, List.takeWhile_append_dropWhile]

namespace RoomDialog

/-- `MAX_NAME`. -/
def maxName : Nat := 31

/-- Why this room name will not do, or `None` if it is fine. -/
def nameProblem (name : Str) : Option Str :=
  if name.isEmpty then some "A room needs a name."
  else if name.any Str.isSpace then some "A room name cannot contain spaces. Try study-group."
  else if maxName < (name.lstrip "#").length then
    some (fstr ["A room name is at most ", Str.ofInt maxName, " characters."])
  else if (name.lstrip "#").isEmpty then some "A room needs a name after the #."
  else none

end RoomDialog

/-- `TkView._hashed`. -/
def TkView.hashed (room : Str) : Str :=
  if room.strip.startsWith "#" then room.strip else Str.ofString "#" ++ room.strip

namespace RoomDialog

/-- The server's `_room_name` takes the name, whoever sends it and in whatever frame. -/
def Accepted (room : Str) : Prop :=
  ∀ (s : Sid) (f : Frame), f.get "room" = .str room → roomName s f = .pure (some room)

/-- The names the two rules disagree on: without a space, with two markers or more in
front, and then either nothing else in 32 characters at most, or up to 31 characters
that the markers bring to more than 32. -/
def Parted (name : Str) : Prop :=
  name.any Str.isSpace = false ∧ 2 ≤ name.leading "#" ∧
    ((name.lstrip "#").length = 0 ∧ name.leading "#" ≤ 32 ∨
      0 < (name.lstrip "#").length ∧ (name.lstrip "#").length ≤ maxName ∧ 32 < name.length)

instance (name : Str) : Decidable (Parted name) := inferInstanceAs (Decidable (_ ∧ _ ∧ _))

/-- What the dialog wants of a name. -/
theorem nameProblem_eq_none {name : Str} :
    nameProblem name = none ↔
      name.any Str.isSpace = false ∧ 0 < (name.lstrip "#").length ∧ (name.lstrip "#").length ≤ maxName := by
  have hlength := name.leading_add_lstrip "#"
  unfold nameProblem
  cases hempty : name.isEmpty with
  | true =>
    -- nothing typed, so nothing after the markers either
    have hzero : name.length = 0 := List.length_eq_zero_iff.mpr (List.isEmpty_iff.mp hempty)
    have hrest : (name.lstrip "#").length = 0 := by omega
    simp [hrest]
  | false =>
    cases hspace : name.any Str.isSpace with
    | true => simp
    | false =>
      by_cases hlong : maxName < (name.lstrip "#").length
      · simp [hlong]
      · cases hrest : (name.lstrip "#").isEmpty with
        | true => simp [List.isEmpty_iff.mp hrest]
        | false =>
          have hpos : 0 < (name.lstrip "#").length := by
            rw [List.length_pos_iff]
            exact List.isEmpty_eq_false_iff.mp hrest
          simp [hlong, hpos, Nat.not_lt.mp hlong]

/-- What the server wants of one. -/
theorem accepted_iff {room : Str} :
    Accepted room ↔
      room.startsWith roomPrefix = true ∧ 2 ≤ room.length ∧ room.length ≤ 32 ∧ room.any Str.isSpace = false := by
  have hproblem : Accepted room ↔ roomProblem (.str room) = .ok room := by
    -- one frame that asks for the room is as good as any
    constructor
    · intro h
      exact roomName_eq_some.mp (h 0 { type := .join, data := [("room", .str room)], id := .null, ts := 0 } rfl)
    · intro h s f hf
      rw [roomName_eq_some, hf, h]
  rw [hproblem, roomProblem]
  cases hempty : room.isEmpty with
  | true =>
    have hzero : room.length = 0 := List.length_eq_zero_iff.mpr (List.isEmpty_iff.mp hempty)
    simp [hzero]
  | false =>
    cases hmarked : room.startsWith roomPrefix with
    | false => simp
    | true =>
      cases hspace : room.any Str.isSpace with
      | true => simp
      | false =>
        by_cases hlow : room.length < 2
        · simp [hlow, Nat.not_le.mpr hlow]
        · by_cases hhigh : 32 < room.length
          · simp [hhigh, Nat.not_le.mpr hhigh]
          · simp [hlow, hhigh, Nat.not_lt.mp hlow, Nat.not_lt.mp hhigh]

/-- A name has a leading marker when it starts with one. -/
theorem leading_pos_iff {name : Str} : 0 < name.leading "#" ↔ name.startsWith "#" = true := by
  cases name with
  | nil =>
    constructor
    · intro h
      exact absurd h (Nat.lt_irrefl 0)
    · intro h
      exact absurd h (by decide)
  | cons c cs =>
    have hstart : Str.startsWith (c :: cs) "#" = ((0x23 : CodePoint) == c) := by
      show ((0x23 : CodePoint) == c && List.isPrefixOf [] cs) = _
      rw [List.isPrefixOf_nil_left, Bool.and_true]
    have hmarker : (Str.ofString "#").contains c = ((0x23 : CodePoint) == c) := by
      show List.contains [(0x23 : CodePoint)] c = _
      rw [List.contains_cons, List.contains_nil, Bool.or_false, Bool.beq_comm]
    unfold Str.leading
    rw [hstart, List.takeWhile_cons, hmarker]
    cases (0x23 : CodePoint) == c with
    | false => simp
    | true => simp

/-- **Where the dialog and the server part.** A stripped name is fine for the dialog
exactly when the server takes what the view makes of it, but for the names above. -/
theorem nameProblem_agrees_iff {name : Str} (hstrip : name.strip = name) :
    (nameProblem name = none ↔ Accepted (TkView.hashed name)) ↔ ¬ Parted name := by
  have hlength := name.leading_add_lstrip "#"
  rw [nameProblem_eq_none, accepted_iff, Parted, TkView.hashed, hstrip]
  cases hstart : name.startsWith "#" with
  | false =>
    -- the view puts a marker on, and both count the same rest
    have hnone : ¬ 0 < name.leading "#" := fun h => by simp [leading_pos_iff.mp h] at hstart
    have hmarked : (Str.ofString "#" ++ name).startsWith roomPrefix = true := by
      show (Str.ofString "#").isPrefixOf (Str.ofString "#" ++ name) = true
      exact List.isPrefixOf_iff_prefix.mpr (List.prefix_append _ _)
    have hspace : (Str.ofString "#" ++ name).any Str.isSpace = name.any Str.isSpace := by
      rw [List.any_append]
      rfl
    have hone : (Str.ofString "#" ++ name).length = name.length + 1 := by
      rw [List.length_append, Nat.add_comm]
      rfl
    simp only [Bool.false_eq_true, if_false, hmarked, hspace, hone, true_and, maxName]
    cases name.any Str.isSpace with
    | false =>
      simp only [true_and, and_true]
      omega
    | true => simp
  | true =>
    -- nothing is put on: the server counts the markers, the dialog does not
    have hsome : 0 < name.leading "#" := leading_pos_iff.mpr hstart
    have hmarked : name.startsWith roomPrefix = true := hstart
    simp only [if_true, hmarked, true_and, maxName]
    cases name.any Str.isSpace with
    | false =>
      simp only [true_and, and_true]
      omega
    | true => simp

/-- One marker. -/
theorem studyGroup_agrees : nameProblem "#study-group" = none ↔ Accepted (TkView.hashed "#study-group") :=
  (nameProblem_agrees_iff (by decide)).mpr (by decide)

/-- The server has a room of two markers, which the dialog will not have; and the dialog
lets a name pass that the server refuses. -/
theorem twoMarkers_part :
    nameProblem "##" ≠ none ∧ Accepted (TkView.hashed "##") ∧
      nameProblem "##the-reading-group-for-beginners" = none ∧
      ¬ Accepted (TkView.hashed "##the-reading-group-for-beginners") := by
  refine ⟨by decide, accepted_iff.mpr (by decide), by decide, fun h => ?_⟩
  exact absurd (accepted_iff.mp h) (by decide)

end RoomDialog

end Ciphertext
