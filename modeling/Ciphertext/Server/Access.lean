import Ciphertext.Server.Provenance
import Mathlib.Data.Sym.Sym2

/-!
# Who may read what

A HISTORY request names a conversation as its reader sees it, and the server
turns that into the key the rows were stored under: the name of a room, or the
two names of a direct conversation, sorted and joined by U+001F. Access to a
room is checked against its members. Access to a direct conversation is checked
by nothing but the key: whoever can spell it can read it.

The spelling is safe as long as the separator is in neither name of a stored
message. `_register` does not refuse it in one, and then a key has more than one
reading.

`directConversation_identifies` says how far the spelling goes: where the separator is
not in the first of two names, equal keys mean equal pairs, and no key is a room's. From
it `Run.history_confined`: in every reachable state, a request whose key has one reading
(`Unambiguous`) is answered with messages its reader has a right to and no others. In
`spelled`, `c` reads what `a` and `b` wrote because the name `b␟c` was registered.
-/

namespace Ciphertext

open Prog MessageRouter

/-! ## Keys of conversations -/

/-- The character that separates the two names of a key is in neither. -/
def Str.plain (s : Str) : Prop := ∀ c ∈ pairSeparator, c ∉ s

theorem pairSeparator_eq : pairSeparator = [0x1f] := by decide

theorem plain_iff {s : Str} : s.plain ↔ (0x1f : CodePoint) ∉ s := by
  rw [Str.plain, pairSeparator_eq]
  simp

theorem directConversation_eq (a b : Str) : directConversation (.str a) (.str b) =
    .ok (if a ≤ b then a ++ pairSeparator ++ b else b ++ pairSeparator ++ a) := by
  by_cases hab : a ≤ b <;> simp [directConversation, Str.sorted, Str.join, List.intercalate, hab]

/-- Either of the two has the same key. -/
theorem directConversation_comm (a b : Str) :
    directConversation (.str a) (.str b) = directConversation (.str b) (.str a) := by
  have hsorted : Str.sorted [a, b] = Str.sorted [b, a] :=
    (((Str.sorted_perm _).trans (.swap b a [])).trans (Str.sorted_perm _).symm).eq_of_pairwise'
      (List.pairwise_insertionSort ..) (List.pairwise_insertionSort ..)
  show Except.ok (Str.join pairSeparator (Str.sorted [a, b])) = _
  rw [hsorted]
  rfl

/-- A key between two plain names can be read in one way only. -/
theorem directConversation_inj {a b u t key : Str} (ha : a.plain) (hb : b.plain)
    (h : directConversation (.str a) (.str b) = .ok key)
    (h' : directConversation (.str u) (.str t) = .ok key) :
    (u = a ∧ t = b) ∨ (u = b ∧ t = a) := by
  rw [directConversation_eq] at h h'
  have heq := Except.ok.inj (h.trans h'.symm)
  rw [plain_iff] at ha hb
  -- Whatever the two orders are, the only separator on the left is the middle one.
  have hsplit : ∀ x y x' y' : Str, (0x1f : CodePoint) ∉ x → (0x1f : CodePoint) ∉ y →
      x ++ pairSeparator ++ y = x' ++ pairSeparator ++ y' → x' = x ∧ y' = y := by
    intro x y x' y' hx hy hxy
    rw [pairSeparator_eq, List.append_assoc, List.append_assoc] at hxy
    obtain ⟨h₁, -, h₂⟩ := (List.append_cons_inj_of_notMem hx hy).mp hxy
    exact ⟨h₁.symm, h₂.symm⟩
  split at heq <;> split at heq
  · exact .inl (hsplit _ _ _ _ ha hb heq)
  · exact .inr (hsplit _ _ _ _ ha hb heq).symm
  · exact .inr (hsplit _ _ _ _ hb ha heq)
  · exact .inl (hsplit _ _ _ _ hb ha heq).symm

theorem separator_mem {a b key : Str} (h : directConversation (.str a) (.str b) = .ok key) :
    (0x1f : CodePoint) ∈ key := by
  rw [directConversation_eq, pairSeparator_eq] at h
  rw [← Except.ok.inj h]
  split <;> simp

/-! ## Names of rooms -/

/-- The separator counts as a space, which a room name has none of. -/
theorem roomProblem_plain {v : Json} {room : Str} (h : roomProblem v = .ok room) :
    (0x1f : CodePoint) ∉ room := by
  intro hmem
  have hspace : room.any Str.isSpace = true := List.any_eq_true.mpr ⟨_, hmem, by decide⟩
  unfold roomProblem at h
  split at h
  · split at h
    · cases h
    · split at h
      · cases h
      · split at h
        · cases h
        next hshape =>
          rw [← Except.ok.inj h] at hspace
          simp [hspace] at hshape
  · cases h

/-- A key is no name of a room. -/
theorem directConversation_no_room {a b key : Str} (h : directConversation (.str a) (.str b) = .ok key) {s : Sid}
    {f : Frame} (hf : f.get "room" = .str key) : roomName s f ≠ .pure (some key) := by
  rw [ne_eq, roomName_eq_some, hf]
  intro hroom
  exact roomProblem_plain hroom (separator_mem h)

/-- **Keys identify conversations**: of two pairs of names, the first without the
separator, the keys are the same exactly when the pairs are; and no key can be a room,
whatever the names. -/
theorem directConversation_identifies :
    (∀ a b c d : Str, a.plain → b.plain →
      (directConversation (.str a) (.str b) = directConversation (.str c) (.str d) ↔ s(a, b) = s(c, d))) ∧
      ∀ a b key : Str, directConversation (.str a) (.str b) = .ok key →
        ∀ (s : Sid) (f : Frame), f.get "room" = .str key → roomName s f ≠ .pure (some key) := by
  refine ⟨fun a b c d ha hb => ?_, fun a b key h s f hf => directConversation_no_room h hf⟩
  constructor
  · intro h
    rcases directConversation_inj ha hb (directConversation_eq a b) (h ▸ directConversation_eq a b) with ⟨hc, hd⟩ | ⟨hc, hd⟩
    · rw [hc, hd]
    · rw [hc, hd, Sym2.eq_swap]
  · intro h
    rcases Sym2.eq_iff.mp h with ⟨hc, hd⟩ | ⟨hd, hc⟩
    · rw [hc, hd]
    · rw [hc, hd, directConversation_comm]

/-- Names that begin alike, and twice the same one. -/
theorem directConversation_alike :
    directConversation (.str "al") (.str "al") ≠ directConversation (.str "al") (.str "alice") ∧
      ∀ (s : Sid) (f : Frame), f.get "room" = .str "al\x1falice" → roomName s f ≠ .pure (some "al\x1falice") := by
  obtain ⟨hkeys, hrooms⟩ := directConversation_identifies
  refine ⟨?_, hrooms "al" "alice" _ (by decide)⟩
  rw [ne_eq, hkeys "al" "al" "al" "alice" (plain_iff.mpr (by decide)) (plain_iff.mpr (by decide))]
  decide

section Runs

variable [Runtime] {cfg : Config} {tr : List Step} {w₀ w : World}

/-- Nobody is in a room whose name could be read as a key. -/
theorem Run.plainRooms (h : Run cfg w₀ tr w) (h₀ : Wired w₀) (hn : w₀.memberships = []) :
    ∀ m ∈ w.memberships, (0x1f : CodePoint) ∉ m.1 :=
  h.memberships (P := fun m => (0x1f : CodePoint) ∉ m.1) h₀ hn
    fun _ _ _ hroom _ => roomProblem_plain hroom

omit [Runtime] in
/-- A room somebody is in has a name that no key equals. -/
theorem plain_of_member {room : Str} {me : Json} (h : ∀ m ∈ w.memberships, (0x1f : CodePoint) ∉ m.1)
    (hin : me ∈ (memberNames w room).map Json.str) : (0x1f : CodePoint) ∉ room := by
  obtain ⟨name, hname, -⟩ := List.mem_map.mp hin
  obtain ⟨m, hm, -⟩ := List.mem_map.mp hname
  obtain ⟨hmem, hroom⟩ := List.mem_filter.mp hm
  rw [← beq_iff_eq.mp hroom]
  exact h m hmem

/-! ## What a stored message's key says -/

/-- The row of a message to a room. -/
def Row.isRoom (r : Row) : Bool := r.recipient.startsWith roomPrefix

/-- A row is stored under the name of its room, which no two people's key
equals, or under the key of its two names. -/
def Keyed (r : Row) : Prop :=
  if r.isRoom then r.conversation = r.recipient ∧ (0x1f : CodePoint) ∉ r.recipient
  else directConversation (.str r.sender) (.str r.recipient) = .ok r.conversation

theorem Run.keyed (h : Run cfg w₀ tr w) (h₀ : Wired w₀) (hn : w₀.memberships = [])
    (hm : w₀.messages = []) : ∀ r ∈ w.messages, Keyed r := by
  intro r hr
  obtain ⟨st, hst, row, hrec, hsame⟩ := h.origin hm r hr
  obtain ⟨pre, post, htr⟩ := List.append_of_mem hst
  obtain ⟨hrun, -⟩ := h.split pre st post htr
  have hw := hrun.wired h₀
  obtain ⟨s, f, me, -, -, hu, hacc, hstores⟩ := hrec.origin
  have hme : me = .str row.sender := hstores.sender_eq (hw.named s me hu) hacc.2.2
  have hkey := hstores.conversation
  -- Marks do not touch the columns in question.
  show Keyed r.unmarked
  rw [hsame]
  show Keyed row
  unfold Keyed Row.isRoom
  by_cases hroom : row.recipient.startsWith roomPrefix = true
  · rw [if_pos hroom] at hkey ⊢
    have hadm := hacc.2.2
    rw [Admitted, if_pos hroom] at hadm
    exact ⟨hkey, plain_of_member (hrun.plainRooms h₀ hn) hadm.2⟩
  · rw [if_neg hroom] at hkey ⊢
    have horEmpty : orEmpty me = me := if_pos (hw.named s me hu)
    rw [horEmpty, hme] at hkey
    exact hkey

/-! ## Reading history -/

/-- The messages a reader has a right to: direct ones they sent or were sent,
and those of the rooms they are in now. -/
def Privy (w : World) (me : Json) (r : Row) : Prop :=
  if r.isRoom then me ∈ (memberNames w r.recipient).map Json.str
  else me = .str r.sender ∨ me = .str r.recipient

/-- The key a reader spells has one reading: the separator is neither in the
reader's name nor in the name they ask for, or it is in no name of a stored
direct message. -/
def Unambiguous (w : World) (me : Json) (target : Str) : Prop :=
  (∀ u, me = .str u → u.plain ∧ target.plain) ∨
    ∀ r ∈ w.messages, r.isRoom = false → r.sender.plain ∧ r.recipient.plain

omit [Runtime] in
/-- The rows of a conversation one may read are rows one has a right to. -/
theorem Readable.entitled {me : Json} {target : Str} {r : Row}
    (hread : Readable w me target r.conversation) (hme : me.truthy = true) (hkey : Keyed r)
    (hrooms : ∀ m ∈ w.memberships, (0x1f : CodePoint) ∉ m.1) (hr : r ∈ w.messages)
    (hplain : Unambiguous w me target) : Privy w me r := by
  unfold Readable at hread
  unfold Keyed at hkey
  unfold Privy
  by_cases hroom : target.startsWith roomPrefix = true
  · -- The name of a room somebody is in: only that room's messages are under it.
    rw [if_pos hroom] at hread
    obtain ⟨hconv, hin⟩ := hread
    by_cases hrow : r.isRoom = true
    · rw [if_pos hrow] at hkey ⊢
      rw [← hkey.1, hconv]
      exact hin
    · rw [if_neg hrow] at hkey
      have hsep := separator_mem hkey
      rw [hconv] at hsep
      exact (plain_of_member hrooms hin hsep).elim
  · -- A key of two names, the reader's among them.
    rw [if_neg hroom] at hread
    have horEmpty : orEmpty me = me := if_pos hme
    rw [horEmpty] at hread
    cases me with
    | str u =>
      by_cases hrow : r.isRoom = true
      · rw [if_pos hrow] at hkey
        have hsep := separator_mem hread
        rw [hkey.1] at hsep
        exact (hkey.2 hsep).elim
      · rw [if_neg hrow] at hkey ⊢
        have hparties : u = r.sender ∨ u = r.recipient := by
          rcases hplain with hasked | hstored
          · obtain ⟨hu, ht⟩ := hasked u rfl
            rcases directConversation_inj hu ht hread hkey with ⟨hs, -⟩ | ⟨-, hs⟩
            · exact .inl hs.symm
            · exact .inr hs.symm
          · obtain ⟨ha, hb⟩ := hstored r hr (by simpa using hrow)
            rcases directConversation_inj ha hb hkey hread with ⟨hu, -⟩ | ⟨hu, -⟩
            · exact .inl hu
            · exact .inr hu
        rcases hparties with rfl | rfl
        · exact .inl rfl
        · exact .inr rfl
    | _ => simp [directConversation] at hread

/-- Every entry of the answer to a HISTORY request shows a message its reader
has a right to. -/
def Confined (w : World) (me : Json) (ds : List Delivery) : Prop :=
  ∀ d ∈ ds, d.frame.type = .historyResult →
    ∃ es : List Dict, d.frame.get "messages" = .list (es.map .dict) ∧
      ∀ e ∈ es, ∃ r ∈ w.messages, historyEntry r (orEmpty me) = .ok (some e) ∧ Privy w me r

/-- **Who may read what**: in every state a run reaches, a request for history
whose key has one reading is answered with nothing its reader has no right to. -/
theorem Run.history_confined {uuid : Nat → Str} {clock : Nat → Int} {salt : Nat → List UInt8}
    (h : Run cfg (World.start uuid clock salt) tr w) {s : Sid} {me : Json} {f : Frame}
    (hu : w.username s = some me) (hplain : Unambiguous w me (asked f).pyStr) :
    Confined w me (Step.of cfg w (.frame s f)).out := by
  intro d hd ht
  have hw := h.wired (wired_start uuid clock salt)
  have hkeyed := h.keyed (wired_start uuid clock salt) rfl rfl
  have hrooms := h.plainRooms (wired_start uuid clock salt) rfl
  obtain ⟨s', f', me', conversation, hi, hu', hread, es, hg, hes⟩ := Step.page_of hd ht
  obtain ⟨rfl, rfl⟩ := Input.frame.inj hi
  obtain rfl := Option.some.inj (hu.symm.trans hu')
  refine ⟨es, hg, fun e he => ?_⟩
  obtain ⟨r, hr, hconv, hentry⟩ := hes e he
  subst hconv
  exact ⟨r, hr, hentry, hread.entitled (hw.named s me hu) (hkeyed r hr) hrooms hr hplain⟩

end Runs

/-! ## A name with the separator in it -/

namespace Sample

/-- `c` is sent nothing, and asks for the history of `a␟b`. -/
def spelled : Frame := ask .history [("room", .str "a\x1fb")]

/-- `a` writes to the absent `b␟c`. -/
def split : List Input :=
  [register "a", register "b\x1fc", register "c", login 0 "a", login 1 "c",
    msg 0 "b\x1fc" "i"]

/-- `a` writes to the absent `b`. -/
def joined : List Input := [register "a", register "b", login 0 "a", msg 0 "b" "i"]

end Sample

section Concrete

open Sample

attribute [local instance] sampleRuntime

/-- `c` is shown a message between two other people. -/
theorem spelled_leaks :
    (∃ tr, Run chatServer fresh tr (fresh.after chatServer split)) ∧
      (fresh.after chatServer split).username 1 = some (.str "c") ∧
      ¬ Confined (fresh.after chatServer split) (.str "c")
        (Step.of chatServer (fresh.after chatServer split) (.frame 1 spelled)).out := by
  refine ⟨⟨_, Run.of_inputs chatServer fresh split⟩, by decide +kernel, fun h => ?_⟩
  have hout : (Step.of chatServer (fresh.after chatServer split) (.frame 1 spelled)).out.any
      (fun d => d.frame.type = .historyResult ∧ d.frame.get "messages" ≠ .list []) = true := by
    decide +kernel
  obtain ⟨d, hd, hpage⟩ := List.any_eq_true.mp hout
  obtain ⟨ht, hsome⟩ := of_decide_eq_true hpage
  obtain ⟨es, hg, hes⟩ := h d hd ht
  cases es with
  | nil => exact hsome (by simpa using hg)
  | cons e es =>
    obtain ⟨r, hr, -, hent⟩ := hes e (List.mem_cons_self ..)
    have hothers : ∀ r ∈ (fresh.after chatServer split).messages, r.isRoom = false ∧
        Json.str "c" ≠ .str r.sender ∧ Json.str "c" ≠ .str r.recipient := by decide +kernel
    obtain ⟨hroom, hsender, hrecipient⟩ := hothers r hr
    rw [Privy, hroom] at hent
    rcases hent with he | he
    · exact hsender he
    · exact hrecipient he

/-- Between `a` and `b` the key has one reading: `a` is shown what `a` sent. -/
theorem joined_confined :
    (Step.of chatServer (fresh.after chatServer joined)
        (.frame 0 (ask .history [("room", .str "b")]))).out.any
        (fun d => d.frame.type = .historyResult ∧ d.frame.get "messages" ≠ .list []) = true ∧
      Confined (fresh.after chatServer joined) (.str "a")
        (Step.of chatServer (fresh.after chatServer joined)
          (.frame 0 (ask .history [("room", .str "b")]))).out := by
  refine ⟨by decide +kernel, ?_⟩
  refine Run.history_confined (Run.of_inputs chatServer fresh joined) (by decide +kernel) ?_
  refine .inl fun u hu => ?_
  cases hu
  exact ⟨plain_iff.mpr (by decide), plain_iff.mpr (by decide)⟩

end Concrete

end Ciphertext
