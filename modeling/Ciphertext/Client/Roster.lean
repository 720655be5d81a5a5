import Ciphertext.Client.ChatModel
import Mathlib.Data.List.Induction

/-!
# Contacts and the roster

Whether somebody is online is kept twice in `ChatModel`, in the contacts and in the
roster, and three methods write it. `set_presence` writes both. `replace_roster` writes
the roster alone, and `replace_contacts` writes the contacts and gives the roster only
the names it lacks. So each of these two can leave the copies apart, and
`agree_throughout_iff` says with which arguments.

The condition is on the model before each call (`Admits`): `replace_roster` may name the
contacts that are shown online and no others, and `replace_contacts` may not contradict
the roster for a name the roster has. The comment in `replace_contacts` says that the
two cannot disagree; `awayContact_disagrees` is a contact who is offline in the one and
online in the other.
-/

namespace Ciphertext

namespace ChatModel

/-- The online flag of every contact is what `is_online` says of that name. -/
def Agrees (m : ChatModel) : Prop :=
  ∀ name online, PyDict.get m.contacts name = some online → m.isOnline name = online

/-! ## What the roster says afterwards -/

/-- The names that are listed are online, and the others as before. -/
theorem foldl_insert_get (users : List Str) (roster : List (Str × Bool)) (name : Str) :
    PyDict.get (users.foldl (fun roster name => PyDict.insert roster name true) roster) name =
      if name ∈ users then some true else PyDict.get roster name := by
  induction users generalizing roster with
  | nil => rfl
  | cons user users ih =>
    rw [List.foldl_cons, ih]
    by_cases hmem : name ∈ users
    · simp [hmem]
    · by_cases hk : name = user
      · subst hk
        simp [hmem]
      · rw [PyDict.get_insert_ne _ _ hk]
        simp [hmem, hk]

/-- After a USERS frame exactly those it lists are online. -/
theorem replaceRoster_isOnline (m : ChatModel) (users : List Str) (name : Str) :
    (m.replaceRoster users).isOnline name = users.contains name := by
  have hform : (m.replaceRoster users).roster =
      (users.foldl (fun roster name => PyDict.insert roster name true) m.roster).map
        fun e => (e.1, if users.contains e.1 then e.2 else false) := by
    refine List.map_congr_left fun e _ => ?_
    split <;> rfl
  unfold isOnline
  rw [hform, PyDict.get_map_keyed _ fun name online => if users.contains name then online else false,
    foldl_insert_get]
  by_cases hmem : name ∈ users
  · simp [hmem]
  · cases PyDict.get m.roster name <;> simp [hmem]

/-- `setdefault` writes only where there is nothing. -/
theorem setDefault_get (d : List (Str × Bool)) (k k' : Str) (v : Bool) :
    PyDict.get (PyDict.setDefault d k v) k' =
      if k' = k then (PyDict.get d k).or (some v) else PyDict.get d k' := by
  unfold PyDict.setDefault PyDict.has
  cases hd : PyDict.get d k with
  | none =>
    by_cases hk : k' = k
    · rw [hk]
      simp
    · simp [hk, PyDict.get_insert_ne _ _ hk]
  | some w =>
    by_cases hk : k' = k
    · rw [hk]
      simp [hd]
    · simp [hk]

/-- The names that are new to the roster get their flag, the first one given. -/
theorem foldl_setDefault_get (fresh roster : List (Str × Bool)) (name : Str) :
    PyDict.get (fresh.foldl (fun roster e => PyDict.setDefault roster e.1 e.2) roster) name =
      (PyDict.get roster name).or (PyDict.get fresh name) := by
  induction fresh generalizing roster with
  | nil => simp
  | cons e fresh ih =>
    obtain ⟨k, v⟩ := e
    rw [List.foldl_cons, ih, setDefault_get, PyDict.get_cons]
    by_cases hk : name = k
    · rw [hk]
      cases PyDict.get roster k <;> simp
    · simp [hk]

/-- Dicts with the same items say the same of every name. -/
theorem get_of_sameItems {d d' : List (Str × Bool)} (h : sameItems d d' = true) {name : Str} {online : Bool}
    (hget : PyDict.get d name = some online) : PyDict.get d' name = some online := by
  unfold sameItems at h
  have hall := List.all_eq_true.mp (Bool.and_eq_true_iff.mp h).2
  simpa using hall _ (PyDict.mem_of_get hget)

/-! ## The three methods -/

/-- A call of one of them, with its argument. -/
inductive PresenceCall where
  | replaceRoster (users : List Str)
  | replaceContacts (contacts : List Json)
  | setPresence (user : Str) (online : Bool)

variable [Runtime]

/-- The model after it. One that raises has written nothing. -/
def afterCall (m : ChatModel) : PresenceCall → ChatModel
  | .replaceRoster users => m.replaceRoster users
  | .replaceContacts contacts => (m.replaceContacts contacts).toOption.getD m
  | .setPresence user online => m.setPresence user online

/-- What the call may say of somebody whose flag is kept already: that a roster names the
contacts shown online and no others, and that a contact list shows nobody otherwise than
the roster does. -/
def Admits (m : ChatModel) : PresenceCall → Prop
  | .replaceRoster users => ∀ name online, PyDict.get m.contacts name = some online → users.contains name = online
  | .replaceContacts contacts => ∀ fresh, freshContacts contacts [] = .ok fresh → ∀ name online known,
      PyDict.get fresh name = some online → PyDict.get m.roster name = some known → known = online
  | .setPresence _ _ => True

/-- After `replace_roster` the two agree exactly if the call is admitted, whatever they said
before. -/
theorem agrees_replaceRoster (m : ChatModel) (users : List Str) :
    (m.replaceRoster users).Agrees ↔ m.Admits (.replaceRoster users) := by
  unfold Agrees
  simp only [replaceRoster_isOnline]
  exact Iff.rfl

omit [Runtime] in
/-- A PRESENCE frame writes both. -/
theorem agrees_setPresence {m : ChatModel} (h : m.Agrees) (user : Str) (online : Bool) :
    (m.setPresence user online).Agrees := by
  intro name flag hget
  have hroster : PyDict.get (m.setPresence user online).roster name =
      if name = user then some online else PyDict.get m.roster name := by
    show PyDict.get (if PyDict.get m.roster user = some online then _ else _) name = _
    by_cases hsame : PyDict.get m.roster user = some online
    · by_cases hk : name = user
      · rw [hk]
        simp [hsame]
      · simp [hsame, hk]
    · by_cases hk : name = user
      · rw [hk]
        simp [hsame]
      · simp [hsame, hk, PyDict.get_insert_ne _ _ hk]
  unfold isOnline
  rw [hroster]
  by_cases hk : name = user
  · -- a contact after the call was one before it, so its flag has been written as well
    subst hk
    have hhas : PyDict.has m.contacts name = true := by
      by_contra hno
      have hsame : (m.setPresence name online).contacts = m.contacts := if_neg hno
      rw [hsame] at hget
      simp [PyDict.has, hget] at hno
    have hset : (m.setPresence name online).contacts = PyDict.insert m.contacts name online := if_pos hhas
    rw [hset, PyDict.get_insert_self] at hget
    simpa using hget
  · have hsame : PyDict.get (m.setPresence user online).contacts name = PyDict.get m.contacts name := by
      show PyDict.get (if PyDict.has m.contacts user then _ else _) name = _
      by_cases hhas : PyDict.has m.contacts user = true
      · simp [hhas, PyDict.get_insert_ne _ _ hk]
      · simp [hhas]
    rw [hsame] at hget
    rw [if_neg hk]
    exact h name flag hget

/-- What a contact list leaves: a list it cannot read leaves all as it was, and so does
one that is not new. -/
theorem afterCall_replaceContacts (m : ChatModel) (contacts : List Json) :
    m.afterCall (.replaceContacts contacts) =
      match freshContacts contacts [] with
      | .error _ => m
      | .ok fresh =>
        if sameItems fresh m.contacts then m
        else
          ({ m with
            contacts := fresh
            roster := fresh.foldl (fun roster e => PyDict.setDefault roster e.1 e.2) m.roster } : ChatModel).emit
              [.contactsChanged] := by
  show (m.replaceContacts contacts).toOption.getD m = _
  unfold replaceContacts
  cases freshContacts contacts [] with
  | error e => rfl
  | ok fresh =>
    dsimp only
    by_cases hsame : sameItems fresh m.contacts = true
    · rw [if_pos hsame]
      show (if sameItems fresh m.contacts = true then Except.ok m else Except.ok _).toOption.getD m = _
      rw [if_pos hsame]
      rfl
    · rw [if_neg hsame]
      show (if sameItems fresh m.contacts = true then Except.ok m else Except.ok _).toOption.getD m = _
      rw [if_neg hsame]
      rfl

/-- The same for the contacts, whose flags the roster may already have. -/
theorem agrees_replaceContacts {m : ChatModel} (h : m.Agrees) (contacts : List Json) :
    (m.afterCall (.replaceContacts contacts)).Agrees ↔ m.Admits (.replaceContacts contacts) := by
  rw [afterCall_replaceContacts]
  unfold Admits
  cases hfresh : freshContacts contacts [] with
  | error e => simpa [hfresh] using h
  | ok fresh =>
    simp only [hfresh, Except.ok.injEq, forall_eq']
    cases hsame : sameItems fresh m.contacts with
    | true =>
      -- the list says nothing new, and what there is agrees
      simp only [if_true]
      refine iff_of_true h fun name online known hget hknown => ?_
      have honline : (PyDict.get m.roster name).getD false = online := h name online (get_of_sameItems hsame hget)
      rwa [hknown] at honline
    | false =>
      simp only [Bool.false_eq_true, if_false]
      unfold Agrees isOnline
      simp only [emit_toFields]
      constructor
      · intro hagrees name online known hget hknown
        have honline := hagrees name online hget
        rwa [foldl_setDefault_get, hknown] at honline
      · intro hadmits name online hget
        rw [foldl_setDefault_get, hget]
        cases hknown : PyDict.get m.roster name with
        | none => rfl
        | some known => exact hadmits name online known hget hknown

/-- **When the copies stay together, call by call.** -/
theorem agrees_afterCall {m : ChatModel} (h : m.Agrees) (call : PresenceCall) :
    (m.afterCall call).Agrees ↔ m.Admits call := by
  cases call with
  | replaceRoster users => exact agrees_replaceRoster m users
  | replaceContacts contacts => exact agrees_replaceContacts h contacts
  | setPresence user online => exact iff_of_true (agrees_setPresence h user online) trivial

/-! ## Every run -/

/-- A new model after some calls. -/
def afterCalls (calls : List PresenceCall) : ChatModel := calls.foldl afterCall {}

theorem afterCalls_concat (calls : List PresenceCall) (call : PresenceCall) :
    afterCalls (calls ++ [call]) = (afterCalls calls).afterCall call := by
  rw [afterCalls, List.foldl_append]
  rfl

/-- **The copies agree in every state of a run exactly when every call of it may say
what it says.** -/
theorem agree_throughout_iff (calls : List PresenceCall) :
    (∀ pre, pre <+: calls → (afterCalls pre).Agrees) ↔
      ∀ pre call, pre ++ [call] <+: calls → (afterCalls pre).Admits call := by
  constructor
  · intro h pre call hpre
    rw [← agrees_afterCall (h pre ((List.prefix_append _ _).trans hpre)), ← afterCalls_concat]
    exact h _ hpre
  · intro h pre hpre
    -- along the run: each call finds the copies together
    induction pre using List.reverseRecOn with
    | nil =>
      intro name online hget
      cases hget
    | append_singleton pre call ih =>
      rw [afterCalls_concat, agrees_afterCall (ih ((List.prefix_append _ _).trans hpre))]
      exact h pre call hpre

end ChatModel

section Concrete

open ChatModel

attribute [local instance] sampleRuntime

/-- Somebody in the roster, whom the contact list then shows as away. -/
theorem awayContact_disagrees :
    ¬ (afterCalls [.replaceRoster ["b"],
      .replaceContacts [.dict [("user", .str "b"), ("online", .bool false)]]]).Agrees := by
  intro h
  exact absurd (h "b" false (by decide +kernel)) (by decide +kernel)

end Concrete

end Ciphertext
