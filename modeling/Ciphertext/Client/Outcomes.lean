import Ciphertext.Client.Screen
import Ciphertext.Client.Ticks

/-!
# What an input puts into the model, and what it opens

For the READ reports and for the unread counters, an input does one of two things. It
may put frames into the model, each counted where its conversation is not on screen, and
report nothing as read (`Delivers`); or it puts a conversation on screen, reports what
others have written there if anything is unread, and sets its counter to nought
(`TurnsTo`). Neither ever takes a message away: a history page would, and is not
among these inputs.

`step_outcome` says which of the two an input comes to: `opens`, read off the state before
it, is the conversation it puts on screen, if any. For a frame that takes some care,
because CONTACTS and ROOM_STATE open what was asked for earlier, after they have changed
the lists, and because a KEY frame borrows `active` while it releases what was held.
-/

namespace Ciphertext

open Act

namespace ChatModel

/-- The ids of what others have written there. -/
def theirs (m : ChatModel) (key : Str) : List Json := ((m.conversation key).messages.filter fun x => !x.mine).map Message.id

/-- How many of them have not been on screen. -/
def unread (m : ChatModel) (key : Str) : Nat := (m.conversation key).unread

/-- Nothing of others has come, and nothing has been read. -/
def Still (m m' : ChatModel) : Prop := ∀ key, m'.theirs key = m.theirs key ∧ m'.unread key = m.unread key

variable {m m' : ChatModel}

theorem Still.refl (m : ChatModel) : m.Still m := fun _ => ⟨rfl, rfl⟩

theorem Still.trans (m₁ m₂ m₃ : ChatModel) (h : m₁.Still m₂) (h' : m₂.Still m₃) : m₁.Still m₃ := fun key =>
  ⟨(h' key).1.trans (h key).1, (h' key).2.trans (h key).2⟩

/-- Where the conversations are the same, so is all of this. -/
theorem still_of_conversations (h : m'.conversations = m.conversations) : m.Still m' := by
  intro key
  unfold theirs unread conversation
  rw [h]
  exact ⟨rfl, rfl⟩

/-- A conversation is put back, and what others wrote in it is the same. -/
theorem still_set {key : Str} {c : Conversation}
    (h : (c.messages.filter fun x => !x.mine).map Message.id = m.theirs key) (hu : c.unread = m.unread key) :
    m.Still (m.setConversation key c) := by
  intro key'
  have hset := m.conversation_set key key' c
  by_cases hkey : key' = key
  · subst hkey
    rw [if_pos rfl] at hset
    unfold theirs unread
    rw [hset]
    exact ⟨h, hu⟩
  · rw [if_neg hkey] at hset
    unfold theirs unread
    rw [hset]
    exact ⟨rfl, rfl⟩

/-- A receipt changes no id. -/
theorem map_id_receive (ref state : Str) (ms : List Message) :
    ((receive ref state ms).filter fun x => !x.mine).map Message.id = (ms.filter fun x => !x.mine).map Message.id := by
  induction ms with
  | nil => rfl
  | cons m ms ih =>
    unfold receive
    split
    · rw [List.filter_cons, List.filter_cons]
      split
      · rw [List.map_cons, List.map_cons, ih]
      · exact ih
    · split
      · rfl
      · rw [List.filter_cons, List.filter_cons]
        split
        · rfl
        · rfl

/-- A message goes into its conversation and no other. -/
theorem conversation_addMessage (m : ChatModel) (key key' : Str) (message : Message) :
    (m.addMessage key message).1.conversation key' =
      if key' = key then (m.conversation key).add message (m.active = some key) else m.conversation key' := by
  show (PyDict.get (m.addMessage key message).1.conversations key').getD {} = _
  rw [addMessage_conversations]
  exact conversation_set m key key' _

/-- One's own message is not counted. -/
theorem still_addMessage (m : ChatModel) (key : Str) {message : Message} (h : message.mine = true) :
    m.Still (m.addMessage key message).1 := by
  have hset : m.Still (m.setConversation key ((m.conversation key).add message (m.active = some key))) := by
    refine still_set ?_ ?_
    · unfold Conversation.add theirs
      rw [List.filter_append, List.filter_singleton, h]
      simp
    · unfold Conversation.add unread
      simp [h]
  exact hset.trans _ _ _ (still_of_conversations (addMessage_conversations m key message))

/-- Somebody else's comes last, and is unread unless the conversation is on screen. -/
theorem theirs_addMessage (m : ChatModel) (key key' : Str) {message : Message} (h : message.mine = false) :
    (m.addMessage key message).1.theirs key' = (if key' = key then m.theirs key ++ [message.id] else m.theirs key') ∧
      (m.addMessage key message).1.unread key' =
        m.unread key' + (if key' = key ∧ m.active ≠ some key then 1 else 0) := by
  unfold theirs unread
  rw [conversation_addMessage]
  by_cases hkey : key' = key
  · subst hkey
    rw [if_pos rfl, if_pos rfl]
    unfold Conversation.add
    rw [List.filter_append, List.filter_singleton, h]
    refine ⟨List.map_append, ?_⟩
    by_cases hactive : m.active = some key'
    · simp [hactive]
    · simp [hactive]
  · rw [if_neg hkey, if_neg hkey, if_neg fun h => hkey h.1]
    exact ⟨rfl, rfl⟩

/-- Selecting a conversation takes its counter to nought, and no message out. -/
theorem theirs_select (m : ChatModel) (key key' : Str) : (m.select key).theirs key' = m.theirs key' ∧
    (m.select key).unread key' = if key' = key then 0 else m.unread key' := by
  have hset : (m.select key).conversation key' =
      if key' = key then { m.conversation key with unread := 0 } else m.conversation key' := by
    show ({ m with active := some key }.setConversation key { m.conversation key with unread := 0 }).conversation key' = _
    rw [conversation_set]
    rfl
  unfold theirs unread
  rw [hset]
  by_cases hkey : key' = key
  · rw [if_pos hkey, if_pos hkey, hkey]
    exact ⟨rfl, rfl⟩
  · rw [if_neg hkey, if_neg hkey]
    exact ⟨rfl, rfl⟩

variable [Runtime]

/-- The kinds that bring messages of others or read them. -/
def reading : List Kind := [.filing, .history, .selection]

/-- Only three kinds of changes have to do with others' messages. -/
theorem still_of_change {k : Kind} (hk : k ∉ reading) (h : Change k m m') : m.Still m' := by
  cases h with
  | filing => exact absurd (by simp [reading]) hk
  | history => exact absurd (by simp [reading]) hk
  | selection => exact absurd (by simp [reading]) hk
  | contacts h => exact still_of_conversations (replaceContacts_conversations h)
  | typing _ key user on => exact still_of_conversations (setTyping_conversations m key user on)
  | message _ key hmine => exact still_addMessage m key hmine
  | receipt _ key id state =>
    unfold setReceipt
    cases hc : PyDict.get m.conversations key with
    | none => exact .refl m
    | some c =>
      have hconversation : m.conversation key = c := by
        unfold conversation
        rw [hc]
        rfl
      have hset : m.Still (m.setConversation key { c with messages := receive id state c.messages }) := by
        refine still_set ?_ ?_
        · rw [map_id_receive, ← hconversation]
          rfl
        · rw [← hconversation]
          rfl
      exact hset.trans _ _ _ (still_of_conversations rfl)
  | members _ room names =>
    unfold setRoomMembers
    dsimp only
    split
    · exact .refl m
    · have hset : ChatModel.Still { m with rooms := PyDict.insert m.rooms room (Str.sorted names) }
          (ChatModel.setConversation { m with rooms := PyDict.insert m.rooms room (Str.sorted names) } room
            (m.conversation room)) := still_set rfl rfl
      exact Still.trans _ _ _ (still_of_conversations rfl) hset
  | _ => exact still_of_conversations rfl

/-- The kinds that change what is on screen. -/
def turning : List Kind := [.borrowing, .selection, .deselection]

/-- And only three with which conversation is on screen. -/
theorem active_of_change {k : Kind} (hk : k ∉ turning) (h : Change k m m') : m'.active = m.active := by
  cases h with
  | borrowing => exact absurd (by simp [turning]) hk
  | selection => exact absurd (by simp [turning]) hk
  | deselection => exact absurd (by simp [turning]) hk
  | contacts h => exact (stays_replaceContacts h).1
  | typing _ key user on => exact setTyping_active m key user on
  | message _ key _ => exact (stays_addMessage m key _).1
  | filing _ key _ => exact (stays_addMessage m key _).1
  | receipt _ key id state =>
    unfold setReceipt
    cases PyDict.get m.conversations key with
    | none => rfl
    | some c => rfl
  | members _ room names =>
    obtain ⟨rooms, conversations, es, hset, -⟩ := setRoomMembers_eq m room names
    rw [hset]
    rfl
  | _ => rfl

end ChatModel

namespace ChatController

/-- The messages that have been reported as read, in order. -/
def reads (c : ChatController) : List Json :=
  c.trace.filterMap fun e =>
    match e with
    | .called (.receipt _ ref state) true => if state = "READ" then some ref else none
    | _ => none

/-- The ids of the frames that went into a conversation. -/
def idsUnder (key : Str) (es : List (Str × Frame)) : List Json := (es.filter fun e => e.1 = key).map fun e => e.2.id

/-- The ids are those of the first frames and then of the others. -/
theorem idsUnder_append (key : Str) (es es' : List (Str × Frame)) :
    idsUnder key (es ++ es') = idsUnder key es ++ idsUnder key es' := by
  unfold idsUnder
  rw [List.filter_append, List.map_append]

/-! ## What an input does -/

/-- These frames have been put into the model, and nothing has been reported. -/
structure Delivers (es : List (Str × Frame)) (c c' : ChatController) : Prop where
  connection : c'.connection = c.connection
  filed : c'.filed = c.filed ++ es
  reads : c'.reads = c.reads
  theirs : ∀ key, c'.model.theirs key = c.model.theirs key ++ idsUnder key es
  unread : ∀ key, c'.model.unread key =
    c.model.unread key + if c.model.active = some key then 0 else (idsUnder key es).length

/-- The conversation has been put on screen and what was to report is reported. -/
structure TurnsTo (key : Str) (c c' : ChatController) : Prop where
  connection : c'.connection = c.connection
  filed : c'.filed = c.filed
  active : c'.model.active = some key
  reads : c'.reads = c.reads ++ if key.isRoom = true ∨ c.model.unread key = 0 then [] else c.model.theirs key
  theirs : ∀ key', c'.model.theirs key' = c.model.theirs key'
  unread : ∀ key', c'.model.unread key' = if key' = key then 0 else c.model.unread key'

variable {es es' : List (Str × Frame)} {b c c' : ChatController} {key : Str}

/-- Of a model that is still. -/
theorem delivers_of_still (hconnection : c'.connection = c.connection) (hfiled : c'.filed = c.filed) (hreads : c'.reads = c.reads)
    (hstill : c.model.Still c'.model) : Delivers [] c c' := by
  refine ⟨hconnection, hfiled.trans (List.append_nil _).symm, hreads, fun key => ?_, fun key => ?_⟩
  · exact (hstill key).1.trans (List.append_nil _).symm
  · rw [(hstill key).2]
    split
    · rfl
    · rfl

theorem Delivers.refl (c : ChatController) : Delivers [] c c := delivers_of_still rfl rfl rfl (.refl _)

/-- First the one frames and then the others, on the same screen. -/
theorem Delivers.trans (h : Delivers es c b) (hactive : b.model.active = c.model.active) (h' : Delivers es' b c') :
    Delivers (es ++ es') c c' := by
  refine ⟨h'.connection.trans h.connection, ?_, h'.reads.trans h.reads, fun key => ?_, fun key => ?_⟩
  · rw [h'.filed, h.filed, List.append_assoc]
  · rw [h'.theirs, h.theirs, idsUnder_append, List.append_assoc]
  · rw [h'.unread, h.unread, hactive, idsUnder_append, List.length_append]
    split
    · rfl
    · exact Nat.add_assoc ..

/-- No frames at all, and nothing has come. -/
theorem Delivers.still (h : Delivers [] c b) : c.model.Still b.model := by
  intro key
  refine ⟨(h.theirs key).trans (List.append_nil _), ?_⟩
  rw [h.unread key]
  split
  · rfl
  · rfl

/-- Two stretches without a message, whatever is on screen between them. -/
theorem Delivers.nothing (a b c : ChatController) (h : Delivers [] a b) (h' : Delivers [] b c) : Delivers [] a c :=
  delivers_of_still (h'.connection.trans h.connection)
    (h'.filed.trans (by rw [h.filed, List.append_nil, List.append_nil])) (h'.reads.trans h.reads)
    (h.still.trans _ _ _ h'.still)

/-- What comes before it without delivering anything does not matter. -/
theorem TurnsTo.after (h : TurnsTo key b c') (hb : Delivers [] c b) : TurnsTo key c c' := by
  have hstill := hb.still
  refine ⟨h.connection.trans hb.connection, h.filed.trans (hb.filed.trans (List.append_nil _)), h.active, ?_,
    fun key' => (h.theirs key').trans (hstill key').1, fun key' => ?_⟩
  · rw [h.reads, hb.reads, (hstill key).1, (hstill key).2]
  · rw [h.unread, (hstill key').2]

/-- `select` does that, while the connection is up. -/
theorem select_turnsTo (hup : ∀ n, (c.connection n).isSome = true) (key : Str) : TurnsTo key c (exec (select key) c).2 := by
  obtain ⟨xs, hselect, hxs, hthrough⟩ := exec_select key c
  rw [hselect]
  refine ⟨rfl, rfl, rfl, ?_, fun key' => (c.model.theirs_select key key').1, fun key' => (c.model.theirs_select key key').2⟩
  have hcalls : (callEntries xs).filterMap (fun e => match e with
      | .called (.receipt _ ref state) true => if state = "READ" then some ref else none
      | _ => none) = (c.reported key).map Message.id := by
    have hms : ∀ (ms : List Message) (xs : List (Call × Bool)), xs.map Prod.fst = (ms.map fun m => .receipt m.sender m.id "READ") →
        (∀ x ∈ xs, x.2 = true) → (callEntries xs).filterMap (fun e => match e with
          | .called (.receipt _ ref state) true => if state = "READ" then some ref else none
          | _ => none) = ms.map Message.id := by
      intro ms
      induction ms with
      | nil =>
        intro xs hxs _
        rw [List.map_eq_nil_iff.mp hxs]
        rfl
      | cons m ms ih =>
        intro xs hxs hall
        cases xs with
        | nil => cases hxs
        | cons x xs =>
          obtain ⟨call, through⟩ := x
          rw [List.map_cons, List.map_cons, List.cons.injEq] at hxs
          obtain ⟨rfl, hxs⟩ := hxs
          obtain rfl : through = true := hall _ (List.mem_cons_self ..)
          rw [List.map_cons, ← ih xs hxs fun x hx => hall x (List.mem_cons_of_mem _ hx)]
          rfl
    exact hms _ _ hxs (hthrough hup)
  show (c.trace ++ callEntries xs).filterMap _ = _
  rw [List.filterMap_append, hcalls]
  refine congrArg (c.reads ++ ·) ?_
  unfold reported ChatModel.theirs ChatModel.unread
  by_cases hroom : key.isRoom = true
  · rw [if_pos hroom, if_pos (.inl hroom)]
    rfl
  · rw [if_neg hroom]
    by_cases hread : (c.model.conversation key).unread = 0
    · rw [if_pos (.inr hread), hread]
      simp
    · rw [if_neg (by simp [hroom, hread])]
      simp [hread]

variable [Runtime] [Crypto] {kinds : List Kind} {pairs : List (Str × Str)}

omit [Runtime] [Crypto] in
/-- A call that is no READ receipt reports nothing as read. -/
theorem reads_afterCall (c : ChatController) {x : Call} (hx : x.isRead = false) : (c.afterCall x).reads = c.reads := by
  show (c.trace ++ [_]).filterMap _ = _
  rw [List.filterMap_append]
  refine (congrArg (c.reads ++ ·) ?_).trans (List.append_nil _)
  rw [List.filterMap_cons_none, List.filterMap_nil]
  cases x with
  | receipt target ref state =>
    have hstate : state ≠ "READ" := by simpa [Call.isRead] using hx
    cases (c.connection c.trace.length).isSome with
    | true => exact if_neg hstate
    | false => rfl
  | _ => rfl

/-- Code that brings no message of others and reads none. -/
theorem Walk.delivers_nothing (h : Walk kinds pairs c c') (hkinds : ∀ k ∈ ChatModel.reading, k ∉ kinds) : Delivers [] c c' := by
  refine h.lift Delivers.refl Delivers.nothing fun c c' h => ?_
  cases h with
  | @model _ kind m hk _ hchange =>
    exact delivers_of_still rfl rfl rfl (ChatModel.still_of_change (fun hread => hkinds kind hread hk) hchange)
  | selected hk => exact absurd hk (hkinds _ (by simp [ChatModel.reading]))
  | filed hk => exact absurd hk (hkinds _ (by simp [ChatModel.reading]))
  | called c hx => exact delivers_of_still rfl rfl (reads_afterCall c hx) (.refl _)
  | _ => exact delivers_of_still rfl rfl rfl (.refl _)

omit [Crypto] in
/-- Code that leaves on screen what is on screen. -/
theorem Moved.active (h : Moved kinds c c') (hkinds : ∀ k ∈ ChatModel.turning, k ∉ kinds) : c'.model.active = c.model.active :=
  h.lift (R := fun m m' => m'.active = m.active) (fun _ => rfl) (fun _ _ _ h h' => h'.trans h)
    fun _ hk _ _ hchange => ChatModel.active_of_change (fun hturn => hkinds _ hturn hk) hchange

/-- Messages may have been put into the model, and on screen is what was. -/
def Files (c c' : ChatController) : Prop := c'.model.active = c.model.active ∧ ∃ es, Delivers es c c'

omit [Runtime] [Crypto] in
theorem Files.refl (c : ChatController) : Files c c := ⟨rfl, [], .refl c⟩

omit [Runtime] [Crypto] in
theorem Files.trans (a b c : ChatController) (h : Files a b) (h' : Files b c) : Files a c := by
  obtain ⟨hactive, es, hes⟩ := h
  obtain ⟨hactive', es', hes'⟩ := h'
  exact ⟨hactive'.trans hactive, es ++ es', hes.trans hactive hes'⟩

/-- Changes of other kinds file nothing and leave the screen where it is. -/
theorem Walk.files (h : Walk kinds pairs c c') (hread : ∀ k ∈ ChatModel.reading, k ∉ kinds)
    (hturn : ∀ k ∈ ChatModel.turning, k ∉ kinds) : Files c c' :=
  ⟨h.moved.active hturn, [], h.delivers_nothing hread⟩

/-- Filing, one frame after the other. -/
theorem Walk.files_filing (h : Walk [.filing] pairs c c') : Files c c' := by
  refine h.lift Files.refl Files.trans fun c c' h => ?_
  cases h with
  | filed hk c f key body ts =>
    rw [exec_addFrame]
    have hmine : ({ id := f.id, sender := f.sender.orElse (.str "?"), body, ts } : Message).mine = false := rfl
    refine ⟨(ChatModel.stays_addMessage _ key _).1, [(key, f)], rfl, rfl, rfl, fun key' => ?_, fun key' => ?_⟩
    · refine (ChatModel.theirs_addMessage c.model key key' hmine).1.trans ?_
      by_cases hkey : key' = key
      · subst hkey
        rw [if_pos rfl]
        simp [idsUnder]
      · have hother : key ≠ key' := fun h => hkey h.symm
        rw [if_neg hkey]
        simp [idsUnder, hother]
    · refine (ChatModel.theirs_addMessage c.model key key' hmine).2.trans ?_
      by_cases hkey : key' = key
      · subst hkey
        by_cases hactive : c.model.active = some key'
        · simp [hactive]
        · simp [hactive, idsUnder]
      · have hother : key ≠ key' := fun h => hkey h.symm
        simp [hkey, idsUnder, hother]
  | @model _ k m hk hp hchange =>
    obtain rfl := List.mem_singleton.mp hk
    cases hp
  | selected hk => simp at hk
  | called c hx => exact ⟨rfl, [], delivers_of_still rfl rfl (reads_afterCall c hx) (.refl _)⟩
  | _ => exact ⟨rfl, [], delivers_of_still rfl rfl rfl (.refl _)⟩

/-- Releasing held texts borrows `active` and gives it back. -/
theorem release_files (target : Str) : Steps Files (release target) := by
  intro c
  have hwalk : Walk [.message, .borrowing] [] c (exec (release target) c).2 := release_moves (by simp) (by simp) target c
  exact ⟨(release_lent target c).active, [], hwalk.delivers_nothing (by simp [ChatModel.reading])⟩

/-- A KEY frame files what waited. -/
theorem key_files (f : Frame) : Steps Files (ChatController.key f) := by
  have hrooms : ∀ room, Steps Files (releaseRoom room) := by
    intro room
    refine steps_get fun c => ?_
    cases c.keyring with
    | none => exact .refl c
    | some k => exact steps_ite (release_files room) (steps_pure Files.refl _) c
  have hdeliver : Steps Files (deliverAwaiting (f.get "user").pyStr) := by
    intro c
    have hwalk : Walk [.filing] [] c (exec (deliverAwaiting (f.get "user").pyStr) c).2 :=
      deliverAwaiting_moves (List.mem_singleton_self _) _ c
    exact hwalk.files_filing
  refine steps_get fun c => ?_
  cases c.keyring with
  | none => exact .refl c
  | some k =>
    dsimp only
    refine steps_ite (steps_pure Files.refl _) ?_ c
    refine Steps.bind Files.trans (steps_modify fun c => ?_) fun _ => Steps.bind Files.trans (release_files _) fun _ =>
      Steps.bind Files.trans hdeliver fun _ => steps_get fun c => steps_forM Files.refl Files.trans hrooms c
    exact ⟨rfl, [], delivers_of_still rfl rfl rfl (.refl _)⟩

/-! ## The conversation an input opens -/

/-- The model with the contacts of a CONTACTS frame, unless they raise. -/
def contactsAfter (c : ChatController) (f : Frame) : Option ChatModel :=
  match iter ((f.get "contacts").orElse (.list [])) with
  | .ok entries => (c.model.replaceContacts entries).toOption
  | .error _ => none

/-- The model with the members of a ROOM_STATE, unless they raise. -/
def membersAfter (c : ChatController) (f : Frame) (room : Str) : Option ChatModel :=
  match iter ((f.get "members").orElse (.list [])) with
  | .ok members => some (c.model.setRoomMembers room (members.map Json.pyStr))
  | .error _ => none

/-- The conversation an input puts on screen. -/
def opens (c : ChatController) : Gesture → Option Str
  | .select key => some key
  | .openConversation user =>
    let user := user.strip
    if user.isEmpty || user.isRoom || c.model.username = some user then none
    else if PyDict.has c.model.contacts user || PyDict.has c.model.roster user then some user else none
  | .frame f =>
    match f.type with
    | .contacts => c.pendingUser.filter fun user => (c.contactsAfter f).any fun m => PyDict.has m.contacts user
    | .roomState =>
      let room := (f.get "room").orElse f.target
      c.pendingRoom.bind fun p =>
        if room.truthy && p.1 = room.pyStr && (c.membersAfter f room.pyStr).any fun m =>
          (m.roomMembers room.pyStr).any fun n => some n = m.username then some room.pyStr else none
    | _ => none
  | _ => none

/-- What an input comes to: the conversation it opens is opened, or messages are put into
the model and nothing else is put on screen. -/
def Outcome (c : ChatController) (opened : Option Str) (c' : ChatController) : Prop :=
  match opened with
  | some key => TurnsTo key c c'
  | none => ∃ es, Delivers es c c' ∧ (c'.model.active = c.model.active ∨ es = [] ∧ c'.model.active = none)

omit [Runtime] [Crypto] in
/-- An input that opens nothing comes to what it files. -/
theorem Files.outcome (h : Files c c') : Outcome c none c' := by
  obtain ⟨hactive, es, hes⟩ := h
  exact ⟨es, hes, .inl hactive⟩

omit [Runtime] [Crypto] in
/-- The frame has been recorded by then. -/
theorem Outcome.after {opened : Option Str} (h : Outcome b opened c') (hb : Delivers [] c b)
    (hactive : b.model.active = c.model.active) : Outcome c opened c' := by
  cases opened with
  | some key => exact TurnsTo.after h hb
  | none =>
    obtain ⟨es, hes, hlast⟩ := h
    exact ⟨es, hb.trans hactive hes, hactive ▸ hlast⟩

/-- `open_conversation` opens what it can at once, and asks for the rest. -/
theorem openConversation_outcome (hup : ∀ n, (c.connection n).isSome = true) (user : Str) :
    Outcome c (c.opens (.openConversation user)) (c.step (.openConversation user)) := by
  have hother : ∀ {m : ClientM Unit}, Moves [] [] m → Outcome c none (exec m c).2 := fun hm =>
    (Walk.files (hm c) (fun _ _ => List.not_mem_nil) fun _ _ => List.not_mem_nil).outcome
  show Outcome c _ (exec (openConversation user) c).2
  unfold openConversation opens
  rw [exec_bind, exec_get]
  dsimp only
  generalize user.strip = user
  by_cases hempty : user.isEmpty = true
  · rw [if_pos hempty, if_pos (by simp [hempty])]
    exact hother (moves_pure ())
  · rw [if_neg hempty]
    by_cases hroom : user.isRoom = true
    · rw [if_pos hroom, if_pos (by simp [hroom])]
      exact hother (openRoom_moves user [])
    · rw [if_neg hroom]
      by_cases hme : c.model.username = some user
      · rw [if_pos hme, if_pos (by simp [hme])]
        exact hother (moves_pure ())
      · rw [if_neg hme, if_neg (by simp [hempty, hroom, hme])]
        by_cases hknown : (PyDict.has c.model.contacts user || PyDict.has c.model.roster user) = true
        · rw [if_pos hknown, if_pos hknown]
          exact select_turnsTo hup user
        · rw [if_neg hknown, if_neg hknown]
          exact hother (moves_bind (moves_modify fun c => .pendingUser c _) fun _ => call_unit_moves rfl)

omit [Runtime] [Crypto] in
/-- Recording a frame files nothing. -/
theorem receiving_delivers (c : ChatController) (f : Frame) : Delivers [] c (c.receiving f) := by
  refine delivers_of_still rfl rfl ?_ (.refl _)
  show (c.trace ++ [_]).filterMap _ = _
  rw [List.filterMap_append]
  exact List.append_nil _

omit [Crypto] in
/-- The list of a CONTACTS frame is taken, or it raises and the model stays. -/
theorem exec_replaceContacts (c : ChatController) (f : Frame) :
    match c.contactsAfter f with
    | some m => exec (replaceContacts (f.get "contacts")) (c.receiving f) = (.ok (), { c.receiving f with model := m }) ∧
        Change .contacts c.model m
    | none => ∃ e, exec (replaceContacts (f.get "contacts")) (c.receiving f) = (.error e, c.receiving f) := by
  unfold contactsAfter replaceContacts
  cases iter ((f.get "contacts").orElse (.list [])) with
  | error e => exact ⟨_, rfl⟩
  | ok entries =>
    have hexec : exec (lift (.ok entries) >>= fun entries => do
        let model ← lift ((← get).model.replaceContacts entries)
        onModel fun _ => model : ClientM Unit) (c.receiving f) =
          exec (lift (c.model.replaceContacts entries) >>= fun model => onModel fun _ => model) (c.receiving f) := rfl
    dsimp only
    rw [hexec]
    cases hm : c.model.replaceContacts entries with
    | error e =>
      show ∃ e', _
      exact ⟨_, rfl⟩
    | ok m =>
      show _ ∧ _
      exact ⟨rfl, .contacts hm⟩

omit [Crypto] [Runtime] in
/-- Where nobody was asked for, or not this contact, nothing is opened. -/
theorem exec_openPendingUser_idle {c : ChatController}
    (h : ∀ user, c.pendingUser = some user → ¬ PyDict.has c.model.contacts user = true) :
    exec openPendingUser c = (.ok (), c) := by
  unfold openPendingUser
  rw [exec_bind, exec_get]
  dsimp only
  split
  · rfl
  · next user hp =>
    rw [if_neg (h user hp)]
    rfl

omit [Crypto] [Runtime] in
/-- Where the contact was, the conversation is selected. -/
theorem exec_openPendingUser_known {c : ChatController} {user : Str} (hp : c.pendingUser = some user)
    (hknown : PyDict.has c.model.contacts user = true) :
    exec openPendingUser c = exec (select user) { c with pendingUser := none } := by
  unfold openPendingUser
  rw [exec_bind, exec_get]
  dsimp only
  rw [hp]
  dsimp only
  rw [if_pos hknown, exec_bind, exec_modify]

/-- CONTACTS open what was asked for, -/
theorem contacts_outcome (hup : ∀ n, (c.connection n).isSome = true) {f : Frame} (htype : f.type = .contacts) :
    Outcome c (c.opens (.frame f)) (c.step (.frame f)) := by
  have hopens : c.opens (.frame f) = c.pendingUser.filter fun user => (c.contactsAfter f).any fun m => PyDict.has m.contacts user := by
    unfold opens
    dsimp only
    rw [htype]
  have hexec := exec_replaceContacts c f
  rw [hopens, step_contacts c htype, exec_bind]
  cases hafter : c.contactsAfter f with
  | none =>
    rw [hafter] at hexec
    obtain ⟨e, hexec⟩ := hexec
    have hnone : (c.pendingUser.filter fun user => (none : Option ChatModel).any fun m => PyDict.has m.contacts user) = none := by
      cases c.pendingUser <;> rfl
    rw [hexec, hnone]
    exact ⟨[], receiving_delivers c f, .inl rfl⟩
  | some m =>
    rw [hafter] at hexec
    obtain ⟨hexec, hchange⟩ := hexec
    rw [hexec]
    have hdelivers : Delivers [] c { c.receiving f with model := m } :=
      .nothing _ _ _ (receiving_delivers c f)
        (delivers_of_still rfl rfl rfl (ChatModel.still_of_change (by simp [ChatModel.reading]) hchange))
    have hactive : m.active = c.model.active := ChatModel.active_of_change (by simp [ChatModel.turning]) hchange
    refine Outcome.after (b := { c.receiving f with model := m }) ?_ hdelivers hactive
    show Outcome _ _ (exec openPendingUser { c.receiving f with model := m }).2
    cases hp : c.pendingUser with
    | none =>
      rw [exec_openPendingUser_idle fun user h => by cases hp.symm.trans h]
      exact (Files.refl _).outcome
    | some user =>
      rw [Option.filter_some]
      by_cases hknown : PyDict.has m.contacts user = true
      · have hselect : exec openPendingUser { c.receiving f with model := m } =
            exec (select user) { c.receiving f with model := m, pendingUser := none } :=
          exec_openPendingUser_known hp hknown
        rw [hselect, if_pos (by simpa using hknown)]
        have hpending : Delivers [] { c.receiving f with model := m } { c.receiving f with model := m, pendingUser := none } :=
          delivers_of_still rfl rfl rfl (.refl _)
        exact (select_turnsTo (c := { c.receiving f with model := m, pendingUser := none }) hup user).after hpending
      · have hidle : ∀ user, c.pendingUser = some user → ¬ PyDict.has m.contacts user = true := by
          intro user' hp'
          obtain rfl := Option.some.inj (hp.symm.trans hp')
          exact hknown
        rw [exec_openPendingUser_idle hidle, if_neg (by simpa using hknown)]
        exact (Files.refl _).outcome

/-- and so does a ROOM_STATE. -/
theorem roomState_outcome (hup : ∀ n, (c.connection n).isSome = true) {f : Frame} (htype : f.type = .roomState) :
    Outcome c (c.opens (.frame f)) (c.step (.frame f)) := by
  have hopens : c.opens (.frame f) = c.pendingRoom.bind fun p =>
      if ((f.get "room").orElse f.target).truthy && p.1 = ((f.get "room").orElse f.target).pyStr &&
        (c.membersAfter f ((f.get "room").orElse f.target).pyStr).any fun m =>
          (m.roomMembers ((f.get "room").orElse f.target).pyStr).any fun n => some n = m.username
      then some ((f.get "room").orElse f.target).pyStr else none := by
    unfold opens
    dsimp only
    rw [htype]
  rw [hopens, step_roomState c htype]
  unfold ChatController.roomState
  dsimp only
  generalize (f.get "room").orElse f.target = room
  by_cases hroom : room.truthy = true
  · rw [if_neg (by simpa using hroom), hroom]
    -- a member list that cannot be walked raises before the model is touched
    cases hiter : iter ((f.get "members").orElse (.list [])) with
    | error e =>
      have hafter : c.membersAfter f room.pyStr = none := by
        unfold membersAfter
        rw [hiter]
      rw [hafter]
      have hnone : (c.pendingRoom.bind fun p => if (true && decide (p.1 = room.pyStr) &&
          (none : Option ChatModel).any fun m => (m.roomMembers room.pyStr).any fun n => some n = m.username) = true
          then some room.pyStr else none) = none := by
        cases c.pendingRoom with
        | none => rfl
        | some p => simp
      rw [hnone]
      exact ⟨[], receiving_delivers c f, .inl rfl⟩
    | ok members =>
      have hafter : c.membersAfter f room.pyStr = some (c.model.setRoomMembers room.pyStr (members.map Json.pyStr)) := by
        unfold membersAfter
        rw [hiter]
      rw [hafter]
      have hchange : Change .members c.model (c.model.setRoomMembers room.pyStr (members.map Json.pyStr)) := .members ..
      generalize hm : c.model.setRoomMembers room.pyStr (members.map Json.pyStr) = m at hchange
      have hdelivers : Delivers [] c { c.receiving f with model := m } :=
        .nothing _ _ _ (receiving_delivers c f)
          (delivers_of_still rfl rfl rfl (ChatModel.still_of_change (by simp [ChatModel.reading]) hchange))
      have hactive : m.active = c.model.active := ChatModel.active_of_change (by simp [ChatModel.turning]) hchange
      refine Outcome.after (b := { c.receiving f with model := m }) ?_ hdelivers hactive
      have hlift : exec (lift (.ok members)) (c.receiving f) = (.ok members, c.receiving f) := rfl
      have hmodel : exec (onModel fun m => m.setRoomMembers room.pyStr (members.map Json.pyStr)) (c.receiving f) =
          (.ok ⟨⟩, { c.receiving f with model := m }) := by
        rw [← hm]
        rfl
      rw [exec_bind, hlift]
      dsimp only
      rw [exec_bind, hmodel]
      dsimp only
      rw [exec_bind, exec_get]
      have hpending : (c.receiving f).pendingRoom = c.pendingRoom := rfl
      dsimp only
      rw [hpending]
      cases c.pendingRoom with
      | none => exact (Files.refl _).outcome
      | some p =>
        rw [Option.bind_some, Option.any_some, Bool.true_and]
        -- the room that was asked for is opened once we are on its list
        by_cases hjoined : (decide (p.1 = room.pyStr) && (m.roomMembers room.pyStr).any fun n => decide (some n = m.username)) = true
        · rw [if_pos hjoined]
          dsimp only
          rw [if_pos hjoined]
          exact (select_turnsTo (c := { c.receiving f with model := m, pendingRoom := none }) hup room.pyStr).after
            (delivers_of_still rfl rfl rfl (.refl _))
        · rw [if_neg hjoined]
          dsimp only
          rw [if_neg hjoined]
          exact (Files.refl _).outcome
  · have hnone : (c.pendingRoom.bind fun p => if (room.truthy && decide (p.1 = room.pyStr) &&
        (c.membersAfter f room.pyStr).any fun m => (m.roomMembers room.pyStr).any fun n => some n = m.username) = true
        then some room.pyStr else none) = none := by
      cases c.pendingRoom with
      | none => rfl
      | some p => simp [hroom]
    rw [hnone, if_pos (by simpa using hroom)]
    exact ⟨[], receiving_delivers c f, .inl rfl⟩

/-- No other frame opens anything. -/
theorem frame_outcome (hup : ∀ n, (c.connection n).isSome = true) {f : Frame} (hno : f.type ≠ .historyResult) :
    Outcome c (c.opens (.frame f)) (c.step (.frame f)) := by
  by_cases hcontacts : f.type = .contacts
  · exact contacts_outcome hup hcontacts
  by_cases hroom : f.type = .roomState
  · exact roomState_outcome hup hroom
  have hopens : c.opens (.frame f) = none := by
    unfold opens
    dsimp only
    split
    · next h => exact absurd h hcontacts
    · next h => exact absurd h hroom
    · rfl
  have hfiles : Files (c.receiving f) (c.step (.frame f)) := by
    have hwalk := onFrame_walk c f
    by_cases hmsg : f.type = .msg
    · rw [hmsg] at hwalk
      exact hwalk.files_filing
    · by_cases hkey : f.type = .key
      · rw [step_key c hkey]
        exact key_files f _
      · refine hwalk.files ?_ ?_
        · revert hno hcontacts hroom hmsg hkey
          generalize f.type = t
          cases t <;> simp [frameKinds, ChatModel.reading]
        · revert hcontacts hroom hkey
          generalize f.type = t
          cases t <;> simp [frameKinds, ChatModel.turning]
  rw [hopens]
  exact hfiles.outcome.after (receiving_delivers c f) rfl

/-- **What one input comes to**, while the connection is up and no history is loaded. -/
theorem step_outcome (hup : ∀ n, (c.connection n).isSome = true) (g : Gesture)
    (hno : ∀ f, g = .frame f → f.type ≠ .historyResult) : Outcome c (c.opens g) (c.step g) := by
  have hother : ∀ g : Gesture, (∀ f, g ≠ .frame f) → (∀ k ∈ ChatModel.reading, k ∉ g.mayChange) →
      (∀ k ∈ ChatModel.turning, k ∉ g.mayChange) → Outcome c none (c.step g) := fun g hframe hread hturn =>
    (Walk.files (handle_moves hframe c) hread hturn).outcome
  cases g with
  | frame f => exact frame_outcome hup (hno f rfl)
  | select key => exact select_turnsTo hup key
  | openConversation user => exact openConversation_outcome hup user
  | selectNone => exact ⟨[], delivers_of_still rfl rfl rfl (ChatModel.still_of_conversations rfl), .inr ⟨rfl, rfl⟩⟩
  | _ =>
    refine hother _ ?_ (by simp [Gesture.mayChange, ChatModel.reading]) (by simp [Gesture.mayChange, ChatModel.turning])
    intro f h
    cases h

end ChatController

end Ciphertext
