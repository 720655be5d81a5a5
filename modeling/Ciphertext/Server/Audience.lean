import Ciphertext.Prog.Warrants
import Ciphertext.Server.Accounting

/-!
# Who is sent what

A handler mostly answers its own connection. What it sends to others is a MSG or
a typing hint, a room's new member list, a receipt, a changed contact list, or
presence, and each of these has its audience: `Addressed` says of every kind whom
it may go to, and what the handler must have asked the registries first.
`Interleaving.audience` is that nothing else is ever sent to anybody, whatever
handlers run in between, and that whoever is sent something had logged in under
the name in question, with a password that was checked.

What a LOGIN hands over from the queue goes to the connection that logs in; it is
the business of `Server/Addressee.lean`.
-/

namespace Ciphertext

open Prog MessageRouter

/-! ## Audiences -/

/-- The frame `g`, sent on account of `f` from connection `s`, is for whoever is
logged in under this name. -/
inductive Addressed (s : Sid) (f : Frame) (es : List (Event routerSig)) (g : Frame) : Json → Prop
  /-- to a person -/
  | direct {me : Json} {target : Str} (hme : (⟨.getUsername s, some me⟩ : Event routerSig) ∈ es)
      (hf : f.type = .msg ∨ f.type = .typing) (hg : g.type = f.type) (hs : g.sender = me)
      (ht : f.target = .str target) (hroom : target.startsWith roomPrefix = false) :
      Addressed s f es g (.str target)
  /-- to the other members of a room, by one of them -/
  | member {me : Json} {room name : Str} {members : List Str}
      (hme : (⟨.getUsername s, some me⟩ : Event routerSig) ∈ es)
      (hf : f.type = .msg ∨ f.type = .typing) (hg : g.type = f.type) (hs : g.sender = me)
      (ht : f.target = .str room) (hmembers : (⟨.roomsMembers room, members⟩ : Event routerSig) ∈ es)
      (hin : (members.map Json.str).contains me = true) (hname : name ∈ members) (hne : me ≠ .str name) :
      Addressed s f es g (.str name)
  /-- a room's member list, to each of them -/
  | state {room name : Str} {members : List Str} (hg : g.type = .roomState) (hs : g.sender = .null)
      (ht : g.target = .str room)
      (hmembers : (⟨.roomsMembers room, members⟩ : Event routerSig) ∈ es) (hname : name ∈ members) :
      Addressed s f es g (.str name)
  /-- a receipt, to the sender of the message -/
  | receipt {me : Json} {id state sender : Str} {now : Int}
      (hme : (⟨.getUsername s, some me⟩ : Event routerSig) ∈ es) (hf : f.type = .receipt)
      (hg : g.type = .receipt) (hs : g.sender = me)
      (hmark : (⟨.messagesMark id state now, some sender⟩ : Event routerSig) ∈ es) :
      Addressed s f es g (.str sender)
  /-- a contact list, to one of the two who have just talked -/
  | contacts {me : Json} {target : Str} {owner : Json}
      (hme : (⟨.getUsername s, some me⟩ : Event routerSig) ∈ es) (hf : f.type = .msg)
      (hg : g.type = .contacts) (hs : g.sender = .null) (ht : f.target = .str target)
      (ho : owner = orEmpty me ∨ owner = .str target) :
      Addressed s f es g owner

/-- What lets a handler send `g` to a connection other than its own. -/
inductive Concerned (s : Sid) (f : Frame) (es : List (Event routerSig)) (t : Sid) (g : Frame) : Prop
  | found {name : Json} (h : (⟨.sessionsGet name, some t⟩ : Event routerSig) ∈ es)
      (haddressed : Addressed s f es g name) : Concerned s f es t g
  /-- presence goes to everybody -/
  | present {u : Json} {others : List Sid} (hg : g.type = .presence) (hs : g.sender = .null)
      (h : (⟨.sessionsOthers u, others⟩ : Event routerSig) ∈ es) (ht : t ∈ others) : Concerned s f es t g

/-- What a handler may do once it knows `es`. -/
def Input.Warrants : Input → List (Event routerSig) → Op → Prop
  | .frame s f, es, .send t g => t = s ∨ Concerned s f es t g
  | .frame s f, es, .sessionsLogin u t => t = s ∧ f.type = .login ∧ u = f.get "user" ∧
      (⟨.usersVerify u (f.get "pass_hash"), true⟩ : Event routerSig) ∈ es
  | .hangup _, es, .send t g => g.type = .presence ∧ g.sender = .null ∧
      ∃ u others, (⟨.sessionsOthers u, others⟩ : Event routerSig) ∈ es ∧ t ∈ others
  | .hangup _, _, .sessionsLogin _ _ => False
  | _, _, _ => True

variable {s t : Sid} {f g : Frame} {es : List (Event routerSig)}

/-! ## The handlers -/

section Handlers

/-- The warrant of a frame's handler. -/
abbrev warrants (s : Sid) (f : Frame) : List (Event routerSig) → Op → Prop := (Input.frame s f).Warrants

/-- Calls that send nothing and claim nothing. -/
def Op.inward : Op → Bool
  | .send _ _ => false
  | .sessionsLogin _ _ => false
  | _ => true

/-- A call that sends nothing needs no warrant. -/
theorem warrants_of_inward {i : Input} {o : Op} (h : o.inward = true) : i.Warrants es o := by
  cases i <;> cases o <;> trivial

/-- Reading sends nothing. -/
theorem inward_of_quiet {o : Op} (h : o.quiet = true) : o.inward = true := by
  cases o <;> first | rfl | cases h

/-- A handler, or a part of one, that answers its own connection only. -/
theorem warranted_of_uses {α : Type} {F : Footprint} {p : RouterM α} (hp : p.Uses F.allows)
    (hs : ∀ t g, F.sends t g → t = s) (hw : ∀ o, F.writes o → o.inward = true) :
    p.Warranted (warrants s f) es := by
  refine hp.warranted fun es o ho => ?_
  rcases ho with hq | hwrite | ⟨t, g, rfl, hsend⟩
  · exact warrants_of_inward (inward_of_quiet hq)
  · exact warrants_of_inward (hw o hwrite)
  · exact .inl (hs t g hsend)

/-- The same without writes. -/
theorem warranted_of_answers {α : Type} (types : List MessageType) {p : RouterM α}
    (hp : p.Uses (Footprint.allows { sends := answers s types })) : p.Warranted (warrants s f) es :=
  warranted_of_uses hp (fun _ _ h => h.1) fun _ h => h.elim

/-- A refusal goes to the session itself. -/
theorem warranted_refuse (code message : Str) : (refuse s code message).Warranted (warrants s f) es :=
  warranted_of_answers [.error] (Footprint.refuse fun _ h => ⟨rfl, by simp [h]⟩)

/-- A frame is built without sending anything. -/
theorem warranted_frame {α : Type} {type : MessageType} {sender target : Json} {data : Dict} {k : Frame → RouterM α}
    (h : ∀ id ts es', es ⊆ es' →
      (k { type, sender, target, data, id := .str id, ts }).Warranted (warrants s f) es') :
    (frame type sender target data >>= k).Warranted (warrants s f) es := by
  refine warranted_call_bind (S := routerSig) (o := Op.newId) trivial fun id => ?_
  refine warranted_call_bind (S := routerSig) (o := Op.nowMs) trivial fun ts => ?_
  exact h id ts _ (List.Subset.trans (List.subset_append_left _ _) (List.subset_append_left _ _))

/-- One call of the others, and what it answered is known. -/
theorem warranted_inward {α : Type} {o : Op} {k : Op.Ret o → RouterM α} (ho : o.inward = true)
    (h : ∀ r es', es ⊆ es' → (⟨o, r⟩ : Event routerSig) ∈ es' → (k r).Warranted (warrants s f) es') :
    ((Prog.call (S := routerSig) o .pure : RouterM (Op.Ret o)) >>= k).Warranted (warrants s f) es :=
  warranted_call_bind (warrants_of_inward ho) fun r => h r _ (List.subset_append_left _ _) (by simp)

/-- A frame may go to the session itself, or to whom it concerns. -/
theorem warranted_send {g : Frame} (h : t = s ∨ Concerned s f es t g) :
    (MessageRouter.send t g).Warranted (warrants s f) es := ⟨h, fun _ => trivial⟩

/-! ### Presence and contacts -/

/-- Presence concerns everybody who is logged in. -/
theorem announce_warranted (username : Json) (state : Str) :
    (announce username state).Warranted (warrants s f) es := by
  refine warranted_frame fun id ts es₁ _ => warranted_inward rfl fun others es₂ _ hothers => ?_
  refine warranted_forEach fun t ht es₃ h₃ => warranted_send ?_
  exact .inr (.present rfl rfl (h₃ hothers) ht)

/-- Listing the contacts sends nothing. -/
theorem contactStates_warranted (cfg : Config) (username : Json) :
    (contactStates cfg username).Warranted (warrants s f) es :=
  warranted_of_answers [] (contactStates_uses cfg username)

/-- The list goes to its owner, -/
theorem sendContacts_warranted (cfg : Config)
    (h : t = s ∨ ∀ g es', es ⊆ es' → g.type = .contacts → g.sender = .null → Concerned s f es' t g) :
    (sendContacts cfg t).Warranted (warrants s f) es := by
  refine warranted_inward rfl fun _ es₁ h₁ _ => warranted_inward rfl fun _ es₂ h₂ _ => ?_
  refine (contactStates_warranted cfg _).bind fun _ es₃ h₃ => ?_
  refine warranted_frame fun id ts es₄ h₄ => warranted_send ?_
  exact h.imp_right fun hc => hc _ _ (fun _ he => h₄ (h₃ (h₂ (h₁ he)))) rfl rfl

/-- also when it has just grown by the other's message. -/
theorem noteContact_warranted (cfg : Config) {owner other : Json}
    (h : ∀ g es', es ⊆ es' → g.type = .contacts → g.sender = .null → Addressed s f es' g owner) :
    (noteContact cfg owner other).Warranted (warrants s f) es := by
  unfold noteContact
  split
  · trivial
  · split
    · split
      · trivial
      · refine warranted_inward rfl fun added es₁ h₁ _ => ?_
        split
        · trivial
        · refine warranted_inward rfl fun theirs es₂ h₂ hfound => ?_
          cases theirs with
          | none => trivial
          | some theirs =>
            refine sendContacts_warranted cfg (.inr fun g es₃ h₃ hg hs => ?_)
            exact .found (h₃ hfound) (h g es₃ (fun _ he => h₃ (h₂ (h₁ he))) hg hs)
    · trivial

/-! ### Rooms -/

/-- A room's state goes to the members that were read. -/
theorem broadcastRoomState_warranted (room : Str) :
    (broadcastRoomState room).Warranted (warrants s f) es := by
  unfold broadcastRoomState roomState
  refine warranted_inward rfl fun members es₁ _ _ => warranted_frame fun id ts es₂ _ => ?_
  refine warranted_inward rfl fun names es₃ _ hnames => ?_
  refine warranted_forEach fun name hname es₄ h₄ => ?_
  refine warranted_inward rfl fun member es₅ h₅ hfound => ?_
  cases member with
  | none => trivial
  | some member =>
    refine warranted_send (.inr (.found hfound ?_))
    exact .state rfl rfl rfl (h₅ (h₄ hnames)) ((List.mem_insertionSort _).mp hname)

/-- The room handlers go on with a room only if there is one to go on with. -/
theorem roomName_warranted {α : Type} {k : Option Str → RouterM α} (hn : ∀ es, (k none).Warranted (warrants s f) es)
    (hk : ∀ room es', es ⊆ es' → (k (some room)).Warranted (warrants s f) es') :
    (roomName s f >>= k).Warranted (warrants s f) es := by
  unfold roomName
  split
  · rw [bind_assoc']
    exact (warranted_refuse _ _).bind fun _ es' _ => hn es'
  next room _ => exact hk room es fun _ h => h

variable [Runtime]

/-- Adding members sends nothing. -/
theorem addMembers_warranted (room : Str) (members : Json) :
    (addMembers room members).Warranted (warrants s f) es := by
  have huses : (addMembers room members).Uses (Footprint.allows ⟨fun _ _ => False, fun o => o.inward = true⟩) :=
    addMembers_uses room members fun _ => rfl
  exact warranted_of_uses huses (fun _ _ h => h.elim) fun _ h => h

/-- CREATE_ROOM. -/
theorem createRoom_warranted (me : Json) : (createRoom s me f).Warranted (warrants s f) es := by
  refine roomName_warranted (fun _ => trivial) fun room es₁ _ => ?_
  refine warranted_inward rfl fun created es₂ _ _ => ?_
  split
  · exact warranted_refuse _ _
  · refine warranted_inward rfl fun _ es₃ _ _ => ?_
    exact (addMembers_warranted room _).bind fun _ es₄ _ => broadcastRoomState_warranted room

/-- INVITE. -/
theorem invite_warranted (me : Json) : (invite s me f).Warranted (warrants s f) es := by
  refine roomName_warranted (fun _ => trivial) fun room es₁ _ => ?_
  refine warranted_inward rfl fun known es₂ _ _ => ?_
  split
  · exact warranted_refuse _ _
  · refine warranted_inward rfl fun members es₃ _ _ => ?_
    split
    · exact warranted_refuse _ _
    · refine (addMembers_warranted room _).bind fun added es₄ _ => ?_
      refine Warranted.bind (warranted_of_answers [] (missingNames_uses room added _)) fun missing es₅ _ => ?_
      refine Warranted.bind (warranted_of_answers [.error] (reportMissing_uses s missing fun _ h => ⟨rfl, by simp [h]⟩)) fun _ es₆ _ => ?_
      split
      · exact broadcastRoomState_warranted room
      · trivial

omit [Runtime] in
/-- JOIN_ROOM. -/
theorem join_warranted (me : Json) : (join s me f).Warranted (warrants s f) es := by
  refine roomName_warranted (fun _ => trivial) fun room es₁ _ => ?_
  refine warranted_inward rfl fun known es₂ _ _ => ?_
  split
  · exact warranted_refuse _ _
  · refine warranted_inward rfl fun _ es₃ _ _ => ?_
    exact broadcastRoomState_warranted room

omit [Runtime] in
/-- LEAVE_ROOM. -/
theorem leave_warranted (me : Json) : (leave s me f).Warranted (warrants s f) es := by
  refine roomName_warranted (fun _ => trivial) fun room es₁ _ => ?_
  refine warranted_inward rfl fun members es₂ _ _ => ?_
  split
  · exact warranted_refuse _ _
  · refine warranted_inward rfl fun _ es₃ _ _ => ?_
    refine (broadcastRoomState_warranted room).bind fun _ es₄ _ => ?_
    unfold roomState
    rw [bind_assoc']
    refine warranted_inward rfl fun members es₅ _ _ => warranted_frame fun id ts es₆ _ => ?_
    exact warranted_send (.inl rfl)

/-! ### Delivery -/

variable {me : Json}

omit [Runtime] in
/-- Recording sends nothing. -/
theorem record_warranted (cfg : Config) (g : Frame) (conversation recipient : Str) :
    (record cfg g conversation recipient).Warranted (warrants s f) es := by
  unfold record
  split
  · trivial
  · exact ⟨trivial, fun _ => trivial⟩

omit [Runtime] in
/-- Delivery to whom a lookup found, or to the queue. -/
theorem handOver_warranted {recipient : Option Sid} {name : Str} (h : ∀ r, recipient = some r → Concerned s f es r g) :
    (handOver recipient name g).Warranted (warrants s f) es := by
  cases recipient with
  | none => exact ⟨trivial, fun _ => trivial⟩
  | some r => exact warranted_send (.inr (h r rfl))

omit [Runtime] in
/-- A direct message goes to its target. -/
theorem toUser_warranted (cfg : Config) {target : Str} (hme : (⟨.getUsername s, some me⟩ : Event routerSig) ∈ es)
    (hf : f.type = .msg) (ht : f.target = .str target) (hroom : target.startsWith roomPrefix = false) :
    (toUser cfg s me target (outgoing me f)).Warranted (warrants s f) es := by
  unfold toUser
  refine warranted_inward rfl fun recipient es₁ h₁ hfound => ?_
  have hreach : (reachable cfg recipient target).Warranted (warrants s f) es₁ := by
    unfold reachable
    split
    · trivial
    · split
      · trivial
      · exact ⟨trivial, fun _ => trivial⟩
  refine hreach.bind fun ok es₂ h₂ => ?_
  split
  · exact (warranted_refuse _ _).bind fun _ _ _ => trivial
  · refine Warranted.bind (warranted_of_answers [] Footprint.lift) fun conversation es₃ h₃ => ?_
    refine (record_warranted cfg _ _ _).bind fun _ es₄ h₄ => ?_
    have hknown : ∀ {es'}, es₄ ⊆ es' → (⟨.getUsername s, some me⟩ : Event routerSig) ∈ es' := fun h =>
      h (h₄ (h₃ (h₂ (h₁ hme))))
    refine (noteContact_warranted cfg fun g es' h hg hs => ?_).bind fun _ es₅ h₅ => ?_
    · exact .contacts (hknown h) hf hg hs ht (.inl rfl)
    refine (noteContact_warranted cfg fun g es' h hg hs => ?_).bind fun _ es₆ h₆ => ?_
    · exact .contacts (hknown fun _ he => h (h₅ he)) hf hg hs ht (.inr rfl)
    refine (handOver_warranted fun r hr => ?_).bind fun _ _ _ => trivial
    subst hr
    refine .found (h₆ (h₅ (h₄ (h₃ (h₂ hfound))))) ?_
    exact .direct (hknown fun _ he => h₆ (h₅ he)) (.inl hf) hf.symm rfl ht hroom

/-- A room message goes to a member, from a member, -/
theorem deliverTo_warranted (cfg : Config) {room name : Str} {members : List Str} {env : Option Dict}
    (hme : (⟨.getUsername s, some me⟩ : Event routerSig) ∈ es) (hf : f.type = .msg) (ht : f.target = .str room)
    (hmembers : (⟨.roomsMembers room, members⟩ : Event routerSig) ∈ es)
    (hin : (members.map Json.str).contains me = true) (hname : name ∈ members) :
    (deliverTo cfg me (outgoing me f) env name).Warranted (warrants s f) es := by
  unfold deliverTo
  split
  · trivial
  next hne =>
    refine warranted_inward rfl fun member es₁ h₁ hfound => ?_
    split
    · trivial
    next addressed ha =>
      split
      · trivial
      · refine handOver_warranted fun r hr => ?_
        subst hr
        have hrel := addressedTo_relayed ha
        refine .found hfound ?_
        exact .member (h₁ hme) (.inl hf) (hrel.type.trans hf.symm) hrel.sender ht (h₁ hmembers) hin hname hne

/-- and so to each of them. -/
theorem toRoom_warranted (cfg : Config) {room : Str} {env : Option Dict}
    (hme : (⟨.getUsername s, some me⟩ : Event routerSig) ∈ es) (hf : f.type = .msg) (ht : f.target = .str room) :
    (toRoom cfg s me room (outgoing me f) env).Warranted (warrants s f) es := by
  unfold toRoom
  refine warranted_inward rfl fun known es₁ h₁ _ => ?_
  split
  · exact (warranted_refuse _ _).bind fun _ _ _ => trivial
  · refine warranted_inward rfl fun members es₂ h₂ hmembers => ?_
    split
    · exact (warranted_refuse _ _).bind fun _ _ _ => trivial
    next hin =>
      have hrecord : (recordRoom cfg (outgoing me f) room env).Warranted (warrants s f) es₂ := by
        unfold recordRoom recordEnvelopes
        split
        · split
          · trivial
          · exact ⟨trivial, fun _ => trivial⟩
        · exact record_warranted cfg _ _ _
      refine hrecord.bind fun _ es₃ h₃ => Warranted.bind ?_ fun _ _ _ => trivial
      refine warranted_forEach fun name hname es₄ h₄ => ?_
      refine deliverTo_warranted cfg (h₄ (h₃ (h₂ (h₁ hme)))) hf ht (h₄ (h₃ hmembers)) (by simpa using hin) ?_
      exact (List.mem_insertionSort _).mp hname

/-- MSG, of either kind. -/
theorem message_warranted (cfg : Config) (hme : (⟨.getUsername s, some me⟩ : Event routerSig) ∈ es)
    (hf : f.type = .msg) : (message cfg s me f).Warranted (warrants s f) es := by
  unfold message
  split
  · exact warranted_refuse _ _
  · split
    next target ht =>
      have hdeliver : (deliver cfg s me target f).Warranted (warrants s f) es := by
        unfold deliver
        split
        · exact toRoom_warranted cfg hme hf ht
        next hroom => exact toUser_warranted cfg hme hf ht (by simpa using hroom)
      refine hdeliver.bind fun ok es₁ _ => ?_
      split
      · exact warranted_frame fun id ts es₂ _ => warranted_send (.inl rfl)
      · trivial
    next => trivial

/-! ### Receipts and typing -/

/-- A receipt goes to the sender that `mark` answered. -/
theorem receipt_warranted (cfg : Config) (hme : (⟨.getUsername s, some me⟩ : Event routerSig) ∈ es)
    (hf : f.type = .receipt) : (receipt cfg s me f).Warranted (warrants s f) es := by
  unfold receipt
  dsimp only
  split
  · trivial
  · split
    · exact warranted_refuse _ _
    · refine warranted_inward rfl fun now es₁ h₁ _ => warranted_inward rfl fun sender es₂ h₂ hmark => ?_
      cases sender with
      | none => trivial
      | some sender =>
        dsimp only
        split
        · trivial
        · refine warranted_inward rfl fun recipient es₃ h₃ hfound => ?_
          cases recipient with
          | none => trivial
          | some recipient =>
            refine warranted_frame fun id ts es₄ h₄ => warranted_send (.inr (.found (h₄ hfound) ?_))
            exact .receipt (h₄ (h₃ (h₂ (h₁ hme)))) hf rfl rfl (h₄ (h₃ hmark))

omit [Runtime] in
/-- Whoever a typing hint goes to is one it is for. -/
theorem typingTo_bind {target : Str} {k : List Str → RouterM Unit}
    (hme : (⟨.getUsername s, some me⟩ : Event routerSig) ∈ es) (hf : f.type = .typing) (ht : f.target = .str target)
    (hk : ∀ names es', es ⊆ es' → (∀ name ∈ names, ∀ g es'', es' ⊆ es'' → g.type = .typing → g.sender = me →
      Addressed s f es'' g (.str name)) → (k names).Warranted (warrants s f) es') :
    (typingTo me target >>= k).Warranted (warrants s f) es := by
  unfold typingTo
  split
  · rw [bind_assoc']
    refine warranted_inward rfl fun members es₁ h₁ hmembers => ?_
    split
    · exact hk [] es₁ h₁ fun _ h => by cases h
    next hin =>
      refine hk _ es₁ h₁ fun name hname g es₂ h₂ hg hs => ?_
      obtain ⟨hmem, hne⟩ := List.mem_filter.mp hname
      refine .member (h₂ (h₁ hme)) (.inr hf) (hg.trans hf.symm) hs ht (h₂ hmembers) (by simpa using hin) ?_ ?_
      · exact (List.mem_insertionSort _).mp hmem
      · simpa using hne
  next hroom =>
    refine hk [target] es (fun _ h => h) fun name hname g es₂ h₂ hg hs => ?_
    obtain rfl := List.mem_singleton.mp hname
    exact .direct (h₂ hme) (.inr hf) (hg.trans hf.symm) hs ht (by simpa using hroom)

omit [Runtime] in
/-- TYPING goes to the target, or to the room's other members. -/
theorem typing_warranted (hme : (⟨.getUsername s, some me⟩ : Event routerSig) ∈ es) (hf : f.type = .typing) :
    (typing me f).Warranted (warrants s f) es := by
  unfold typing
  split
  · trivial
  · refine warranted_frame fun id ts es₁ h₁ => ?_
    split
    next target ht =>
      refine typingTo_bind (h₁ hme) hf ht fun names es₂ _ hall => ?_
      refine warranted_forEach fun name hname es₃ h₃ => warranted_inward rfl fun recipient es₄ h₄ hfound => ?_
      cases recipient with
      | none => trivial
      | some recipient =>
        exact warranted_send (.inr (.found hfound (hall name hname _ _ (fun _ he => h₄ (h₃ he)) rfl rfl)))
    next => trivial

/-! ### Logging in, and all handlers at once -/

/-- What waited goes to the session that logs in, -/
theorem flushPending_warranted (cfg : Config) (username : Json) :
    (flushPending cfg s username).Warranted (warrants s f) es := by
  have huses : (flushPending cfg s username).Uses
      (Footprint.allows ⟨fun t _ => t = s, fun o => o.inward = true⟩) :=
    flushPending_uses cfg s username (fun _ _ => rfl) rfl
  exact warranted_of_uses huses (fun _ _ h => h) fun _ h => h

/-- with all else that greets it. -/
theorem welcome_warranted (cfg : Config) (username : Json) :
    (welcome cfg s username).Warranted (warrants s f) es := by
  refine warranted_inward rfl fun _ es₁ _ _ => ?_
  have hgreet : (greet cfg s username).Warranted (warrants s f) es₁ :=
    warranted_of_answers [.loginOk] (greet_uses cfg s username fun _ h => ⟨rfl, by simp [h]⟩)
  exact hgreet.bind fun _ es₂ _ => (announce_warranted username _).bind fun _ es₃ _ => flushPending_warranted cfg username

/-- LOGIN. -/
theorem login_warranted (cfg : Config) (hf : f.type = .login) : (login cfg s f).Warranted (warrants s f) es := by
  unfold login
  refine warranted_inward rfl fun current es₁ _ _ => ?_
  cases current with
  | some _ => exact warranted_refuse _ _
  | none =>
    dsimp only
    split
    · exact warranted_refuse _ _
    · refine warranted_inward rfl fun verified es₂ _ hverified => ?_
      cases verified with
      | false => exact warranted_refuse _ _
      | true =>
        refine warranted_call_bind (S := routerSig) ⟨rfl, hf, rfl, hverified⟩ fun claimed => ?_
        split
        · exact warranted_refuse _ _
        · exact welcome_warranted cfg _

/-- Every handler. -/
theorem dispatch_warranted (cfg : Config) (hme : (⟨.getUsername s, some me⟩ : Event routerSig) ∈ es) :
    (dispatch cfg s me f).Warranted (warrants s f) es := by
  unfold dispatch
  split
  next h => exact message_warranted cfg hme h
  next => exact createRoom_warranted me
  next => exact join_warranted me
  next => exact leave_warranted me
  next => exact invite_warranted me
  next =>
    refine warranted_of_uses (addContact_uses cfg s me f) (fun _ _ h => h.1) fun o ho => ?_
    obtain ⟨_, _, rfl⟩ := ho
    rfl
  next =>
    refine warranted_of_uses (removeContact_uses cfg s me f) (fun _ _ h => h.1) fun o ho => ?_
    obtain ⟨_, _, rfl⟩ := ho
    rfl
  next h => exact typing_warranted hme h
  next h => exact receipt_warranted cfg hme h
  next => exact warranted_of_answers _ (history_uses cfg s me f)
  next => exact warranted_of_answers _ (getKey_uses s f)
  next => exact warranted_refuse _ _

/-- Every frame, with nothing known at its start. -/
theorem handle_warranted (cfg : Config) (s : Sid) (f : Frame) : (handle cfg s f).Warranted (warrants s f) [] := by
  unfold handle
  split
  next => exact warranted_frame fun id ts es₁ _ => warranted_send (.inl rfl)
  next =>
    refine warranted_of_uses (register_uses s f) (fun _ _ h => h.1) fun o ho => ?_
    obtain ⟨_, _, _, rfl⟩ := ho
    rfl
  next h => exact login_warranted cfg h
  next =>
    refine warranted_inward rfl fun me es₁ _ hme => ?_
    cases me with
    | none => exact warranted_refuse _ _
    | some me => exact dispatch_warranted cfg hme

omit [Runtime] in
/-- A hangup only announces. -/
theorem onDisconnect_warranted (s : Sid) : (onDisconnect s).Warranted (Input.hangup s).Warrants [] := by
  have hjust : ∀ {α : Type} {o : Op} {k : Op.Ret o → RouterM α} {es}, o.inward = true →
      (∀ r, (k r).Warranted (Input.hangup s).Warrants (es ++ [⟨o, r⟩])) →
      ((Prog.call (S := routerSig) o .pure : RouterM (Op.Ret o)) >>= k).Warranted (Input.hangup s).Warrants es :=
    fun ho h => warranted_call_bind (warrants_of_inward ho) h
  unfold onDisconnect
  refine hjust rfl fun username => ?_
  cases username with
  | none => trivial
  | some username =>
    refine hjust rfl fun _ => hjust rfl fun _ => ?_
    unfold announce frame
    refine hjust rfl fun id => hjust rfl fun ts => hjust rfl fun others => ?_
    refine warranted_forEach fun t ht es' hes => ⟨⟨rfl, rfl, username, others, hes (by simp), ht⟩, fun _ => trivial⟩

/-- So every input a thread may be given. -/
theorem Input.warranted (cfg : Config) (i : Input) : (i.prog cfg).Warranted i.Warrants [] := by
  cases i with
  | frame s f => exact handle_warranted cfg s f
  | hangup s => exact onDisconnect_warranted s

end Handlers

/-! ## In every interleaving -/

/-- The connection has logged in under the name, and the password was right. -/
def Entered (c : ServerPool) (pre : List (Nat × Event routerSig)) (t : Sid) (u : Json) : Prop :=
  ∃ k f p, c.threads[k]? = some (.frame t f, p) ∧ f.type = .login ∧ f.get "user" = u ∧
    (k, ⟨.usersVerify u (f.get "pass_hash"), true⟩) ∈ pre ∧ (k, ⟨.sessionsLogin u t, true⟩) ∈ pre

/-- The frame `g` that thread `k` sends to `t` on account of an input is `t`'s to see. -/
inductive Rightful (c : ServerPool) (pre : List (Nat × Event routerSig)) (k : Nat) (t : Sid) (g : Frame) : Input → Prop
  /-- the answer to its own request, or what waited for it at its login -/
  | own (f : Frame) : Rightful c pre k t g (.frame t f)
  /-- for somebody who is logged in there -/
  | addressed {s : Sid} {f : Frame} {name u : Json} (h : Addressed s f (Pool.ownIn pre k) g name)
      (hu : name.pyEq u = true) (hentered : Entered c pre t u) : Rightful c pre k t g (.frame s f)
  /-- for everybody who is -/
  | presence {i : Input} {u : Json} (hg : g.type = .presence) (hs : g.sender = .null)
      (hentered : Entered c pre t u) :
      Rightful c pre k t g i

section Runs

variable [Runtime] {cfg : Config} {w₀ : World} {c : ServerPool}

/-- There is a claim behind this entry of the registry. -/
def Claimed (log : List (Nat × Event routerSig)) (e : Json × Sid) : Prop :=
  ∃ k, (k, (⟨.sessionsLogin e.1 e.2, true⟩ : Event routerSig)) ∈ log

/-- Whoever a lookup found, `P` is true of the entry it found them by. -/
def FoundBy (P : Json × Sid → Prop) : Event routerSig → Prop
  | ⟨.sessionsGet name, found⟩ => ∀ t, found = some t → ∃ u, name.pyEq u = true ∧ P (u, t)
  | ⟨.sessionsOthers _, others⟩ => ∀ t ∈ others, ∃ u, P (u, t)
  | _ => True

omit [Runtime] in
/-- Who is found by one description is found by a wider one. -/
theorem FoundBy.mono {P P' : Json × Sid → Prop} (h : ∀ e, P e → P' e) {e : Event routerSig} (he : FoundBy P e) :
    FoundBy P' e := by
  obtain ⟨o, r⟩ := e
  cases o with
  | sessionsGet name =>
    intro t ht
    obtain ⟨u, hu, hP⟩ := he t ht
    exact ⟨u, hu, h _ hP⟩
  | sessionsOthers v =>
    intro t ht
    obtain ⟨u, hP⟩ := he t ht
    exact ⟨u, h _ hP⟩
  | _ => trivial

/-- Lookups find what is in the registry. -/
theorem exec_found {o : Op} {w w' : World} {r : Op.Ret o} (h : exec o w = (.ok r, w')) :
    FoundBy (fun e => e ∈ w.online) ⟨o, r⟩ := by
  cases o with
  | sessionsGet name =>
    obtain rfl : SessionRegistry.get w name = r := Except.ok.inj (Prod.mk.inj h).1
    intro t ht
    obtain ⟨e, he, rfl⟩ := Option.map_eq_some_iff.mp ht
    exact ⟨e.1, by simpa using List.find?_some he, List.mem_of_find?_eq_some he⟩
  | sessionsOthers u =>
    obtain rfl : SessionRegistry.others w u = r := Except.ok.inj (Prod.mk.inj h).1
    intro t ht
    obtain ⟨e, he, rfl⟩ := List.mem_map.mp ht
    exact ⟨e.1, (List.mem_filter.mp he).1⟩
  | _ => trivial

/-- Only a claim adds to the registry. -/
theorem exec_online {o : Op} {w w' : World} {r : Op.Ret o} (h : exec o w = (.ok r, w')) {e : Json × Sid}
    (he : e ∈ w'.online) : e ∈ w.online ∨ (⟨o, r⟩ : Event routerSig) = ⟨.sessionsLogin e.1 e.2, true⟩ := by
  by_cases hx : Field.online ∈ o.writesTo
  · cases o with
    | sessionsLogin u s =>
      simp only [exec, SessionRegistry.login] at h
      split at h
      · obtain ⟨-, rfl⟩ := Prod.mk.inj h
        exact .inl he
      · obtain ⟨hr, rfl⟩ := Prod.mk.inj h
        rcases List.mem_append.mp he with he | he
        · exact .inl he
        · obtain rfl := List.mem_singleton.mp he
          obtain rfl : true = r := Except.ok.inj hr
          exact .inr rfl
    | sessionsLogout u =>
      obtain ⟨-, rfl⟩ := Prod.mk.inj h
      exact .inl (List.mem_filter.mp he).1
    | _ => simp [Op.writesTo] at hx
  · have hsame : (exec o w).2.online = w.online := exec_same o w hx
    rw [h] at hsame
    exact .inl (hsame ▸ he)

/-- The registry holds what was claimed, and so does what lookups found. -/
structure Claims (w : World) (log : List (Nat × Event routerSig)) : Prop where
  online : ∀ e ∈ w.online, Claimed log e
  found : ∀ pre k e post, log = pre ++ (k, e) :: post → FoundBy (Claimed pre) e

/-- The registry holds only those who had the right password, at every moment. -/
theorem Interleaving.claims (h : Interleaving cfg w₀ c) (h₀ : w₀.online = []) : Claims c.state c.log := by
  refine Pool.Reach.inv (I := Claims) ?_ ?_ ?_ h
  · refine ⟨fun e he => ?_, fun pre k e post he => ?_⟩
    · rw [h₀] at he
      cases he
    · cases pre <;> cases he
  · intro c k l o q r w' _ _ hex hI
    refine ⟨fun e he => ?_, fun pre k' e post he => ?_⟩
    · rcases exec_online hex he with hold | hnew
      · obtain ⟨k', hk'⟩ := hI.online e hold
        exact ⟨k', List.mem_append_left _ hk'⟩
      · exact ⟨k, by rw [← hnew]; simp⟩
    · rcases List.eq_nil_or_concat post with rfl | ⟨post', x, rfl⟩
      · obtain ⟨rfl, hlast⟩ := List.append_inj' he rfl
        obtain ⟨rfl, rfl⟩ := Prod.mk.inj (List.singleton_inj.mp hlast)
        exact (exec_found hex).mono hI.online
      · have he' : c.log ++ [(k, (⟨o, r⟩ : Event routerSig))] = (pre ++ (k', e) :: post') ++ [x] := by
          rw [he]
          simp
        obtain ⟨hlog, -⟩ := List.append_inj' he' rfl
        exact hI.found pre k' e post' hlog
  · intro o e w w' log hex hI
    rwa [exec_error hex]

/-- A claim is made by a LOGIN of that connection, after the password was checked. -/
theorem Interleaving.entered (h : Interleaving cfg w₀ c) {pre rest : List (Nat × Event routerSig)}
    (hlog : c.log = pre ++ rest) {u : Json} {t : Sid} (hclaimed : Claimed pre (u, t)) : Entered c pre t u := by
  obtain ⟨k, hk⟩ := hclaimed
  obtain ⟨pre₁, post₁, hpre⟩ := List.append_of_mem hk
  have hsplit : c.log = pre₁ ++ (k, ⟨.sessionsLogin u t, true⟩) :: (post₁ ++ rest) := by
    rw [hlog, hpre]
    simp
  obtain ⟨i, p, hthread, hwarrant⟩ := Pool.Reach.warranted (J := Input.Warrants) (Input.warranted cfg) h hsplit
  cases i with
  | hangup s => exact hwarrant.elim
  | frame s f =>
    obtain ⟨rfl, hf, rfl, hverified⟩ := hwarrant
    refine ⟨k, f, p, hthread, hf, rfl, ?_, hk⟩
    rw [hpre]
    exact List.mem_append_left _ (Pool.mem_ownIn.mp hverified)

/-- Whoever a thread has found in the registry had logged in. -/
theorem Interleaving.found (h : Interleaving cfg w₀ c) (h₀ : w₀.online = []) {pre rest : List (Nat × Event routerSig)}
    (hlog : c.log = pre ++ rest) {k : Nat} {e : Event routerSig} (he : e ∈ Pool.ownIn pre k) :
    FoundBy (fun x => Entered c pre x.2 x.1) e := by
  obtain ⟨pre₁, post₁, hpre⟩ := List.append_of_mem (Pool.mem_ownIn.mp he)
  have hsplit : c.log = pre₁ ++ (k, e) :: (post₁ ++ rest) := by
    rw [hlog, hpre]
    simp
  refine ((h.claims h₀).found pre₁ k e _ hsplit).mono fun x hx => h.entered hlog ?_
  obtain ⟨k', hk'⟩ := hx
  rw [hpre]
  exact ⟨k', List.mem_append_left _ hk'⟩

/-- **Frames go to their audience.** Whatever handlers run at once, a frame is put
in a connection's outbox only as the answer to its own request, or if it is for
somebody who has logged in on that connection. -/
theorem Interleaving.audience (h : Interleaving cfg w₀ c) (h₀ : w₀.online = [])
    {pre post : List (Nat × Event routerSig)} {k : Nat} {t : Sid} {g : Frame}
    (hlog : c.log = pre ++ (k, ⟨.send t g, ()⟩) :: post) :
    ∃ i p, c.threads[k]? = some (i, p) ∧ Rightful c pre k t g i := by
  obtain ⟨i, p, hthread, hwarrant⟩ := Pool.Reach.warranted (J := Input.Warrants) (Input.warranted cfg) h hlog
  refine ⟨i, p, hthread, ?_⟩
  cases i with
  | frame s f =>
    rcases hwarrant with rfl | hc
    · exact .own f
    · cases hc with
      | found hfound haddressed =>
        obtain ⟨u, hu, hentered⟩ := h.found h₀ hlog hfound t rfl
        exact .addressed haddressed hu hentered
      | present hg hs hothers ht =>
        obtain ⟨u, hentered⟩ := h.found h₀ hlog hothers t ht
        exact .presence hg hs hentered
  | hangup s =>
    obtain ⟨hg, hs, v, others, hothers, ht⟩ := hwarrant
    obtain ⟨u, hentered⟩ := h.found h₀ hlog hothers t ht
    exact .presence hg hs hentered

end Runs

/-! ## A message to somebody who is there -/

section Concrete

open Sample

attribute [local instance] sampleRuntime

/-- What `a`'s MSG puts in the outbox of `b`. -/
def Sample.hi : Frame :=
  { type := .msg, sender := .str "a", target := .str "b", body := .str "hi", nonce := .str "n", id := .str "i", ts := 5 }

/-- Both are there, and `a` writes. -/
def Sample.both : List Input := [register "a", register "b", login 0 "a", login 1 "b", msg 0 "b" "i"]

/-- Connection 1 is sent it, as the connection on which `b` has logged in. -/
theorem hi_rightful : ∃ i p, (served both).threads[4]? = some (i, p) ∧
    Rightful (served both) ((served both).log.take 60) 4 1 hi i := by
  have hlog : (served both).log =
      (served both).log.take 60 ++ (4, ⟨.send 1 hi, ()⟩) :: (served both).log.drop 61 := by rfl
  exact Interleaving.audience (served_interleaving both) rfl hlog

end Concrete

end Ciphertext
