import Ciphertext.Client.Changes
import Ciphertext.Client.Legible
import Ciphertext.Client.KeyReleases

/-!
# What `p` has sealed, and everything else

A sealed message that comes before its sender's key is kept in `_awaiting` until a KEY
frame brings the key. `Orderly p` says that nothing of what `p` sent is lost, shown twice
or overtaken on the way: what is filed and what waits are together what has come in, in
that order. `run_orderly`, in `Arrivals`, proves it of runs.

`Apart p` is what everything else comes to, as `p` sees it: a call, a gesture, a frame
of somebody else. It is an order with one lemma for each function of the controller,
most of them from the kinds of change the function makes (`apart_moves`); the messages
that waited for another user's key, and the rooms released after it, belong here too
(`released_apart`). What does concern `p` is filing. Where opening raises nothing but
`DecryptionFailed`, frames of `p` are put into the conversation they belong to, one
after the other, and nothing else happens (`file_files`, `deliverAll_files`).
-/

namespace Ciphertext

open Act

/-- Whose key opens the frame. -/
def Frame.peer (f : Frame) : Json := f.sender.orElse (f.target.orElse (.str []))

/-- A message that is sealed, and by `p`. -/
def Frame.sealedBy (p : Str) (f : Frame) : Bool := f.type = .msg && f.nonce.truthy && f.peer = .str p

/-- Its recipient can be looked at: a string, or none at all. -/
def Frame.Addressed (f : Frame) : Prop := ∃ s, f.target.orElse (.str []) = .str s

/-- The frame brings a key, and it is `p`'s. -/
def Frame.brings [Runtime] (p : Str) (f : Frame) : Bool :=
  f.type = .key && (f.get "user").truthy && (f.get "pubkey").truthy && (f.get "user").pyStr = p

namespace ChatController

/-- What `p` has sealed for us and has been put into the model, in order. -/
def filedFrom (c : ChatController) (p : Str) : List Frame := (c.filed.map Prod.snd).filter (Frame.sealedBy p)

/-- What `p` has sealed for us and has come in, in order. -/
def receivedFrom (c : ChatController) (p : Str) : List Frame := c.received.filter (Frame.sealedBy p)

variable [Crypto]

/-- What `p` sent is in the model, and behind it what waits for `p`'s key, each once, in
the order it came and where it belongs. -/
structure Orderly (p : Str) (c : ChatController) : Prop where
  order : c.filedFrom p ++ c.awaited p = c.receivedFrom p
  place : ∀ e ∈ c.filed, e.2.sealedBy p = true → e.1 = e.2.place p
  waits : c.awaited p ≠ [] → ∀ k, c.keyring = some k → k.knows p = false

/-- Somebody is logged in, and it is not `p`. -/
def Besides (p : Str) (c : ChatController) : Prop := ∃ u, c.model.username = some u ∧ u ≠ [] ∧ u ≠ p

/-- Each frame waits for its own peer's key. -/
def Sorted (c : ChatController) : Prop := ∀ e ∈ c.awaiting, ∀ f ∈ e.2, ∀ q, e.1 = .str q → f.peer = .str q

/-! ## What has nothing to do with `p` -/

/-- Nothing of `p` has been filed or kept, and `p`'s key is known if it was. -/
structure Apart (p : Str) (c c' : ChatController) : Prop where
  username : c'.model.username = c.model.username
  connection : c'.connection = c.connection
  received : c'.received = c.received
  sorted : c.Sorted → c'.Sorted
  filed : ∃ es, c'.filed = c.filed ++ es ∧ ∀ e ∈ es, e.2.sealedBy p = false
  awaited : c'.awaited p = c.awaited p
  keyring : c.me ≠ p → ∀ k, c.keyring = some k → k.Consistent →
    ∃ k', c'.keyring = some k' ∧ k'.Consistent ∧ k'.knows p = k.knows p

namespace Apart

variable {p : Str} {c c' : ChatController}

/-- What is told by the fields that matter here. -/
theorem of_eq (hname : c'.model.username = c.model.username) (hconnection : c'.connection = c.connection)
    (hreceived : c'.received = c.received) (hawaiting : c'.awaiting = c.awaiting) (hfiled : c'.filed = c.filed)
    (hkeyring : c.me ≠ p → ∀ k, c.keyring = some k → k.Consistent →
      ∃ k', c'.keyring = some k' ∧ k'.Consistent ∧ k'.knows p = k.knows p) : Apart p c c' := by
  refine ⟨hname, hconnection, hreceived, fun hs => ?_, ⟨[], ?_, nofun⟩, ?_, hkeyring⟩
  · unfold Sorted
    rw [hawaiting]
    exact hs
  · rw [hfiled, List.append_nil]
  · unfold ChatController.awaited
    rw [hawaiting]

theorem refl (p : Str) (c : ChatController) : Apart p c c :=
  of_eq rfl rfl rfl rfl rfl fun _ k hk hs => ⟨k, hk, hs, rfl⟩

theorem me (h : Apart p c c') : c'.me = c.me := by
  unfold ChatController.me
  rw [h.username]

theorem trans (a b c : ChatController) (h : Apart p a b) (h' : Apart p b c) : Apart p a c := by
  refine ⟨h'.username.trans h.username, h'.connection.trans h.connection, h'.received.trans h.received,
    fun hs => h'.sorted (h.sorted hs), ?_, h'.awaited.trans h.awaited, fun hme k hk hs => ?_⟩
  · obtain ⟨es, hes, hother⟩ := h.filed
    obtain ⟨es', hes', hother'⟩ := h'.filed
    refine ⟨es ++ es', ?_, fun e he => ?_⟩
    · rw [hes', hes, List.append_assoc]
    · exact (List.mem_append.mp he).elim (hother e) (hother' e)
  · obtain ⟨k₁, hk₁, hs₁, hknows⟩ := h.keyring hme k hk hs
    obtain ⟨k₂, hk₂, hs₂, hknows'⟩ := h'.keyring (by rw [h.me]; exact hme) k₁ hk₁ hs₁
    exact ⟨k₂, hk₂, hs₂, hknows'.trans hknows⟩

theorem filedFrom (h : Apart p c c') : c'.filedFrom p = c.filedFrom p := by
  obtain ⟨es, hes, hother⟩ := h.filed
  have hnone : (es.map Prod.snd).filter (Frame.sealedBy p) = [] := by
    rw [List.filter_eq_nil_iff]
    intro f hf
    obtain ⟨e, he, rfl⟩ := List.mem_map.mp hf
    rw [hother e he]
    decide
  unfold ChatController.filedFrom
  rw [hes, List.map_append, List.filter_append, hnone, List.append_nil]

end Apart

variable {p : Str} {c c' : ChatController}

theorem apart_bind {α β : Type} {m : ClientM α} {f : α → ClientM β} (hm : Steps (Apart p) m)
    (hf : ∀ a, Steps (Apart p) (f a)) : Steps (Apart p) (m >>= f) := Steps.bind Apart.trans hm hf

theorem apart_pure {α : Type} (a : α) : Steps (Apart p) (pure a : ClientM α) := steps_pure (Apart.refl p) a

theorem apart_throw {α : Type} (e : ClientErr) : Steps (Apart p) (throw e : ClientM α) := steps_throw (Apart.refl p) e

/-- The model has no part in it but the name. -/
theorem apart_model {m : ChatModel} (hm : m.username = c.model.username) : Apart p c { c with model := m } :=
  .of_eq hm rfl rfl rfl rfl fun _ k hk hs => ⟨k, hk, hs, rfl⟩

/-- Neither have calls. -/
theorem apart_trace (xs : List (Call × Bool)) : Apart p c { c with trace := c.trace ++ callEntries xs } := by
  refine .of_eq rfl rfl ?_ rfl rfl fun _ k hk hs => ⟨k, hk, hs, rfl⟩
  show (c.trace ++ callEntries xs).filterMap _ = _
  rw [List.filterMap_append, received_callEntries, List.append_nil]
  rfl

variable [Runtime]

omit [Crypto] in
/-- Only a change of identity changes the name. -/
theorem username_of_change {k : Kind} (hk : k ≠ .identity) {m m' : ChatModel} (h : Change k m m') :
    m'.username = m.username := by
  cases h with
  | identity => exact absurd rfl hk
  | contacts h =>
    obtain ⟨contacts, roster, es, rfl, -⟩ := ChatModel.replaceContacts_cases h
    rfl
  | typing _ key user on => exact (setTyping_keeps key user on m).1
  | message _ key _ => exact (addMessage_keeps key _ m).1
  | filing _ key _ => exact (addMessage_keeps key _ m).1
  | receipt _ key id state => exact (setReceipt_keeps key id state m).1
  | members _ room names => exact username_setRoomMembers m room names
  | _ => rfl

omit [Runtime] in
/-- Remembering another key, sealing and opening leave open whether `p`'s is known. -/
theorem knows_apply {k : Keyring} (hs : k.Consistent) {me : Str} (hme : me ≠ p) {pairs : List (Str × Str)}
    (hpairs : ∀ pr ∈ pairs, pr.1 ≠ p) {x : Keyring.KeyringCall} (hx : x.By me pairs) : (k.apply x).knows p = k.knows p := by
  cases x with
  | remember user pubkey =>
    have hne : p ≠ user := fun h => hpairs _ hx h.symm
    show (k.remember user pubkey).knows p = _
    rw [Keyring.remember_knows, decide_eq_false hne, Bool.false_or]
  | forget user => exact hx.elim
  | seal' user text sender => exact (Keyring.derives_stepwise.seal' user text sender k hs).knows p
  | sealForMembers members text sender =>
    have hne : p ≠ sender := fun h => hme (hx.symm.trans h.symm)
    exact (Keyring.sealForMembers_grows hs members text sender).knows hne
  | open' user ciphertext nonce sender => exact (Keyring.derives_stepwise.open' user ciphertext nonce sender k hs).knows p

theorem Micro.apart {kinds : List Kind} {pairs : List (Str × Str)} (h : Micro kinds pairs c c') (hf : .filing ∉ kinds)
    (hi : .identity ∉ kinds) (hpairs : ∀ pr ∈ pairs, pr.1 ≠ p) : Apart p c c' := by
  cases h with
  | @model _ kind m hk _ hchange =>
    have hkind : kind ≠ .identity := fun h => hi (h ▸ hk)
    exact apart_model (username_of_change hkind hchange)
  | selected hk c key =>
    obtain ⟨xs, hselect, -⟩ := exec_select key c
    rw [hselect]
    exact Apart.trans _ { c with model := c.model.select key } _ (apart_model rfl) (apart_trace xs)
  | filed hk => exact absurd hk hf
  | @keyring _ k x hk hx =>
    refine .of_eq rfl rfl rfl rfl rfl fun hme k₀ hk₀ hs => ?_
    obtain rfl := Option.some.inj (hk.symm.trans hk₀)
    exact ⟨_, rfl, apply_consistent hs hx, knows_apply hs hme hpairs hx⟩
  | called c hx =>
    exact apart_trace [(_, (c.connection c.trace.length).isSome)]
  | awaiting hk => exact absurd hk hf
  | _ => exact .of_eq rfl rfl rfl rfl rfl fun _ k hk hs => ⟨k, hk, hs, rfl⟩

/-- **What files nothing**, gives no name and brings no key of `p` leaves `p`'s messages alone. -/
theorem Walk.apart {kinds : List Kind} {pairs : List (Str × Str)} (h : Walk kinds pairs c c') (hf : .filing ∉ kinds)
    (hi : .identity ∉ kinds) (hpairs : ∀ pr ∈ pairs, pr.1 ≠ p) : Apart p c c' :=
  h.lift (Apart.refl p) Apart.trans fun _ _ h => h.apart hf hi hpairs

theorem apart_moves {α : Type} {m : ClientM α} (h : Moves [.message, .borrowing] [] m) : Steps (Apart p) m := fun c =>
  (h c).apart (by simp) (by simp) nofun

/-- Releasing held texts is apart from everybody. -/
theorem release_apart (target : Str) : Steps (Apart p) (release target) :=
  apart_moves (release_moves (by simp) (by simp) target)

theorem releaseRoom_apart (room : Str) : Steps (Apart p) (releaseRoom room) :=
  apart_moves (releaseRoom_moves (by simp) (by simp) room)

/-- Filing somebody else's. -/
theorem file_apart {f : Frame} (hf : f.sealedBy p = false) (key : Json) : Steps (Apart p) (file f key) := by
  refine apart_bind (apart_moves (reportDelivery_moves f key)) fun _ => apart_bind (apart_moves (plaintext_moves f _))
    fun body => apart_bind (apart_moves (timeOf_moves f.ts)) fun ts => ?_
  cases key with
  | str key =>
    intro c
    show Apart p c (exec (addFrame f key body ts) c).2
    rw [exec_addFrame]
    refine ⟨(addMessage_keeps key _ c.model).1, rfl, rfl, id, ⟨[(key, f)], rfl, fun e he => ?_⟩, rfl,
      fun _ k hk hs => ⟨k, hk, hs, rfl⟩⟩
    rw [List.mem_singleton.mp he]
    exact hf
  | _ => exact apart_throw _

/-- Filing what others sealed is apart from `p`. -/
theorem deliverAll_apart {user : Str} {frames : List Frame} (h : ∀ f ∈ frames, f.sealedBy p = false) :
    Steps (Apart p) (frames.forM (deliverOne user)) := by
  induction frames with
  | nil => exact apart_pure _
  | cons f frames ih =>
    refine apart_bind ?_ fun _ => ih fun g hg => h g (List.mem_cons_of_mem _ hg)
    exact apart_bind (apart_moves (startsRoom_moves _)) fun room => file_apart (h f (List.mem_cons_self ..)) _

omit [Runtime] [Crypto] in
/-- What awaits `p` stays when another's frames are taken out. -/
theorem awaited_filter (c : ChatController) {user : Str} (hne : p ≠ user) :
    ({ c with awaiting := c.awaiting.filter fun e => e.1 ≠ .str user } : ChatController).awaited p = c.awaited p := by
  unfold awaited
  dsimp only
  rw [List.find?_filter]
  refine congrArg (fun o : Option (Json × List Frame) => o.elim [] Prod.snd) (congrArg (List.find? · c.awaiting) ?_)
  refine funext fun e => ?_
  by_cases he : e.1 = .str p
  · have hother : e.1 ≠ .str user := fun h => hne (Json.str.inj (he.symm.trans h))
    simp [he, hne]
  · simp [he]

omit [Runtime] [Crypto] in
/-- What is left is sorted. -/
theorem sorted_filter (c : ChatController) (user : Str) (h : c.Sorted) :
    ({ c with awaiting := c.awaiting.filter fun e => e.1 ≠ .str user } : ChatController).Sorted :=
  fun e he => h e (List.mem_of_mem_filter he)

omit [Runtime] [Crypto] in
/-- What waited for this user's key is from this user. -/
theorem mem_awaited {user : Str} (h : c.Sorted) {f : Frame} (hf : f ∈ c.awaited user) : f.peer = .str user := by
  unfold awaited at hf
  cases he : c.awaiting.find? fun e => e.1 = .str user with
  | none =>
    rw [he] at hf
    cases hf
  | some e =>
    rw [he] at hf
    exact h e (List.mem_of_find?_eq_some he) f hf user (by simpa using List.find?_some he)

/-- Filing what awaited somebody else is apart from `p`. -/
theorem deliverAwaiting_apart {user : Str} (hne : p ≠ user) (h : c.Sorted) :
    Apart p c (exec (deliverAwaiting user) c).2 := by
  have hothers : ∀ f ∈ c.awaited user, f.sealedBy p = false := by
    intro f hf
    have hpeer : f.peer ≠ .str p := by
      rw [mem_awaited h hf]
      exact fun he => hne (Json.str.inj he).symm
    unfold Frame.sealedBy
    rw [decide_eq_false hpeer, Bool.and_false]
  have hfirst : Apart p c { c with awaiting := c.awaiting.filter fun e => e.1 ≠ .str user } :=
    ⟨rfl, rfl, rfl, sorted_filter c user, ⟨[], (List.append_nil _).symm, nofun⟩, awaited_filter c hne,
      fun _ k hk hs => ⟨k, hk, hs, rfl⟩⟩
  exact hfirst.trans _ _ _ (deliverAll_apart hothers _)

/-- The rooms a KEY frame completes. -/
theorem rooms_apart : Steps (Apart p) (do
    let rooms := ((← get).held.map Prod.fst).filter Str.isRoom
    rooms.forM releaseRoom : ClientM Unit) :=
  steps_get fun c => steps_forM (Apart.refl p) Apart.trans releaseRoom_apart c

/-- The key of somebody else. -/
theorem released_apart {user : Str} (hne : p ≠ user) (h : c.Sorted) :
    Apart p c (exec (do release user; afterwards user) c).2 := by
  have hafter : ∀ b : ChatController, b.Sorted → Apart p b (exec (afterwards user) b).2 := fun b hb =>
    steps_bind_at Apart.trans (deliverAwaiting_apart hne hb) fun _ => rooms_apart
  have hreleased := release_apart (p := p) user c
  rw [exec_bind]
  rcases hrun : exec (release user) c with ⟨e | u, b⟩ <;> rw [hrun] at hreleased
  · exact hreleased
  · exact hreleased.trans _ _ _ (hafter b (hreleased.sorted h))

/-! ## Filing what `p` sent -/

/-- Opening the message of `p` raises nothing but `DecryptionFailed`. -/
def Opens (k : Keyring) (p : Str) (f : Frame) : Prop := ∀ e,
  (exec (Keyring.open' (.str p) (f.body.orElse (.str [])) f.nonce (f.sender.orElse (.str []))) k).1 ≠ .error e

omit [Runtime] in
theorem opens_of_isOk {k : Keyring} {f : Frame} (h : (exec (Keyring.open' (.str p) (f.body.orElse (.str [])) f.nonce
    (f.sender.orElse (.str []))) k).1.isOk = true) : Opens k p f := by
  intro e he
  rw [he] at h
  cases h

/-- These frames of `p` have been put into the model, where they belong, and nothing else. -/
structure Filing (p : Str) (frames : List Frame) (c c' : ChatController) : Prop where
  aside : c.Aside c'
  filed : c'.filed = c.filed ++ frames.map fun f => (f.place p, f)
  awaiting : c'.awaiting = c.awaiting
  received : c'.received = c.received

omit [Runtime] in
theorem Filing.trans {fs gs : List Frame} {b : ChatController} (h : Filing p fs c b) (h' : Filing p gs b c') :
    Filing p (fs ++ gs) c c' := by
  refine ⟨h.aside.trans _ _ _ h'.aside, ?_, h'.awaiting.trans h.awaiting, h'.received.trans h.received⟩
  rw [h'.filed, h.filed, List.map_append, List.append_assoc]

omit [Crypto] [Runtime] in
/-- The key of such a frame is that of whoever sealed it. -/
theorem peer_of_sealedBy {f : Frame} (hf : f.sealedBy p = true) : f.peer = .str p := by
  unfold Frame.sealedBy at hf
  simp only [Bool.and_eq_true, decide_eq_true_eq] at hf
  exact hf.2

omit [Crypto] [Runtime] in
/-- The key of `p` opens it, wherever it belongs. -/
theorem opener_place {f : Frame} (hf : f.sealedBy p = true) : f.sender.orElse (.str (f.place p)) = .str p := by
  have hpeer := peer_of_sealedBy hf
  unfold Frame.peer Json.orElse at hpeer
  unfold Json.orElse
  by_cases hsender : f.sender.truthy = true
  · rw [if_pos hsender] at hpeer ⊢
    exact hpeer
  · -- without a sender it is its recipient who is asked about
    rw [if_neg hsender] at hpeer ⊢
    unfold Frame.place Json.orElse
    rw [hpeer]
    dsimp only
    split
    · rfl
    · rfl

omit [Runtime] in
/-- A sealed message of `p` is filed; what may raise is the end of its sender's typing. -/
theorem file_files {f : Frame} (hf : f.sealedBy p = true) (hopens : ∀ k, c.keyring = some k → Opens k p f) :
    Ends (file f (.str (f.place p))) c
      (fun _ c' => Filing p [f] c c' ∧
        c'.model.typing = (c.model.setTyping (f.typist p).1 (f.typist p).2 false).1.typing)
      (fun _ c' => Filing p [f] c c' ∧ ¬ c.model.Settles (f.typist p).1 (f.typist p).2) := by
  refine file_rule (fun e d _ hnot => ?_) fun body ts d hd _ => ?_
  · refine absurd (fun k hk _ => ?_) hnot
    rw [opener_place hf]
    exact hopens k hk
  · obtain ⟨xs, keyring, -, rfl⟩ := hd.eq
    have hadds : ∀ b : ChatController, Filing p [f] b (exec (addFrame f (f.place p) body ts) b).2 := by
      intro b
      rw [exec_addFrame]
      obtain ⟨hname, hrooms, hroster⟩ := addMessage_keeps (f.place p) { id := f.id, sender := f.sender.orElse (.str "?"), body, ts } b.model
      exact ⟨⟨hname, hrooms, hroster, rfl, rfl, fun k hk hs => ⟨k, hk, .refl hs⟩, [], (List.append_nil _).symm⟩,
        rfl, rfl, rfl⟩
    have hbefore : Filing p [] c { c with trace := c.trace ++ callEntries xs, keyring } := by
      refine ⟨hd.aside, (List.append_nil _).symm, rfl, ?_⟩
      show (c.trace ++ callEntries xs).filterMap _ = _
      rw [List.filterMap_append, received_callEntries, List.append_nil]
      rfl
    refine ((addFrame_ends f (f.place p) body ts _).and_steps fun b => hadds b).mono
      (fun _ c' h => ⟨hbefore.trans h.1, h.2.2⟩) fun _ c' h => ⟨hbefore.trans h.1, h.2⟩

omit [Runtime] in
/-- What `_deliver_awaiting` files, one after the other. Where the typing settles before the
last of them, nothing is left behind. -/
theorem deliverAll_files (frames : List Frame) : ∀ {c : ChatController} {k : Keyring}, c.keyring = some k → k.Consistent →
    (∀ f ∈ frames, f.sealedBy p = true ∧ f.Addressed ∧ Opens k p f) →
    c.model.SettlesAll (frames.dropLast.map (Frame.typist p)) →
    Ends (frames.forM (deliverOne p)) c (fun _ c' => Filing p frames c c') (fun _ c' => Filing p frames c c') := by
  induction frames with
  | nil => exact fun _ _ _ _ => ⟨.refl _, (List.append_nil _).symm, rfl, rfl⟩
  | cons f frames ih =>
    intro c k hk hs hall hsettles
    obtain ⟨hf, ⟨s, hs'⟩, hopens⟩ := hall f (List.mem_cons_self ..)
    have hone : Ends (deliverOne p f) c
        (fun _ c' => Filing p [f] c c' ∧
          c'.model.typing = (c.model.setTyping (f.typist p).1 (f.typist p).2 false).1.typing)
        (fun _ c' => Filing p [f] c c' ∧ ¬ c.model.Settles (f.typist p).1 (f.typist p).2) := by
      unfold deliverOne
      have hplace : f.place p = if s.isRoom then s else p := by
        unfold Frame.place
        rw [hs']
      rw [hs']
      show Ends (file f (if s.isRoom = true then .str s else .str p)) c _ _
      rw [show (if s.isRoom = true then Json.str s else .str p) = .str (f.place p) by rw [hplace]; split <;> rfl]
      refine file_files hf fun k' hk' => ?_
      obtain rfl := Option.some.inj (hk'.symm.trans hk)
      exact hopens
    have hlast : frames = [] ∨ c.model.Settles (f.typist p).1 (f.typist p).2 ∧
        (c.model.setTyping (f.typist p).1 (f.typist p).2 false).1.SettlesAll (frames.dropLast.map (Frame.typist p)) := by
      cases frames with
      | nil => exact .inl rfl
      | cons g frames => exact .inr hsettles
    refine Ends.bind (hone.mono (fun _ _ h => h) fun _ c₁ hc₁ => ?_) fun _ c₁ hc₁ => ?_
    · -- only the last one may raise
      obtain ⟨hfiling, hnot⟩ := hc₁
      rw [hlast.resolve_right fun h => hnot h.1]
      exact hfiling
    · obtain ⟨hfiling, htyping⟩ := hc₁
      obtain ⟨k₁, hk₁, hsame⟩ := hfiling.aside.keyring k hk hs
      have hrest : ∀ g ∈ frames, g.sealedBy p = true ∧ g.Addressed ∧ Opens k₁ p g := by
        intro g hg
        obtain ⟨hg₁, hg₂, hg₃⟩ := hall g (List.mem_cons_of_mem _ hg)
        refine ⟨hg₁, hg₂, fun e => ?_⟩
        rw [hsame.open' hs]
        exact hg₃ e
      have hrest' : c₁.model.SettlesAll (frames.dropLast.map (Frame.typist p)) := by
        rcases hlast with hnone | hsome
        · rw [hnone]
          trivial
        · exact hsome.2.of_typing htyping
      exact (ih hk₁ hsame.consistent hrest hrest').mono (fun _ _ h => hfiling.trans h) fun _ _ h => hfiling.trans h

end ChatController

end Ciphertext
