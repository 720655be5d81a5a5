import Ciphertext.Client.Legible
import Ciphertext.Client.RoomSealing

/-!
# Keys that come after the page

A live message from somebody whose key is not known waits for it. A stored row does
not: it is opened when its page comes in, and what it shows then stays, since a KEY
frame only adds messages (`ChatModel.Extends`). So a page shows its plaintexts
exactly if the keys were there before it.

`history_order_iff` is about a page and its keys in any order among other frames: once
all of them are processed, the rows show their plaintexts exactly if each row is in the
clear, or its key was there when the page came in, or its text is the placeholder. The
keys are what the users publish (`Honest`, `Publishes`), so the condition is about order
alone. A live message does not have it: it waits, and is opened when the key comes.
-/

namespace Ciphertext

open Act

namespace Keyring

variable [Crypto]

/-- A keyring of this identity that holds nobody's public key but their own. -/
structure Honest (own : Identity) (pub : Str → Str) (k : Keyring) : Prop where
  fresh : k.Fresh
  identity : k.identity = own
  pubkeys : ∀ user pubkey, PyDict.get k.pubkeys user = some pubkey → pubkey = pub user
  me : k.me ≠ [] → pub k.me = Crypto.publicB64 own

section Honest

variable {own : Identity} {pub : Str → Str} {k k' : Keyring}

/-- Refreshing a keyring brings in no key that is not its owner's. -/
theorem Honest.refreshed (h : k.Honest own pub) (hr : k.Refreshed k') : k'.Honest own pub := by
  refine ⟨hr.fresh, hr.identity.trans h.identity, fun user pubkey hget => ?_, fun hne => ?_⟩
  · cases hr.pubkeys user with
    | inl hsame => exact h.pubkeys user pubkey (hsame.symm.trans hget)
    | inr hown =>
      obtain ⟨⟨hne, hme⟩, -, hown⟩ := hown
      obtain rfl := Option.some.inj (hget.symm.trans hown)
      rw [h.identity, hme]
      exact (h.me (hme ▸ hne)).symm
  · rw [hr.me] at hne ⊢
    exact h.me hne

theorem Honest.selfKey (h : k.Honest own pub) {sender : Str} (hs : pub sender = Crypto.publicB64 own) :
    ({ k with me := sender } : Keyring).selfKey.Honest own pub := by
  refine ⟨h.fresh.selfKey sender, h.identity, fun user pubkey hget => ?_, fun _ => hs⟩
  rw [get_selfKey] at hget
  by_cases hu : user = sender
  · rw [if_pos hu] at hget
    cases hp : PyDict.get k.pubkeys user with
    | some p =>
      rw [hp] at hget
      obtain rfl := Option.some.inj hget
      exact h.pubkeys user p hp
    | none =>
      rw [hp] at hget
      obtain rfl := Option.some.inj hget
      rw [hu, hs, ← h.identity]
      rfl
  · rw [if_neg hu] at hget
    exact h.pubkeys user pubkey hget

/-- A published key that is the real one may be remembered. -/
theorem Honest.remember (h : k.Honest own pub) (user : Str) : (k.remember user (pub user)).Honest own pub := by
  have hcurrent : Current own (fun v => PyDict.get k.pubkeys v) k :=
    ⟨h.identity, h.fresh, fun _ _ hget => hget, fun _ _ hget => by rw [hget]; rfl⟩
  have hme : (k.remember user (pub user)).me = k.me := by
    unfold Keyring.remember
    split
    · rfl
    · rfl
  refine ⟨(hcurrent.remember user (pub user)).fresh, (hcurrent.remember user (pub user)).identity,
    fun v pubkey hget => ?_, fun hne => ?_⟩
  · rw [get_remember] at hget
    by_cases hv : user = v
    · rw [if_pos hv] at hget
      exact hv ▸ (Option.some.inj hget).symm
    · rw [if_neg hv] at hget
      exact h.pubkeys v pubkey hget
  · rw [hme] at hne ⊢
    exact h.me hne

/-- One call of the controller's. -/
theorem Honest.apply (h : k.Honest own pub) {me : Str} {pairs : List (Str × Str)} {x : KeyringCall} (hx : x.By me pairs)
    (hme : pub me = Crypto.publicB64 own) (hpairs : ∀ p ∈ pairs, p.2 = pub p.1) : (k.apply x).Honest own pub := by
  cases x with
  | remember user pubkey =>
    have hp : pubkey = pub user := hpairs _ hx
    subst hp
    exact h.remember user
  | forget user => cases hx
  | seal' user text sender => exact h.refreshed (lazily_stepwise.seal' user text sender k h.fresh)
  | sealForMembers members text sender =>
    have hs : sender = me := hx
    subst hs
    exact (h.selfKey hme).refreshed (sealForMembers_refreshed h.fresh members text sender)
  | open' user ciphertext nonce sender => exact h.refreshed (lazily_stepwise.open' user ciphertext nonce sender k h.fresh)

/-- The key with somebody whose key is there. -/
theorem Honest.keyOf (h : k.Honest own pub) {user : Str} (hf : k.Finds user) {derived : Key}
    (hkey : Crypto.keyFor own (pub user) = .ok derived) : k.keyOf user = .ok (some derived) := by
  refine h.fresh.keyOf_finds hf fun pubkey hp => ?_
  rw [h.identity]
  obtain hget | ⟨⟨hne, rfl⟩, rfl⟩ := held_cases hp
  · rw [h.pubkeys user pubkey hget]
    exact hkey
  · rw [h.identity, ← h.me hne]
    exact hkey

end Honest

end Keyring

namespace ChatModel

/-- Every conversation goes on from where it was. -/
def Extends (m m' : ChatModel) : Prop := ∀ key, (m.conversation key).messages <+: (m'.conversation key).messages

theorem Extends.refl (m : ChatModel) : m.Extends m := fun _ => List.prefix_refl _

theorem Extends.trans (m₁ m₂ m₃ : ChatModel) (h : m₁.Extends m₂) (h' : m₂.Extends m₃) : m₁.Extends m₃ :=
  fun key => (h key).trans (h' key)

/-- What leaves the conversations alone extends them. -/
theorem extends_of_conversations {m m' : ChatModel} (h : m'.conversations = m.conversations) : m.Extends m' := by
  intro key
  have hsame : m'.conversation key = m.conversation key := by rw [conversation, conversation, h]
  exact hsame ▸ List.prefix_refl _

/-- One conversation that grew, and the others as they were. -/
theorem extends_set {m : ChatModel} {key : Str} {c : Conversation}
    (h : (m.conversation key).messages <+: c.messages) : m.Extends (m.setConversation key c) := by
  intro key'
  by_cases hk : key' = key
  · subst hk
    have hset : (m.setConversation key' c).conversation key' = c := by rw [conversation_set, if_pos rfl]
    show (m.conversation key').messages <+: ((m.setConversation key' c).conversation key').messages
    simpa only [hset] using h
  · have hother : (m.setConversation key c).conversation key' = m.conversation key' := by
      rw [conversation_set, if_neg hk]
    exact hother ▸ List.prefix_refl _

/-- Filing a message appends it at most, whoever it is from. -/
theorem extends_addMessage (m : ChatModel) (key : Str) (message : Message) : m.Extends (m.addMessage key message).1 := by
  have hset : m.Extends (m.setConversation key ((m.conversation key).add message (m.active = some key))) :=
    extends_set (List.prefix_append _ _)
  exact hset.trans _ _ _ (extends_of_conversations (addMessage_conversations m key message))

/-- Messages are added. -/
theorem extends_of_change [Runtime] {k : Kind} (hk : k ∈ [Kind.message, Kind.filing, Kind.borrowing]) {m m' : ChatModel}
    (h : Change k m m') : m.Extends m' := by
  cases h with
  | message _ key _ => exact extends_addMessage m key _
  | filing _ key _ => exact extends_addMessage m key _
  | borrowing _ active => exact extends_of_conversations rfl
  | _ => simp at hk

end ChatModel

namespace ChatController

variable [Crypto] [Runtime]

/-- The controller has such a keyring, and goes by a name whose public key is its own. -/
structure Honest (own : Identity) (pub : Str → Str) (c : ChatController) : Prop where
  keyring : ∃ k, c.keyring = some k ∧ k.Honest own pub
  user : pub c.me = Crypto.publicB64 own

section Honest

variable {own : Identity} {pub : Str → Str} {c c' : ChatController}

omit [Runtime] in
/-- Only the keyring and the name matter. -/
theorem Honest.of_username (h : c.Honest own pub) (hk : c'.keyring = c.keyring)
    (hu : c'.model.username = c.model.username) : c'.Honest own pub := by
  refine ⟨hk ▸ h.keyring, ?_⟩
  have hme : c'.me = c.me := by
    unfold me
    rw [hu]
  rw [hme]
  exact h.user

/-- Over a whole walk the name stays, and the keys stay real if the walk remembers only real
ones. -/
theorem Walk.honest {pairs : List (Str × Str)} (h : Walk [.message, .filing, .borrowing] pairs c c')
    (hpairs : ∀ p ∈ pairs, p.2 = pub p.1) :
    c'.model.username = c.model.username ∧ (c.Honest own pub → c'.Honest own pub) := by
  refine h.lift (R := fun c c' => c'.model.username = c.model.username ∧ (c.Honest own pub → c'.Honest own pub))
    (fun c => ⟨rfl, id⟩) (fun a b c h h' => ⟨h'.1.trans h.1, fun ha => h'.2 (h.2 ha)⟩) fun c c' h => ?_
  cases h with
  | @model _ k m hk _ hchange =>
    have hu : m.username = c.model.username := by
      cases hchange with
      | message _ key _ => exact (addMessage_keeps key _ c.model).1
      | filing _ key _ => exact (addMessage_keeps key _ c.model).1
      | borrowing _ active => rfl
      | _ => simp at hk
    exact ⟨hu, fun ha => ha.of_username rfl hu⟩
  | selected hk => simp at hk
  | filed hk c f key body ts =>
    rw [exec_addFrame]
    have hu := (addMessage_keeps key { id := f.id, sender := f.sender.orElse (.str "?"), body, ts } c.model).1
    exact ⟨hu, fun ha => ha.of_username rfl hu⟩
  | @keyring _ k x hk hx =>
    refine ⟨rfl, fun ha => ⟨?_, ha.user⟩⟩
    obtain ⟨k₀, hk₀, hhonest⟩ := ha.keyring
    obtain rfl := Option.some.inj (hk.symm.trans hk₀)
    exact ⟨_, rfl, hhonest.apply hx ha.user hpairs⟩
  | _ => exact ⟨rfl, fun ha => ha.of_username rfl rfl⟩

/-- A KEY frame with the public key of whom it names. -/
structure Publishes (pub : Str → Str) (f : Frame) : Prop where
  type : f.type = .key
  pubkey : (f.get "pubkey").pyStr = pub (f.get "user").pyStr

/-- What a KEY goes through: it remembers the one key it carries, and may file and borrow
the active conversation. -/
theorem step_key_walk (c : ChatController) {f : Frame} (hf : f.type = .key) :
    Walk [.message, .filing, .borrowing] [((f.get "user").pyStr, (f.get "pubkey").pyStr)] (c.receiving f) (c.step (.frame f)) := by
  have hwalk := onFrame_walk c f
  have hpub : f.published = [((f.get "user").pyStr, (f.get "pubkey").pyStr)] := if_pos hf
  rw [hf, hpub] at hwalk
  exact hwalk

/-- **KEY frames** add messages at most. -/
theorem run_keys_extends (fs : List Frame) : ∀ {c : ChatController}, (∀ f ∈ fs, f.type = .key) →
    c.model.Extends (c.run (fs.map .frame)).model := by
  induction fs with
  | nil => exact fun _ => ChatModel.Extends.refl _
  | cons f fs ih =>
    intro c hfs
    have hstep : c.model.Extends (c.step (.frame f)).model :=
      (step_key_walk c (hfs f (List.mem_cons_self ..))).moved.lift ChatModel.Extends.refl ChatModel.Extends.trans
        fun k hk _ _ h => ChatModel.extends_of_change hk h
    exact hstep.trans _ _ _ (ih fun f hf => hfs f (List.mem_cons_of_mem _ hf))

/-- The keyring stays such a one. -/
theorem run_publishes (fs : List Frame) : ∀ {c : ChatController}, (∀ f ∈ fs, Publishes pub f) → c.Honest own pub →
    (c.run (fs.map .frame)).Honest own pub ∧ (c.run (fs.map .frame)).model.username = c.model.username := by
  induction fs with
  | nil => exact fun _ ha => ⟨ha, rfl⟩
  | cons f fs ih =>
    intro c hfs ha
    have hf := hfs f (List.mem_cons_self ..)
    have hpairs : ∀ p ∈ [((f.get "user").pyStr, (f.get "pubkey").pyStr)], p.2 = pub p.1 := by
      intro p hp
      rw [List.mem_singleton.mp hp]
      exact hf.pubkey
    have hhonest : (c.step (.frame f)).model.username = c.model.username ∧
        ((c.receiving f).Honest own pub → (c.step (.frame f)).Honest own pub) :=
      (step_key_walk c hf.type).honest hpairs
    have hstep : (c.step (.frame f)).Honest own pub := hhonest.2 (ha.of_username rfl rfl)
    obtain ⟨hrest, hu⟩ := ih (fun f hf => hfs f (List.mem_cons_of_mem _ hf)) hstep
    exact ⟨hrest, hu.trans hhonest.1⟩

end Honest

/-- A row that carries this text: as it is, or sealed under the key with its peer. -/
def Bears (own : Identity) (pub : Str → Str) (key me : Str) (d : Dict) (text : Str) : Prop :=
  ∃ id sender body nonce ts, StringRow d id sender body nonce ts ∧
    (nonce = [] ∧ body = text ∨ nonce ≠ [] ∧ ∃ derived, Crypto.keyFor own (pub (rowPeer d key me)) = .ok derived ∧
      Crypto.open' derived (.str body) (.str nonce) (.str sender) = .plaintext text)

/-- What such a row shows: the text, or the placeholder where its key is not there. -/
theorem Bears.shows {own : Identity} {pub : Str → Str} {key me : Str} {d : Dict} {text : Str}
    (h : Bears own pub key me d text) {k : Keyring} (ha : k.Honest own pub) :
    Reads (some k) key me (.dict d) ∧ ∃ body, rowBody (some k) key me d = .ok (.str body) ∧
      (body = text ↔ (Json.get d "n" ≠ .str [] → k.Finds (rowPeer d key me) ∨ text = undecryptable)) := by
  obtain ⟨id, sender, body, nonce, ts, hrow, htext⟩ := h
  have hts : ∃ n, ((Json.get d "ts").orElse (.int 0)).pyInt = .ok n := by
    rw [hrow.ts]
    unfold Json.orElse
    split
    · exact ⟨ts, rfl⟩
    · exact ⟨0, rfl⟩
  obtain ⟨hn, hbody⟩ | ⟨hn, derived, hkey, hopen⟩ := htext
  · -- a row in the clear
    refine ⟨⟨fun k' hk' htruthy => ?_, hts⟩, body, ?_, iff_of_true hbody ?_⟩
    · rw [hrow.nonce, truthy_iff] at htruthy
      exact absurd hn htruthy
    · unfold ChatController.rowBody
      rw [hrow.nonce, hrow.body, orElse_str, hn]
      rfl
    · intro hne
      rw [hrow.nonce, hn] at hne
      exact absurd rfl hne
  · have hshown : rowBody (some k) key me d =
        (k.openWith (rowPeer d key me) (.str body) (.str nonce) (.str sender)).map
          fun text => .str (text.getD undecryptable) := by
      unfold ChatController.rowBody
      rw [hrow.nonce, hrow.body, hrow.sender, orElse_str, orElse_str]
      dsimp only
      rw [if_neg (by simpa [truthy_iff] using hn)]
      rfl
    have hne : Json.get d "n" ≠ .str [] := by
      rw [hrow.nonce]
      exact fun h => hn (Json.str.inj h)
    have hreads : ∀ held, k.keyOf (rowPeer d key me) = .ok held → (∀ key', held = some key' → key' = derived) →
        Reads (some k) key me (.dict d) := by
      intro held hheld hsame
      refine ⟨fun k' hk' _ => ?_, hts⟩
      obtain rfl := Option.some.inj hk'
      rw [hrow.nonce, hrow.body, hrow.sender, orElse_str, orElse_str]
      refine ⟨held, ?_, fun key' e hkey' => ?_⟩
      · unfold rowPeer at hheld
        rw [hrow.sender, orElse_str] at hheld
        exact hheld
      · rw [hsame key' hkey']
        simp only [Json.pyStr_str]
        rw [hopen]
        exact nofun
    by_cases hf : k.Finds (rowPeer d key me)
    · have hkeyOf := ha.keyOf hf hkey
      refine ⟨hreads _ hkeyOf fun key' h => (Option.some.inj h).symm, text, ?_, iff_of_true rfl fun _ => .inl hf⟩
      rw [hshown]
      unfold Keyring.openWith
      rw [hkeyOf]
      dsimp only
      rw [hopen]
      rfl
    · have hkeyOf := ha.fresh.keyOf_none hf
      refine ⟨hreads _ hkeyOf nofun, undecryptable, ?_, ?_⟩
      · rw [hshown]
        unfold Keyring.openWith
        rw [hkeyOf]
        rfl
      · constructor
        · intro h _
          exact .inr h.symm
        · intro h
          exact ((h hne).resolve_left hf).symm

/-- A row is in the clear, or its key is there, or the placeholder is its text. -/
def Openable (keyring : Option Keyring) (key me : Str) (d : Dict) (text : Str) : Prop :=
  Json.get d "n" ≠ .str [] → (∃ k, keyring = some k ∧ k.Finds (rowPeer d key me)) ∨ text = undecryptable

/-- The bodies on the screen are the texts that were sent exactly if every row is openable.
-/
theorem bodies_iff {own : Identity} {pub : Str → Str} {key : Str} {username : Option Str} {k : Keyring}
    (ha : k.Honest own pub) {rows : List Dict} {texts : List Str}
    (h : List.Forall₂ (Bears own pub key (username.getD [])) rows texts) : ∀ {ms : List Message},
    List.Forall₂ (Shown (some k) key username) rows ms →
      (ms.map Message.body = texts.map .str ↔ List.Forall₂ (Openable (some k) key (username.getD [])) rows texts) := by
  induction h with
  | nil =>
    intro ms hms
    cases hms
    exact iff_of_true rfl .nil
  | @cons d text rows texts hone _ ih =>
    intro ms hms
    cases hms with
    | @cons _ m _ ms hm hms =>
      obtain ⟨-, body, hbody, hiff⟩ := hone.shows ha
      have hm : m.body = .str body := Except.ok.inj (hm.body.symm.trans hbody)
      have hready : Openable (some k) key (username.getD []) d text ↔ body = text := by
        rw [hiff]
        refine forall_congr' fun _ => or_congr_left ⟨fun h => ?_, fun h => ⟨k, rfl, h⟩⟩
        obtain ⟨k', hk', hf⟩ := h
        obtain rfl := Option.some.inj hk'
        exact hf
      rw [List.map_cons, List.map_cons, List.cons.injEq, hm, Json.str.injEq, List.forall₂_cons, hready, ih hms]

/-- **The page shows its plaintexts** once all the frames are processed exactly if the key
of every sealed row was there when the page came in. -/
theorem history_order_iff {own : Identity} {pub : Str → Str} {c : ChatController} (hc : c.Honest own pub)
    {before after : List Frame} (hkeys : ∀ g ∈ before ++ after, Publishes pub g) {f : Frame}
    (ht : f.type = .historyResult) (hkey : (historyKey f).truthy = true) {rows : List Dict}
    (hrows : f.get "messages" = .list (rows.map .dict)) {texts : List Str}
    (htexts : List.Forall₂ (Bears own pub (historyKey f).pyStr (c.model.username.getD [])) rows texts) :
    ((((c.run ((before ++ f :: after).map .frame)).model.conversation (historyKey f).pyStr).messages.map
        Message.body).take rows.length = texts.map .str) ↔
      List.Forall₂ (Openable (c.run (before.map .frame)).keyring (historyKey f).pyStr (c.model.username.getD []))
        rows texts := by
  have hsplit : c.run ((before ++ f :: after).map .frame) =
      ((c.run (before.map .frame)).step (.frame f)).run (after.map .frame) := by
    unfold run
    rw [List.map_append, List.foldl_append]
    rfl
  rw [hsplit]
  obtain ⟨hentry, hu⟩ := run_publishes before (fun g hg => hkeys g (List.mem_append_left _ hg)) hc
  rw [← hu] at htexts ⊢
  generalize c.run (before.map .frame) = entry at hentry htexts ⊢
  obtain ⟨k, hk, ha⟩ := hentry.keyring
  -- the page is loaded, whatever keys are there
  have hiter : iter ((f.get "messages").orElse (.list [])) = .ok (rows.map .dict) := by
    rw [hrows]
    cases rows with
    | nil => rfl
    | cons _ _ => rfl
  have hread : ∀ row ∈ rows.map .dict, Reads entry.keyring (historyKey f).pyStr (entry.model.username.getD []) row := by
    rw [List.forall_mem_map, hk]
    exact ((List.forall₂_and_left rows texts).mp (htexts.imp fun d text h => ⟨(h.shows ha).1, h⟩)).1
  have hloaded : ∃ ms, (entry.step (.frame f)).model = entry.model.loadHistory (historyKey f).pyStr ms ∧
      List.Forall₂ (Shown (some k) (historyKey f).pyStr entry.model.username) rows ms := by
    have hends := onFrame_historyResult entry ht hkey hiter
    unfold Ends at hends
    unfold step handle
    cases hrun : exec (onFrame f) entry with
    | mk r c' =>
      rw [hrun] at hends
      cases r with
      | error e => exact absurd hread hends.1
      | ok a =>
        obtain ⟨-, -, ms, hmodel, hms⟩ := hends
        refine ⟨ms, hmodel, (List.forall₂_map_left_iff.mp hms).imp fun d m h => ?_⟩
        obtain ⟨d', hd', hshown⟩ := h
        obtain rfl := Json.dict.inj hd'
        exact hk ▸ hshown
  obtain ⟨ms, hmodel, hms⟩ := hloaded
  have hmessages : ((entry.step (.frame f)).model.conversation (historyKey f).pyStr).messages = ms := by
    rw [hmodel]
    rw [ChatModel.conversation_loadHistory, if_pos rfl]
  -- what comes after only adds to it
  have hextends := run_keys_extends after (c := entry.step (.frame f)) fun g hg =>
    (hkeys g (List.mem_append_right _ hg)).type
  obtain ⟨extra, hextra⟩ := hextends (historyKey f).pyStr
  rw [← hextra, hmessages, hk, List.map_append, hms.length_eq, ← List.length_map (f := Message.body), List.take_left]
  exact bodies_iff ha htexts hms

end ChatController

namespace Sample

/-- What `b` sealed for a client of the identity `[1]`. -/
def fromB : Str × Str := (chars [3] ++ "ih", "n")

/-- A stored message of `b` to us, sealed between the two keys. -/
def pageRow : Dict :=
  [("id", .str "m"), ("from", .str "b"), ("body", .str fromB.1), ("n", .str fromB.2), ("ts", .int 1)]

/-- The page of the conversation with `b`, `b`'s KEY frame, and the message itself. -/
def pageOfB : Frame where
  type := .historyResult
  data := [("room", .str "b"), ("messages", .list [.dict pageRow])]
  id := .str "h"
  ts := 0

def keyOfB : Frame where
  type := .key
  data := [("user", .str "b"), ("pubkey", .str (0 :: chars [2]))]
  id := .str "k"
  ts := 0

def liveFromB : Frame where
  type := .msg
  sender := .str "b"
  target := .str "a"
  body := .str fromB.1
  nonce := .str fromB.2
  id := .str "m"
  ts := 1

/-- Two users whose keys differ. -/
def pubOf (user : Str) : Str := if user = "b" then 0 :: chars [2] else 0 :: chars [1]

/-- A client that was just started. -/
def newcomer : ChatController where
  keyring := some { identity := [1], urandom := fun _ => [] }
  connection _ := some ("i", 1)
  clock _ := 0

end Sample

section Concrete

open ChatController Sample

attribute [local instance] exchangeCrypto sampleRuntime

/-- The message that comes before the key is shown decrypted, the page that does is not. -/
theorem pageOfB_late :
    ((newcomer.run [.frame liveFromB, .frame keyOfB]).model.conversation "b").messages.map Message.body = [.str "hi"] ∧
    ((newcomer.run [.frame keyOfB, .frame pageOfB]).model.conversation "b").messages.map Message.body = [.str "hi"] ∧
    ((newcomer.run [.frame pageOfB, .frame keyOfB]).model.conversation "b").messages.map Message.body =
      [.str undecryptable] := by
  decide +kernel

theorem newcomer_honest : newcomer.Honest [1] pubOf :=
  ⟨⟨_, rfl, nofun, rfl, nofun, fun h => absurd rfl h⟩, by decide⟩

theorem pageRow_bears : Bears [1] pubOf "b" [] pageRow "hi" :=
  ⟨"m", "b", fromB.1, fromB.2, 1, ⟨by decide, by decide, by decide, by decide, by decide⟩,
    .inr ⟨by decide, [3], by decide, rfl⟩⟩

/-- The key first. -/
theorem pageOfB_order :
    (((newcomer.run [.frame keyOfB, .frame pageOfB]).model.conversation "b").messages.map Message.body).take 1 =
        [.str "hi"] ↔
      List.Forall₂ (Openable (newcomer.run [.frame keyOfB]).keyring "b" []) [pageRow] ["hi"] := by
  have hkeys : ∀ g ∈ [keyOfB] ++ [], Publishes pubOf g := by
    intro g hg
    rw [List.mem_singleton.mp hg]
    exact ⟨rfl, by decide⟩
  have hkey : (historyKey pageOfB).truthy = true := by decide
  exact history_order_iff newcomer_honest hkeys rfl hkey rfl (.cons pageRow_bears .nil)

end Concrete

end Ciphertext
