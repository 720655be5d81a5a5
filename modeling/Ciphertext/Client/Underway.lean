import Ciphertext.Client.Apart

/-!
# The messages of `p` on their way

A sealed message of `p` goes one of two ways when it comes in: into its conversation,
if `p`'s key is known, or behind the others that wait for it. `Underway p` holds on
both, and in every state in between: filed and waiting together are what came in.

`afterwards_files` is the way out: once the key is known, `_deliver_awaiting` takes the
whole list and files it in order, and the rooms released after that have nothing to do
with `p`. `exec_incomingMessage_own` is the way in: a message of `p` does nothing but
file, or nothing but wait, and which of the two is decided by the keyring alone. Both
need a recipient that can be looked at; a frame whose `to` is a number raises before
it is anywhere.
-/

namespace Ciphertext

open Act

namespace ChatController

variable [Crypto] {p : Str} {c c' : ChatController} [Runtime]

/-- What holds of `p`'s messages at every moment, whether `p`'s key is known or not. -/
structure Underway (p : Str) (c : ChatController) : Prop where
  order : c.filedFrom p ++ c.awaited p = c.receivedFrom p
  place : ∀ e ∈ c.filed, e.2.sealedBy p = true → e.1 = e.2.place p
  sorted : c.Sorted
  addressed : ∀ f ∈ c.awaited p, f.Addressed
  keyring : ∃ k, c.keyring = some k ∧ k.Consistent
  up : ∀ n, (c.connection n).isSome = true

namespace Underway

omit [Runtime] in
theorem apart (h : Underway p c) (ha : Apart p c c') (hme : c.me ≠ p) : Underway p c' := by
  obtain ⟨es, hes, hother⟩ := ha.filed
  obtain ⟨k, hk, hs⟩ := h.keyring
  obtain ⟨k', hk', hs', -⟩ := ha.keyring hme k hk hs
  refine ⟨?_, fun e he hp => ?_, ha.sorted h.sorted, ha.awaited ▸ h.addressed, ⟨k', hk', hs'⟩, ha.connection ▸ h.up⟩
  · rw [ha.filedFrom, ha.awaited, h.order, receivedFrom, receivedFrom, ha.received]
  · rw [hes] at he
    rcases List.mem_append.mp he with he | he
    · exact h.place e he hp
    · rw [hother e he] at hp
      cases hp

omit [Runtime] in
/-- What waits is of `p`. -/
theorem sealedBy (h : Underway p c) : ∀ f ∈ c.awaited p, f.sealedBy p = true := by
  intro f hf
  have hreceived : f ∈ c.receivedFrom p := h.order ▸ List.mem_append_right _ hf
  exact (List.mem_filter.mp hreceived).2

end Underway

/-- Nothing waits, and all is in order once these frames are filed. -/
structure Owing (p : Str) (frames : List Frame) (c : ChatController) : Prop where
  order : c.filedFrom p ++ frames = c.receivedFrom p
  sealedBy : ∀ f ∈ frames, f.sealedBy p = true
  none : c.awaited p = []
  place : ∀ e ∈ c.filed, e.2.sealedBy p = true → e.1 = e.2.place p
  sorted : c.Sorted
  keyring : ∃ k, c.keyring = some k ∧ k.Consistent
  up : ∀ n, (c.connection n).isSome = true

omit [Runtime] in
theorem Owing.underway {frames : List Frame} (h : Owing p frames c) (hf : Filing p frames c c') :
    Underway p c' ∧ c'.awaited p = [] := by
  have hawaited : c'.awaited p = [] := by
    rw [← h.none]
    unfold awaited
    rw [hf.awaiting]
  refine ⟨⟨?_, fun e he hp => ?_, ?_, ?_, ?_, hf.aside.connection ▸ h.up⟩, hawaited⟩
  · have hframes : (frames.map fun f => (f.place p, f)).map Prod.snd = frames := by
      rw [List.map_map]
      exact List.map_id _
    have horder := h.order
    rw [hawaited, List.append_nil, receivedFrom, hf.received]
    unfold filedFrom at horder ⊢
    rw [hf.filed, List.map_append, List.filter_append, hframes, List.filter_eq_self.mpr h.sealedBy]
    exact horder
  · rw [hf.filed] at he
    rcases List.mem_append.mp he with he | he
    · exact h.place e he hp
    · obtain ⟨f, -, rfl⟩ := List.mem_map.mp he
      rfl
  · unfold Sorted
    rw [hf.awaiting]
    exact h.sorted
  · rw [hawaited]
    exact nofun
  · obtain ⟨k, hk, hs⟩ := h.keyring
    obtain ⟨k', hk', hsame⟩ := hf.aside.keyring k hk hs
    exact ⟨k', hk', hsame.consistent⟩

omit [Crypto] [Runtime] in
theorem awaited_filter_self (c : ChatController) (p : Str) :
    ({ c with awaiting := c.awaiting.filter fun e => e.1 ≠ .str p } : ChatController).awaited p = [] := by
  have hno : (c.awaiting.filter fun e => e.1 ≠ .str p).find? (fun e => e.1 = .str p) = none := by
    rw [List.find?_eq_none]
    intro e he
    have hne : e.1 ≠ .str p := by simpa using (List.mem_filter.mp he).2
    simpa using hne
  unfold awaited
  dsimp only
  rw [hno]
  rfl

/-- **The key of `p`**, once what was held for `p` is out: everything that waited is filed. -/
theorem afterwards_files (h : Underway p c) (hme : c.me ≠ p)
    (hopens : ∀ k, c.keyring = some k → ∀ f ∈ c.awaited p, Opens k p f)
    (hsettles : c.model.SettlesAll ((c.awaited p).dropLast.map (Frame.typist p))) :
    Underway p (exec (afterwards p) c).2 ∧ (exec (afterwards p) c).2.awaited p = [] := by
  obtain ⟨k, hk, hs⟩ := h.keyring
  have howing : Owing p (c.awaited p) { c with awaiting := c.awaiting.filter fun e => e.1 ≠ .str p } :=
    ⟨h.order, h.sealedBy, awaited_filter_self c p, h.place, sorted_filter c p h.sorted, h.keyring, h.up⟩
  have hfiled : Ends (deliverAwaiting p) c (fun _ d => Underway p d ∧ d.awaited p = [] ∧ d.me = c.me)
      (fun _ d => Underway p d ∧ d.awaited p = []) := by
    have hall : ∀ f ∈ c.awaited p, f.sealedBy p = true ∧ f.Addressed ∧ Opens k p f := fun f hf =>
      ⟨h.sealedBy f hf, h.addressed f hf, hopens k hk f hf⟩
    have hfiles := deliverAll_files (c.awaited p)
      (c := { c with awaiting := c.awaiting.filter fun e => e.1 ≠ .str p }) hk hs hall hsettles
    refine ends_get (hfiles.mono (fun _ d hd => ?_) fun _ d hd => howing.underway hd)
    obtain ⟨hunder, hnone⟩ := howing.underway hd
    refine ⟨hunder, hnone, ?_⟩
    unfold me
    rw [hd.aside.username]
  refine Ends.final (P := fun d => Underway p d ∧ d.awaited p = []) ?_
  refine Ends.bind (hfiled.mono (fun _ _ h => h) fun _ _ h => h) fun _ d hd => ?_
  obtain ⟨hunder, hnone, hname⟩ := hd
  have hlast : ∀ d', Apart p d d' → Underway p d' ∧ d'.awaited p = [] := fun d' ha =>
    ⟨hunder.apart ha (hname ▸ hme), ha.awaited.trans hnone⟩
  exact ((rooms_apart (p := p)).ends d).mono (fun _ => hlast) fun _ => hlast

/-! ## A message comes in -/

section Incoming

omit [Crypto] [Runtime]

/-- It waits behind those that already wait for the key. -/
theorem awaited_await (c : ChatController) (f : Frame) (peer : Json) :
    ({ c with awaiting := await f peer c.awaiting } : ChatController).awaited p =
      if peer = .str p then c.awaited p ++ [f] else c.awaited p := by
  unfold awaited
  dsimp only
  generalize c.awaiting = d
  unfold await
  -- a key of the dictionary that equals the peer keeps its place; only a text equals the text `p`
  by_cases hany : (d.any fun e => peer.pyEq e.1) = true
  · rw [if_pos hany, List.find?_map]
    have hkeys : ((fun e : Json × List Frame => decide (e.1 = .str p)) ∘
        fun e => if peer.pyEq e.1 then (e.1, e.2 ++ [f]) else e) = fun e => decide (e.1 = .str p) := by
      funext e
      dsimp only [Function.comp]
      split
      · rfl
      · rfl
    rw [hkeys]
    cases he : d.find? fun e => decide (e.1 = .str p) with
    | none =>
      have hno : peer ≠ .str p := by
        intro hpeer
        obtain ⟨e, hmem, heq⟩ := List.any_eq_true.mp hany
        rw [hpeer, Json.pyEq_str_left] at heq
        have hne := List.find?_eq_none.mp he e hmem
        rw [heq] at hne
        exact hne (by simp)
      rw [if_neg hno]
      rfl
    | some e =>
      have hkey : e.1 = .str p := by simpa using List.find?_some he
      have heq : (peer.pyEq e.1 = true) = (peer = .str p) := by rw [hkey, Json.pyEq_str_right]
      show (if peer.pyEq e.1 = true then (e.1, e.2 ++ [f]) else e).2 = if peer = .str p then e.2 ++ [f] else e.2
      simp only [heq]
      split
      · rfl
      · rfl
  · rw [if_neg hany, List.find?_append]
    by_cases hpeer : peer = .str p
    · have hnone : d.find? (fun e => decide (e.1 = .str p)) = none := by
        rw [List.find?_eq_none]
        intro e hmem he
        refine hany (List.any_eq_true.mpr ⟨e, hmem, ?_⟩)
        rw [hpeer, Json.pyEq_str_left]
        simpa using he
      rw [hnone, if_pos hpeer, hpeer]
      simp
    · rw [if_neg hpeer]
      have hlast : [(peer, [f])].find? (fun e => decide (e.1 = .str p)) = none := by simp [hpeer]
      rw [hlast, Option.or_none]

theorem sorted_await {c : ChatController} (h : c.Sorted) (f : Frame) :
    ({ c with awaiting := await f f.peer c.awaiting } : ChatController).Sorted := by
  intro e he g hg q hq
  unfold await at he
  dsimp only at he
  split at he
  · obtain ⟨e₀, he₀, rfl⟩ := List.mem_map.mp he
    by_cases hpeer : f.peer.pyEq e₀.1 = true
    · rw [if_pos hpeer] at hg hq
      rcases List.mem_append.mp hg with hg | hg
      · exact h e₀ he₀ g hg q hq
      · rw [List.mem_singleton.mp hg]
        rw [show e₀.1 = .str q from hq, Json.pyEq_str_right] at hpeer
        exact hpeer
    · rw [if_neg hpeer] at hg hq
      exact h e₀ he₀ g hg q hq
  · rcases List.mem_append.mp he with he | he
    · exact h e he g hg q hq
    · rw [List.mem_singleton.mp he] at hg hq
      rw [List.mem_singleton.mp hg]
      exact hq

end Incoming

theorem keepAwaiting_apart {f : Frame} (hne : f.peer ≠ .str p) : Steps (Apart p) (keepAwaiting f f.peer) := by
  intro c
  unfold keepAwaiting
  rw [exec_bind, exec_get]
  refine steps_bind_at Apart.trans ?_ (fun _ => apart_moves (steps_ite (call_unit_moves rfl) (moves_pure _)))
  refine ⟨rfl, rfl, rfl, fun hs => sorted_await hs f, ⟨[], (List.append_nil _).symm, nofun⟩, ?_,
    fun _ k hk hs => ⟨k, hk, hs, rfl⟩⟩
  show ({ c with awaiting := await f f.peer c.awaiting } : ChatController).awaited p = _
  rw [awaited_await, if_neg hne]

omit [Crypto] [Runtime] in
/-- With a recipient that can be looked at, `_incoming_message` asks about the frame's peer. -/
theorem peer_eq {f : Frame} {s : Str} (hs : f.target.orElse (.str []) = .str s) :
    f.sender.orElse (if s.isRoom = true then .str s else f.sender.orElse (.str s)) = f.peer := by
  unfold Frame.peer
  rw [hs]
  unfold Json.orElse
  by_cases hsender : f.sender.truthy = true
  · rw [if_pos hsender, if_pos hsender]
  · rw [if_neg hsender, if_neg hsender]
    exact ite_self _

omit [Runtime] in
/-- What `_incoming_message` comes to. -/
theorem exec_incomingMessage {f : Frame} {s : Str} (hs : f.target.orElse (.str []) = .str s) (c : ChatController) :
    exec (incomingMessage f) c =
      let key := if s.isRoom = true then .str s else f.sender.orElse (.str s)
      if (!key.truthy) = true then (.ok (), c)
      else match c.unreadable f f.peer with
        | .error e => (.error e, c)
        | .ok true => exec (keepAwaiting f f.peer) c
        | .ok false => exec (file f key) c := by
  unfold incomingMessage
  rw [hs]
  show exec (if (!(if s.isRoom = true then Json.str s else f.sender.orElse (.str s)).truthy) = true then pure () else _) c = _
  have hpeer := peer_eq hs
  generalize (if s.isRoom = true then Json.str s else f.sender.orElse (.str s)) = key at hpeer ⊢
  dsimp only
  by_cases hkey : (!key.truthy) = true
  · rw [if_pos hkey, if_pos hkey]
    rfl
  · rw [if_neg hkey, if_neg hkey, exec_bind, exec_get, hpeer]
    dsimp only
    cases c.unreadable f f.peer with
    | error e => rfl
    | ok unreadable =>
      cases unreadable with
      | true => rfl
      | false => rfl

/-- A message of somebody else, or one in the clear. -/
theorem incomingMessage_apart {f : Frame} (htype : f.type = .msg) (hf : f.sealedBy p = false) :
    Steps (Apart p) (incomingMessage f) := by
  intro c
  cases hs : f.target.orElse (.str []) with
  | str s =>
    rw [exec_incomingMessage hs]
    generalize (if s.isRoom = true then Json.str s else f.sender.orElse (.str s)) = key
    dsimp only
    by_cases hkey : (!key.truthy) = true
    · rw [if_pos hkey]
      exact .refl p c
    · rw [if_neg hkey]
      cases hun : c.unreadable f f.peer with
      | error e => exact .refl p c
      | ok unreadable =>
        cases unreadable with
        | false => exact file_apart hf _ c
        | true =>
          -- only a sealed message waits
          have hne : f.peer ≠ .str p := by
            intro hpeer
            have hnonce : f.nonce.truthy = true := by
              by_contra hno
              unfold unreadable at hun
              simp only [Bool.not_eq_true] at hno
              simp only [hno, Bool.false_and] at hun
              split at hun
              · cases hun
              · cases hun
            unfold Frame.sealedBy at hf
            rw [htype, hnonce, hpeer] at hf
            simp at hf
          exact keepAwaiting_apart hne c
  | _ =>
    unfold incomingMessage
    rw [hs]
    exact .refl p c

omit [Runtime] in
/-- A sealed message of `p` is filed if `p`'s key is known, and waits otherwise. -/
theorem exec_incomingMessage_own {f : Frame} (hf : f.sealedBy p = true) (hto : f.Addressed) (hp : p ≠ []) {k : Keyring}
    (hk : c.keyring = some k) (hname : c.model.username ≠ some p) :
    exec (incomingMessage f) c =
      if k.knows p = true then exec (file f (.str (f.place p))) c else exec (keepAwaiting f (.str p)) c := by
  obtain ⟨s, hs⟩ := hto
  have hpeer := peer_of_sealedBy hf
  have hkey : (if s.isRoom = true then Json.str s else f.sender.orElse (.str s)) = .str (f.place p) := by
    unfold Frame.peer at hpeer
    rw [hs] at hpeer
    unfold Frame.place
    rw [hs, hpeer]
    dsimp only
    split
    · rfl
    · rfl
  -- the conversation has a name, so the handler does not drop the frame
  have hplace : f.place p ≠ [] := by
    unfold Frame.place
    rw [hs]
    dsimp only
    split
    · next hroom =>
      intro hnil
      rw [hnil] at hroom
      cases hroom
    · exact hp
  have htruthy : ∀ t : Str, t ≠ [] → (Json.str t).truthy = true := by
    intro t ht
    cases t with
    | nil => exact absurd rfl ht
    | cons => rfl
  have hnonce : f.nonce.truthy = true := by
    unfold Frame.sealedBy at hf
    simp only [Bool.and_eq_true] at hf
    exact hf.1.2
  have hother : (some (Json.str p) ≠ c.model.username.map .str) := by
    intro h
    cases hu : c.model.username with
    | none =>
      rw [hu] at h
      cases h
    | some u =>
      rw [hu] at h
      exact hname (by rw [hu, Json.str.inj (Option.some.inj h)])
  -- unreadable just if the key is unknown: the frame is sealed and not the user's own
  have hun : c.unreadable f (.str p) = .ok (!k.knows p) := by
    unfold unreadable
    rw [hk]
    simp [hnonce, htruthy p hp, hother, Keyring.knowsAny, Except.map]
  rw [exec_incomingMessage hs]
  dsimp only
  rw [hkey, htruthy _ hplace, hpeer, hun]
  cases k.knows p with
  | true => rfl
  | false => rfl

end ChatController

end Ciphertext
