import Ciphertext.Client.Sending

/-!
# Releasing and filing

`_release` sends the held texts of a target again, with the conversation put aside and
put back. If all keys are here they go out (`release_ready`, for which nothing may be
in the way of any of them: `Clear`); if one is missing they are held again, in the
order they had (`release_waits`). `release_rule` is the frame of both: whatever is
proved of the sending holds of the release, also where it raises.

`_file` and `_deliver_awaiting` put into the model what had to wait for its key. Each
frame is reported as delivered, opened and added to the conversation it belongs to, in
order (`fileAll_ends`, `deliverAwaiting_ends`); they stop at the first frame whose
opening raises, or whose sender cannot be a key of `typing`.
-/

namespace Ciphertext

open Act

namespace ChatController

section Releasing

variable [Crypto]

/-- Nothing is in the way of these messages to the target. -/
structure Clear (waiting : List Str) (target : Str) (c : ChatController) (k : Keyring) : Prop where
  calls : ∀ j < waiting.length, (c.connection (c.trace.length + j)).isSome = true
  encodes : ∀ text ∈ waiting, text.strip.isEmpty = false → Keyring.Encodes text c.me
  direct : target.isRoom = false → k.Usable target
  room : target.isRoom = true → ∀ u ∈ c.me :: c.model.roomMembers target, (k.named c.me).Usable u

/-- The first of the messages can go. -/
theorem Clear.not_blocked {text : Str} {waiting : List Str} {target : Str} {c : ChatController} {k : Keyring}
    (h : Clear (text :: waiting) target c k) (htext : text.strip.isEmpty = false) : ¬ c.Blocked k target text := by
  rintro (hnone | hbad)
  · have hup := h.calls 0 (Nat.succ_pos _)
    rw [Nat.add_zero, hnone] at hup
    cases hup
  · refine hbad ⟨?_, h.encodes text (List.mem_cons_self ..) htext⟩
    unfold Sealable
    split
    · next hroom => exact h.room hroom
    · next hroom => exact h.direct (by simpa using hroom)

/-- What is needed is not changed by what is sent. -/
theorem Sent.keyring {n : Nat} {target : Str} {c c' : ChatController} (h : Sent n target c c')
    {k : Keyring} (hk : c.keyring = some k) (hs : k.Consistent) :
    ∃ k', c'.keyring = some k' ∧ k.Along c.me k' ∧
      k'.missingKeys (c'.needs target) = k.missingKeys (c.needs target) ∧
      (target.isRoom = false → k.Same k') := by
  cases hroom : target.isRoom with
  | true =>
    obtain ⟨k', hk', halong⟩ := h.along.keyring k hk hs
    refine ⟨k', hk', halong, ?_, fun hf => by cases hf⟩
    rw [h.along.needs]
    refine Keyring.missingKeys_congr fun u hu => halong.knows ?_
    rw [needs, if_pos hroom] at hu
    simpa using (List.mem_filter.mp hu).2
  | false =>
    obtain ⟨k', hk', hsame⟩ := (h.aside hroom).keyring k hk hs
    refine ⟨k', hk', hsame.along c.me, ?_, fun _ => hsame⟩
    rw [h.along.needs]
    exact Keyring.missingKeys_congr fun u _ => hsame.knows u

/-- After it nothing is in the way of the rest. -/
theorem Clear.next {text : Str} {waiting : List Str} {target : Str} {c c' : ChatController} {k k' : Keyring}
    (h : Clear (text :: waiting) target c k) (hsent : Sent 1 target c c') (halong : k.Along c.me k')
    (hsame : target.isRoom = false → k.Same k') : Clear waiting target c' k' := by
  refine ⟨fun j hj => ?_, fun text' ht => ?_, fun ht => (hsame ht).usable (h.direct ht), fun ht u hu => ?_⟩
  · obtain ⟨xs, hxs⟩ := hsent.along.trace
    have hle := hsent.length
    have hlen : c'.trace.length = c.trace.length + xs.length := by
      rw [hxs]
      simp [callEntries]
    rw [hsent.along.connection, hlen, Nat.add_assoc]
    refine h.calls (xs.length + j) ?_
    rw [List.length_cons]
    omega
  · rw [hsent.along.me]
    exact h.encodes text' (List.mem_cons_of_mem _ ht)
  · rw [hsent.along.me]
    rw [hsent.along.me, hsent.along.roomMembers] at hu
    exact halong.usable (h.room ht u hu)

/-- All the texts that waited for a target go out, one after the other. -/
theorem sendAll_ready {target : Str} (waiting : List Str) : ∀ {c : ChatController} {k : Keyring},
    c.keyring = some k → k.Consistent → k.missingKeys (c.needs target) = [] →
    c.model.active = some target →
    Ends (waiting.forM send) c (fun _ c' => Sent waiting.length target c c')
      (fun _ c' => Sent waiting.length target c c' ∧ ¬ Clear waiting target c k) := by
  induction waiting with
  | nil => exact fun _ _ _ _ => Sent.refl 0 target _
  | cons text waiting ih =>
    intro c k hk hs hready hactive
    have hadd : (text :: waiting).length = 1 + waiting.length := by rw [List.length_cons, Nat.add_comm]
    rw [hadd]
    have hfirst : Ends (send text) c (fun _ c' => Sent 1 target c c')
        (fun _ c' => Sent 1 target c c' ∧ ¬ Clear (text :: waiting) target c k) := by
      cases htext : text.strip.isEmpty with
      | false =>
        refine (send_ready hk hs hready hactive htext).mono (fun _ _ h => h.sent) fun _ _ h => ?_
        exact ⟨h.blocked.1, fun hclear => hclear.not_blocked htext h.blocked.2⟩
      | true =>
        unfold Ends
        rw [send_blank htext]
        exact Sent.refl 1 target c
    refine Ends.bind (hfirst.mono (fun _ _ h => h) fun _ c' hx => ?_) fun _ c₁ hc₁ => ?_
    · exact ⟨hx.1.trans (Sent.refl _ target c'), hx.2⟩
    obtain ⟨k₁, hk₁, halong, hneeds, hsame⟩ := hc₁.keyring hk hs
    have hrest := ih hk₁ halong.consistent (hneeds.trans hready) (hc₁.active.trans hactive)
    refine hrest.mono (fun _ c' h => hc₁.trans h) fun _ c' h => ⟨hc₁.trans h.1, fun hclear => h.2 ?_⟩
    exact hclear.next hc₁ halong hsame

/-- The conversation on screen is not looked at. -/
theorem Sent.of_active {n : Nat} {target : Str} {c c' : ChatController} {a : Option Str}
    (h : Sent n target { c with model := { c.model with active := a } } c') :
    Sent n target c { c' with model := { c'.model with active := c.model.active } } := by
  obtain ⟨xs, hxs⟩ := h.along.trace
  refine ⟨⟨h.along.username, h.along.rooms, h.along.connection, h.along.keyring, xs, hxs⟩, h.held,
    h.awaiting, rfl, h.length, fun ht => ?_⟩
  have haside := h.aside ht
  exact ⟨haside.username, haside.rooms, haside.roster, haside.held, haside.connection, haside.keyring,
    xs, hxs⟩

/-- What waited for this target no longer does. -/
def popped (c : ChatController) (target : Str) : ChatController :=
  { c with held := PyDict.erase c.held target }

/-- The conversation put on screen, and nothing said about it. -/
def showing (c : ChatController) (active : Option Str) : ChatController :=
  { c with model := { c.model with active } }

/-- `_release` is a loop over what waited, with the target on screen meanwhile. -/
theorem release_rule {c : ChatController} {target : Str} {Q : PUnit → ChatController → Prop}
    {X : ClientErr → ChatController → Prop} (hnone : c.texts target = [] → Q ⟨⟩ (c.popped target))
    (hall : Ends ((c.texts target).forM send) ((c.popped target).showing (some target))
      (fun u c' => Q u (c'.showing c.model.active)) fun e c' => X e (c'.showing c.model.active)) :
    Ends (release target) c Q X := by
  refine ends_get ?_
  dsimp only
  have hmodify : exec (modify fun c : ChatController => c.popped target : ClientM PUnit) c =
      (.ok ⟨⟩, c.popped target) := rfl
  unfold Ends
  rw [exec_bind]
  erw [hmodify]
  show Ends _ (c.popped target) _ _
  split
  · next hempty => exact hnone (List.isEmpty_iff.mp hempty)
  · have hshown : exec (onModel fun m => { m with active := some target }) (c.popped target) =
        (.ok ⟨⟩, (c.popped target).showing (some target)) := rfl
    unfold Ends
    rw [exec_bind, hshown]
    exact Ends.bind (Ends.tryCatch hall fun e c' hx => hx) fun _ c' h => h

/-- **`_release` sends what waited**, when no key is missing; and where it raises,
something was in the way. -/
theorem release_ready {c : ChatController} {k : Keyring} {target : Str} (hk : c.keyring = some k)
    (hs : k.Consistent) (hready : k.missingKeys (c.needs target) = []) :
    Ends (release target) c (fun _ c' => Sent (c.texts target).length target (c.popped target) c')
      (fun _ c' => Sent (c.texts target).length target (c.popped target) c' ∧
        ¬ Clear (c.texts target) target (c.popped target) k) := by
  refine release_rule (fun _ => Sent.refl _ target _) ?_
  have hall := sendAll_ready (c.texts target) (c := (c.popped target).showing (some target)) hk hs hready rfl
  refine hall.mono (fun _ _ h => h.of_active) fun _ _ hx => ⟨hx.1.of_active, fun hclear => ?_⟩
  exact hx.2 ⟨hclear.calls, hclear.encodes, hclear.direct, hclear.room⟩

/-- Nothing has changed but the held texts. -/
def Beyond (c c' : ChatController) : Prop := ({ c with held := c'.held } : ChatController).Aside c'

/-- The held texts may be taken to be any. -/
theorem Aside.with_held {c c' : ChatController} (h : c.Aside c') (d : List (Str × List Str)) :
    ({ c with held := d } : ChatController).Aside { c' with held := d } :=
  ⟨h.username, h.rooms, h.roster, rfl, h.connection, h.keyring, h.trace⟩

theorem Beyond.trans {c₁ c₂ c₃ : ChatController} (h : Beyond c₁ c₂) (h' : Beyond c₂ c₃) :
    Beyond c₁ c₃ := Aside.trans _ _ _ (Aside.with_held h c₃.held) h'

/-- Changing what is held is on the way of sending. -/
theorem Beyond.along {c c' : ChatController} (h : Beyond c c') : c.Along c' :=
  ⟨h.username, h.rooms, h.connection, (Aside.along h).keyring, h.trace⟩

/-- What waited for a target is held again. -/
structure Reheld (target : Str) (c c' : ChatController) : Prop where
  beyond : Beyond c c'
  active : c'.model.active = c.model.active
  others : ∀ t, t ≠ target → PyDict.has c'.held t = PyDict.has c.held t
  nodup : (c.held.map Prod.fst).Nodup → (c'.held.map Prod.fst).Nodup

theorem Reheld.refl (target : Str) (c : ChatController) : Reheld target c c :=
  ⟨Aside.refl c, rfl, fun _ _ => rfl, id⟩

theorem Reheld.trans {target : Str} {c₁ c₂ c₃ : ChatController} (h : Reheld target c₁ c₂)
    (h' : Reheld target c₂ c₃) : Reheld target c₁ c₃ :=
  ⟨h.beyond.trans h'.beyond, h'.active.trans h.active,
    fun t ht => (h'.others t ht).trans (h.others t ht), fun hd => h'.nodup (h.nodup hd)⟩

/-- Which conversation is active does not count. -/
theorem Reheld.of_active {target : Str} {c c' : ChatController} {a : Option Str}
    (h : Reheld target { c with model := { c.model with active := a } } c') :
    Reheld target c { c' with model := { c'.model with active := c.model.active } } := by
  obtain ⟨hb, -, hothers, hnodup⟩ := h
  exact ⟨⟨hb.username, hb.rooms, hb.roster, rfl, hb.connection, hb.keyring, hb.trace⟩, rfl, hothers,
    hnodup⟩

/-- The same keys are missing after it. -/
theorem Reheld.keyring {target : Str} {c c' : ChatController} (h : Reheld target c c')
    {k : Keyring} (hk : c.keyring = some k) (hs : k.Consistent) :
    ∃ k', c'.keyring = some k' ∧ k.Same k' ∧
      k'.missingKeys (c'.needs target) = k.missingKeys (c.needs target) := by
  obtain ⟨k', hk', hsame⟩ := h.beyond.keyring k hk hs
  refine ⟨k', hk', hsame, ?_⟩
  rw [h.beyond.along.needs]
  exact Keyring.missingKeys_congr fun u _ => hsame.knows u

variable [Runtime]

/-- What is left of a text that waits is held for its target. -/
theorem Waited.reheld {k : Keyring} {target text : Str} {c c' : ChatController}
    (hk : c.keyring = some k) (h : Waited k target text c c') : Reheld target c c' := by
  obtain ⟨k', hsame, ⟨hc', xs, hxs⟩, -⟩ := h
  have hheld : c'.held = PyDict.insert c.held target ((PyDict.get c.held target).getD [] ++ [text]) := by
    rw [hc']
    rfl
  refine ⟨?_, by rw [hc']; rfl, fun t ht => ?_, fun hd => ?_⟩
  · refine ⟨by rw [hc']; rfl, by rw [hc']; rfl, by rw [hc']; rfl, rfl, by rw [hc']; rfl, ?_, xs, hxs⟩
    intro k₀ hk₀ _
    have hkeyring : c'.keyring = some k' := by rw [hc']; rfl
    have hk₀' : some k = some k₀ := hk.symm.trans hk₀
    cases hk₀'
    exact ⟨k', hkeyring, hsame⟩
  · rw [hheld]
    exact PyDict.has_insert_ne _ _ ht
  · rw [hheld]
    exact PyDict.nodup_insert hd _ _

/-- While a key is missing, sending these texts only holds them again. -/
theorem sendAll_waits {target : Str} (waiting : List Str) : ∀ {c : ChatController} {k : Keyring},
    c.keyring = some k → k.Consistent → k.missingKeys (c.needs target) ≠ [] →
    c.model.active = some target →
    Ends (waiting.forM send) c (fun _ c' => Reheld target c c') (fun _ c' => Reheld target c c') := by
  induction waiting with
  | nil => exact fun _ _ _ _ => Reheld.refl target _
  | cons text waiting ih =>
    intro c k hk hs hmissing hactive
    have hfirst : Ends (send text) c (fun _ c' => Reheld target c c') (fun _ c' => Reheld target c c') := by
      cases htext : text.strip.isEmpty with
      | false =>
        exact (send_waits hk hs hmissing hactive htext).mono (fun _ _ h => h.reheld hk)
          fun _ _ h => h.reheld hk
      | true =>
        unfold Ends
        rw [send_blank htext]
        exact Reheld.refl target c
    refine hfirst.bind fun _ c₁ hc₁ => ?_
    obtain ⟨k₁, hk₁, hsame, hneeds⟩ := hc₁.keyring hk hs
    have hrest := ih hk₁ hsame.consistent (hneeds ▸ hmissing) (hc₁.active.trans hactive)
    exact hrest.mono (fun _ _ h => hc₁.trans h) fun _ _ h => hc₁.trans h

/-- **`_release` of a target that is not ready** holds it again. -/
theorem release_waits {c : ChatController} {k : Keyring} {target : Str} (hk : c.keyring = some k)
    (hs : k.Consistent) (hmissing : k.missingKeys (c.needs target) ≠ []) :
    Ends (release target) c (fun _ c' => Reheld target c c') (fun _ c' => Reheld target c c') := by
  have hpopped : Reheld target c (c.popped target) :=
    ⟨Aside.refl _, rfl, fun t ht => PyDict.has_erase_ne _ ht, fun hd => PyDict.nodup_erase hd _⟩
  refine release_rule (fun _ => hpopped) ?_
  have hall := sendAll_waits (c.texts target) (c := (c.popped target).showing (some target)) hk hs hmissing rfl
  exact hall.mono (fun _ _ h => hpopped.trans h.of_active) fun _ _ h => hpopped.trans h.of_active

end Releasing

/-! ## Filing what came before its key -/

section Filing

variable [Crypto]

/-- Nothing makes filing the frame under this name raise. -/
def Filed (m : ChatModel) (k : Keyring) (f : Frame) (key : Str) : Prop :=
  m.Settles key (f.sender.orElse (.str "?")) ∧
    (f.nonce.truthy = true → ∀ e, (exec (Keyring.open' (f.sender.orElse (.str key))
      (f.body.orElse (.str [])) f.nonce (f.sender.orElse (.str []))) k).1 ≠ .error e)

/-- Opening the frame does not raise, or is not tried. -/
def Unseals (c : ChatController) (f : Frame) (peer : Json) : Prop :=
  ∀ k, c.keyring = some k → f.nonce.truthy = true → ∀ e,
    (exec (Keyring.open' peer (f.body.orElse (.str [])) f.nonce (f.sender.orElse (.str []))) k).1 ≠ .error e

/-- Before a frame is put into the model there is one call at most, and the keyring has
opened something. -/
structure Readied (c d : ChatController) : Prop where
  aside : c.Aside d
  eq : ∃ xs keyring, xs.length ≤ 1 ∧ d = { c with trace := c.trace ++ callEntries xs, keyring }

omit [Crypto] in
/-- A report is one call at most; it raises only for a key that is no string. -/
theorem reportDelivery_ends (f : Frame) (key : Json) (c : ChatController) :
    Ends (reportDelivery f key) c
      (fun _ d => ∃ xs, xs.length ≤ 1 ∧ d = { c with trace := c.trace ++ callEntries xs })
      (fun _ d => d = c ∧ ∀ key', key ≠ .str key') := by
  have hnothing : ∃ xs : List (Call × Bool), xs.length ≤ 1 ∧ c = { c with trace := c.trace ++ callEntries xs } :=
    ⟨[], Nat.zero_le _, by rw [callEntries, List.map_nil, List.append_nil]⟩
  have hreceipt : Ends (tryReceipt f.sender f.id "DELIVERED") c
      (fun _ d => ∃ xs, xs.length ≤ 1 ∧ d = { c with trace := c.trace ++ callEntries xs })
      (fun _ d => d = c ∧ ∀ key', key ≠ .str key') := by
    have hone : ∀ x, ∃ xs : List (Call × Bool), xs.length ≤ 1 ∧
        c.afterCall x = { c with trace := c.trace ++ callEntries xs } :=
      fun x => ⟨[(x, (c.connection c.trace.length).isSome)], Nat.le_refl _, rfl⟩
    unfold tryReceipt Ends
    rw [exec_tryCatch, exec_bind, exec_call]
    cases c.connection c.trace.length with
    | some stamp => exact hone _
    | none => exact hone _
  unfold reportDelivery
  split
  · cases key with
    | str key =>
      show Ends (if (!key.isRoom) = true then tryReceipt f.sender f.id "DELIVERED" else pure ()) c _ _
      split
      · exact hreceipt
      · exact hnothing
    | _ =>
      refine ⟨rfl, ?_⟩
      intro key' h
      cases h
  · exact hnothing

/-- The text of a live frame is had exactly if the frame unseals; only the keyring may
differ afterwards. -/
theorem plaintext_ends (f : Frame) (peer : Json) (c : ChatController) :
    Ends (plaintext f peer) c (fun _ d => c.Unseals f peer ∧ ∃ keyring, d = { c with keyring })
      (fun _ d => ¬ c.Unseals f peer ∧ ∃ keyring, d = { c with keyring }) := by
  refine ends_get ?_
  cases hk : c.keyring with
  | none => exact ⟨fun _ hk' => (nomatch hk.symm.trans hk'), none, by rw [← hk]⟩
  | some k =>
    dsimp only
    have hown : ∀ k', c.keyring = some k' → k' = k := fun k' hk' => Option.some.inj (hk'.symm.trans hk)
    split
    · next hnonce =>
      refine ⟨fun k' _ hn => ?_, some k, by rw [← hk]⟩
      rw [hn] at hnonce
      cases hnonce
    · next hnonce =>
      refine Ends.bind ((ends_onKeyring (ends_exec _ k)).mono (fun _ _ h => h) fun e d hx => ?_) fun r d hr => ?_
      · obtain ⟨k', rfl, he⟩ := hx
        exact ⟨fun h => h k hk (by simpa using hnonce) e (by rw [he]), some k', rfl⟩
      · obtain ⟨k', rfl, ho⟩ := hr
        have hunseals : c.Unseals f peer := fun k₀ hk₀ _ e he => by
          rw [hown k₀ hk₀, ho] at he
          cases he
        cases r with
        | some text => exact ⟨hunseals, some k', rfl⟩
        | none => exact ⟨hunseals, some k', rfl⟩

/-- **`_file`** puts the frame into the model, if opening it does not raise. -/
theorem file_rule {f : Frame} {key : Str} {c : ChatController} {Q : Unit → ChatController → Prop}
    {X : ClientErr → ChatController → Prop}
    (hX : ∀ e d, c.Readied d → ¬ c.Unseals f (f.sender.orElse (.str key)) → X e d)
    (hadd : ∀ body ts d, c.Readied d → c.Unseals f (f.sender.orElse (.str key)) → Ends (addFrame f key body ts) d Q X) :
    Ends (file f (.str key)) c Q X := by
  refine Ends.bind (((reportDelivery_ends f (.str key) c).and_steps (reportDelivery_aside f _)).mono
    (fun _ _ h => h) fun _ _ h => absurd rfl (h.2.2 key)) fun _ c₁ hc₁ => ?_
  obtain ⟨haside, xs, hxs, rfl⟩ := hc₁
  refine Ends.bind (((plaintext_ends f (f.sender.orElse (.str key)) _).and_steps (plaintext_aside f _)).mono
    (fun _ _ h => h) fun e d h => ?_) fun body c₂ hc₂ => ?_
  · obtain ⟨haside', hnot, keyring, rfl⟩ := h
    exact hX e _ ⟨haside.trans _ _ _ haside', xs, keyring, hxs, rfl⟩ hnot
  · obtain ⟨haside', hunseals, keyring, rfl⟩ := hc₂
    have htime : ∀ d, Ends (timeOf f.ts) d (fun _ d' => d' = d) X := by
      intro d
      unfold timeOf
      split
      · rfl
      · rfl
    refine (htime _).bind fun ts c₃ hc₃ => ?_
    rw [hc₃]
    exact hadd body ts _ ⟨haside.trans _ _ _ haside', xs, keyring, hxs, rfl⟩ hunseals

omit [Crypto] in
/-- Adding raises where the typing does not settle. -/
theorem addFrame_ends (f : Frame) (key : Str) (body : Json) (ts : Int) (c : ChatController) :
    Ends (addFrame f key body ts) c
      (fun _ c' => c'.trace = c.trace ∧
        c'.model.typing = (c.model.setTyping key (f.sender.orElse (.str "?")) false).1.typing)
      (fun _ _ => ¬ c.model.Settles key (f.sender.orElse (.str "?"))) := by
  refine Ends.bind (ends_modify (Q := fun _ c' => c'.trace = c.trace ∧ c'.model = c.model) ⟨rfl, rfl⟩)
    fun _ c₁ hc₁ => ends_get ?_
  dsimp only
  rw [ChatModel.addMessage_end _ key rfl, hc₁.2]
  by_cases h : c.model.Settles key (f.sender.orElse (.str "?"))
  · rw [if_pos h]
    exact ⟨hc₁.1, ChatModel.typing_addMessage c.model key rfl⟩
  · rw [if_neg h]
    exact h

/-- **`_file` raises only on a frame that is not to be opened**, or where the typing does
not settle, and makes one call at most. -/
theorem file_ends {c : ChatController} {k : Keyring} (hk : c.keyring = some k) (f : Frame) (key : Str) :
    Ends (file f (.str key)) c
      (fun _ c' => c.Aside c' ∧ c'.trace.length ≤ c.trace.length + 1 ∧
        c'.model.typing = (c.model.setTyping key (f.sender.orElse (.str "?")) false).1.typing)
      (fun _ c' => c.Aside c' ∧ ¬ Filed c.model k f key) := by
  refine Ends.and_steps (file_rule (fun _ _ _ hnot hfiled => hnot fun k' hk' => ?_) fun body ts d hd _ => ?_)
    (file_aside f (.str key))
  · obtain rfl := Option.some.inj (hk'.symm.trans hk)
    exact hfiled.2
  · obtain ⟨xs, keyring, hxs, rfl⟩ := hd.eq
    refine (addFrame_ends f key body ts _).mono (fun _ c' h => ⟨?_, h.2⟩) fun _ _ h hfiled => h hfiled.1
    rw [h.1]
    simpa [callEntries] using hxs

/-- The frames that waited for a key, one after the other. -/
theorem fileAll_ends (user : Str) (frames : List Frame) : ∀ {c : ChatController} {k : Keyring},
    c.keyring = some k → k.Consistent →
    Ends (frames.forM (deliverOne user)) c
      (fun _ c' => c.Aside c' ∧ c'.trace.length ≤ c.trace.length + frames.length)
      (fun _ c' => c.Aside c' ∧
        ¬ ((∀ f ∈ frames, Fileable k user f) ∧ c.model.SettlesAll (frames.map (Frame.typist user)))) := by
  induction frames with
  | nil => exact fun _ _ => ⟨Aside.refl _, Nat.le_refl _⟩
  | cons f frames ih =>
    intro c k hk hs
    -- one frame: it can be filed, and its sender can be taken out of the typing set
    have hone : Ends (deliverOne user f) c
        (fun _ c' => c.Aside c' ∧ c'.trace.length ≤ c.trace.length + 1 ∧
          c'.model.typing = (c.model.setTyping (f.typist user).1 (f.typist user).2 false).1.typing)
        (fun _ c' => c.Aside c' ∧ ¬ (Fileable k user f ∧ c.model.Settles (f.typist user).1 (f.typist user).2)) := by
      unfold deliverOne
      cases ht : f.target.orElse (.str []) with
      | str s =>
        have hplace : f.place user = if s.isRoom then s else user := by
          unfold Frame.place
          rw [ht]
        show Ends (file f (if s.isRoom = true then .str s else .str user)) c _ _
        rw [show (if s.isRoom = true then Json.str s else .str user) = .str (f.place user) by
          rw [hplace]; split <;> rfl]
        refine (file_ends hk f _).mono (fun _ _ h => h) fun _ _ h => ⟨h.1, fun hfile => h.2 ⟨hfile.2, ?_⟩⟩
        obtain ⟨s', hs', hopen⟩ := hfile.1
        rw [ht] at hs'
        cases hs'
        rw [hplace]
        exact hopen
      | _ =>
        refine ⟨Aside.refl c, fun hfile => ?_⟩
        obtain ⟨s', hs', -⟩ := hfile.1
        rw [ht] at hs'
        cases hs'
    refine Ends.bind (hone.mono (fun _ _ h => h) fun _ _ h => ⟨h.1, fun hall => h.2 ?_⟩) fun _ c₁ hc₁ => ?_
    · exact ⟨hall.1 f (List.mem_cons_self ..), hall.2.1⟩
    · obtain ⟨k₁, hk₁, hsame⟩ := hc₁.1.keyring k hk hs
      -- filing derives keys but changes none, so the others can be opened as before
      have hkeep : ∀ g, Fileable k user g → Fileable k₁ user g := by
        intro g hg
        obtain ⟨s, htarget, hopen⟩ := hg
        refine ⟨s, htarget, fun hn e => ?_⟩
        rw [hsame.open' hs]
        exact hopen hn e
      refine (ih hk₁ hsame.consistent).mono (fun _ c' h => ⟨Aside.trans _ _ _ hc₁.1 h.1, ?_⟩)
        fun _ c' h => ⟨Aside.trans _ _ _ hc₁.1 h.1, fun hall => h.2 ⟨fun g hg => ?_, ?_⟩⟩
      · have h₁ := hc₁.2.1
        have h₂ := h.2
        rw [List.length_cons]
        omega
      · exact hkeep g (hall.1 g (List.mem_cons_of_mem _ hg))
      · exact hall.2.2.of_typing hc₁.2.2

/-- Filing what awaited a user leaves everything else alone; it is cut short only by a frame
that cannot be filed or a typing name that cannot be sorted. -/
theorem deliverAwaiting_ends {c : ChatController} {k : Keyring} (hk : c.keyring = some k) (hs : k.Consistent)
    (user : Str) :
    Ends (deliverAwaiting user) c
      (fun _ c' => c.Aside c' ∧ c'.trace.length ≤ c.trace.length + (c.awaited user).length)
      (fun _ c' => c.Aside c' ∧ ¬ ((∀ f ∈ c.awaited user, Fileable k user f) ∧
        c.model.SettlesAll ((c.awaited user).map (Frame.typist user)))) := by
  refine Ends.and_steps ?_ (deliverAwaiting_aside user)
  refine ends_get ?_
  have hall := fileAll_ends user (c.awaited user)
    (c := { c with awaiting := c.awaiting.filter (fun e => e.1 ≠ .str user) }) hk hs
  exact hall.mono (fun _ _ h => h.2) fun _ _ h => h.2

end Filing

end ChatController

end Ciphertext
