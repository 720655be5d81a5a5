import Ciphertext.Client.RoomSealing
import Ciphertext.Client.Waiting

/-!
# What becomes of the held texts

`_release` takes the list of held texts away and then sends them one by one, and
any of these may raise: a text that cannot be encoded, a key that is none, a
connection that is down. What was taken away and not yet sent is then in no list any
more.

`HandedOver` follows the calls up to the one that raises. While every key is here the
texts are handed over one by one (`release_released_ready`); while one is missing each is
held again and its keys are asked for (`release_released_waits`), and a GET_KEY that
raises ends it in the same way. `release_released` says for both cases which texts have
been handed to the connection, and which are held again, when `_release` returns or
raises. When that is all of them is the matter of `KeyReleases`.
-/

namespace Ciphertext

open Act

/-- Whom a message is for. -/
def Call.addressee : Call → Option Str
  | .message target .. => some target
  | _ => none

namespace ChatController

/-! ## Handing over -/

/-- The calls that hand over these texts, up to one that raises. The first is made when
the trace has `i` entries. A text that cannot be sealed ends it without a call. -/
inductive HandedOver (up : Nat → Bool) (seals : Str → Prop) (carries : Str → Call → Prop) :
    Nat → List Str → List (Call × Bool) → Prop
  | done (i : Nat) : HandedOver up seals carries i [] []
  | through {i : Nat} {text : Str} {texts : List Str} {x : Call} {xs : List (Call × Bool)} (hseals : seals text)
      (hup : up i = true) (hx : carries text x) (rest : HandedOver up seals carries (i + 1) texts xs) :
      HandedOver up seals carries i (text :: texts) ((x, true) :: xs)
  | lost {i : Nat} {text : Str} {texts : List Str} {x : Call} (hseals : seals text) (hdown : up i = false)
      (hx : carries text x) : HandedOver up seals carries i (text :: texts) [(x, false)]
  | raised {i : Nat} {text : Str} {texts : List Str} (hbad : ¬ seals text) :
      HandedOver up seals carries i (text :: texts) []

/-- The calls that count as handed over: `lax` counts one that raised. -/
def counted (lax : Bool) (xs : List (Call × Bool)) : List Call :=
  (xs.filter fun x => x.2 || lax).map Prod.fst

section HandedOver

variable {up : Nat → Bool} {seals : Str → Prop} {carries : Str → Call → Prop} {i : Nat} {texts : List Str}
  {xs : List (Call × Bool)}

/-- It depends only on which texts can be sealed and which calls carry them. -/
theorem HandedOver.congr {seals' : Str → Prop} {carries' : Str → Call → Prop}
    (h : HandedOver up seals carries i texts xs) (hs : ∀ text, seals text ↔ seals' text)
    (hc : ∀ text x, carries text x → carries' text x) : HandedOver up seals' carries' i texts xs := by
  induction h with
  | done i => exact .done i
  | through hseals hup hx _ ih => exact .through ((hs _).mp hseals) hup (hc _ _ hx) ih
  | lost hseals hdown hx => exact .lost ((hs _).mp hseals) hdown (hc _ _ hx)
  | raised hbad => exact .raised fun h => hbad ((hs _).mpr h)

/-- Each call carries one of the texts. -/
theorem HandedOver.carries_of_mem (h : HandedOver up seals carries i texts xs) {x : Call × Bool} (hx : x ∈ xs) :
    ∃ text, carries text x.1 := by
  induction h with
  | done => cases hx
  | through _ hup hc _ ih =>
    cases hx with
    | head => exact ⟨_, hc⟩
    | tail _ hx => exact ih hx
  | lost _ hdown hc =>
    rw [List.mem_singleton.mp hx]
    exact ⟨_, hc⟩
  | raised => cases hx

/-- Those that count carry the first of the texts, in order. -/
theorem HandedOver.counted (h : HandedOver up seals carries i texts xs) (lax : Bool) :
    List.Forall₂ carries (texts.take (counted lax xs).length) (counted lax xs) := by
  induction h with
  | done => exact .nil
  | through _ hup hx _ ih => exact .cons hx ih
  | lost _ hdown hx =>
    cases lax with
    | true => exact .cons hx .nil
    | false => exact .nil
  | raised => exact .nil

/-- There are no more calls than texts. -/
theorem HandedOver.counted_le (h : HandedOver up seals carries i texts xs) (lax : Bool) :
    (ChatController.counted lax xs).length ≤ texts.length := by
  have hlen := (h.counted lax).length_eq
  rw [List.length_take] at hlen
  omega

/-- And they are all of them if every text can be sealed and the connection is up for
long enough. -/
theorem HandedOver.counted_length (h : HandedOver up seals carries i texts xs) (lax : Bool) :
    (ChatController.counted lax xs).length = texts.length ↔
      (∀ text ∈ texts, seals text) ∧ ∀ j, j + lax.toNat < texts.length → up (i + j) = true := by
  induction h with
  | done => exact iff_of_true rfl ⟨nofun, fun j hj => absurd hj (Nat.not_lt_zero _)⟩
  | @through i text texts x xs hseals hup hx rest ih =>
    show (ChatController.counted lax xs).length + 1 = texts.length + 1 ↔ _
    rw [Nat.add_right_cancel_iff, ih]
    constructor
    · intro hall
      refine ⟨List.forall_mem_cons.mpr ⟨hseals, hall.1⟩, fun j hj => ?_⟩
      cases j with
      | zero => exact hup
      | succ j =>
        rw [List.length_cons] at hj
        rw [show i + (j + 1) = i + 1 + j by omega]
        exact hall.2 j (by omega)
    · intro hall
      refine ⟨fun text ht => hall.1 text (List.mem_cons_of_mem _ ht), fun j hj => ?_⟩
      have hup' := hall.2 (j + 1) (by rw [List.length_cons]; omega)
      rwa [show i + (j + 1) = i + 1 + j by omega] at hup'
  | @lost i text texts x hseals hdown hx =>
    -- the call at `i` raised, and counts only as the last one
    have hfirst : (0 + lax.toNat < (text :: texts).length → up (i + 0) = true) →
        ¬ lax.toNat < (text :: texts).length := by
      intro h hlt
      rw [Nat.zero_add, Nat.add_zero] at h
      rw [h hlt] at hdown
      cases hdown
    cases lax with
    | true =>
      show 1 = texts.length + 1 ↔ _
      constructor
      · intro hlen
        have hnil : texts = [] := List.eq_nil_of_length_eq_zero (by omega)
        rw [hnil]
        refine ⟨List.forall_mem_cons.mpr ⟨hseals, nofun⟩, fun j hj => ?_⟩
        have : Bool.toNat true = 1 := rfl
        rw [List.length_singleton] at hj
        omega
      · intro hall
        have hlen := hfirst (hall.2 0)
        rw [List.length_cons] at hlen
        have : Bool.toNat true = 1 := rfl
        omega
    | false =>
      show 0 = texts.length + 1 ↔ _
      refine iff_of_false (by omega) fun hall => hfirst (hall.2 0) ?_
      rw [List.length_cons]
      exact Nat.succ_pos _
  | @raised i text texts hbad =>
    show 0 = texts.length + 1 ↔ _
    exact iff_of_false (by omega) fun hall => hbad (hall.1 text (List.mem_cons_self ..))

end HandedOver

/-- Blank texts are not sent. -/
def typed (texts : List Str) : List Str := texts.filter fun text => !text.strip.isEmpty

/-- A blank text is passed over, -/
theorem typed_blank {text : Str} (h : text.strip.isEmpty = true) (texts : List Str) : typed (text :: texts) = typed texts :=
  List.filter_cons_of_neg (by rw [h]; decide)

/-- and any other is sent. -/
theorem typed_cons {text : Str} (h : text.strip.isEmpty = false) (texts : List Str) :
    typed (text :: texts) = text :: typed texts := List.filter_cons_of_pos (by rw [h]; rfl)

/-- Where none is blank, all are. -/
theorem typed_eq {texts : List Str} (h : ∀ text ∈ texts, text.strip.isEmpty = false) : typed texts = texts :=
  List.filter_eq_self.mpr fun text ht => by rw [h text ht]; rfl

theorem typed_length_le (texts : List Str) : (typed texts).length ≤ texts.length := List.length_filter_le ..

/-- Only then. -/
theorem typed_full {texts : List Str} (h : texts.length ≤ (typed texts).length) :
    ∀ text ∈ texts, text.strip.isEmpty = false := by
  have heq : typed texts = texts := List.filter_sublist.eq_of_length_le h
  intro text ht
  have hp := List.filter_eq_self.mp heq text ht
  simpa using hp

section Sending

variable [Crypto] {c c' : ChatController} {k k' : Keyring} {target : Str}

/-- A blank text makes no difference to the loop. -/
theorem sendAll_blank {text : Str} {waiting : List Str} {Q : PUnit → ChatController → Prop}
    {X : ClientErr → ChatController → Prop} (htext : text.strip.isEmpty = true) (h : Ends (waiting.forM send) c Q X) :
    Ends ((text :: waiting).forM send) c Q X := by
  have hblank : Ends (send text) c (fun _ c' => c' = c) X := by
    unfold Ends
    rw [send_blank htext]
  refine hblank.bind fun _ c' hc' => ?_
  rw [hc']
  exact h

/-- What is carried is told by the public keys alone. -/
theorem Carries.along (h : c.Along c') (hk : k.Along c.me k') (text : Str) (x : Call) :
    c'.Carries k' target text x ↔ c.Carries k target text x := by
  have hsealed : ∀ e, (k'.named c.me).SealedUnder text c.me e ↔ (k.named c.me).SealedUnder text c.me e := by
    intro e
    unfold Keyring.SealedUnder
    rw [hk.named_shared]
  have henvelopes : ∀ members envelopes, k'.Envelopes members text c.me envelopes ↔
      k.Envelopes members text c.me envelopes := fun members envelopes =>
    ⟨fun he => ⟨he.names, fun e hmem => (hsealed e).mp (he.sealed e hmem)⟩,
      fun he => ⟨he.names, fun e hmem => (hsealed e).mpr (he.sealed e hmem)⟩⟩
  unfold Carries
  simp only [h.me, h.roomMembers, hsealed, henvelopes]

/-- A call that carries a text is for its target. -/
theorem Carries.addressee {text : Str} {x : Call} (h : c.Carries k target text x) : x.addressee = some target := by
  unfold Carries at h
  split at h
  · obtain ⟨envelopes, rfl, -⟩ := h
    rfl
  · obtain ⟨sealed, rfl, -⟩ := h
    rfl

/-- What can be sealed after one message could be sealed before it. -/
theorem Sealable.next (h : c.Sealable k target) (hsent : Sent 1 target c c') (hk : k.Along c.me k')
    (hsame : target.isRoom = false → k.Same k') : c'.Sealable k' target := by
  unfold Sealable at h ⊢
  rw [hsent.along.me, hsent.along.roomMembers]
  cases hroom : target.isRoom with
  | true =>
    rw [hroom, if_pos rfl] at h
    exact fun u hu => hk.usable (h u hu)
  | false =>
    rw [hroom, if_neg (by decide)] at h
    exact (hsame hroom).usable h

/-- Where one text has been sealed, only the other texts decide. -/
theorem Handing.seals_iff {text : Str} (h : c.Handing k target text true c') (hk : k.Along c.me k')
    (hsame : target.isRoom = false → k.Same k') (other : Str) : c'.Seals k' target other ↔ c.Seals k target other := by
  unfold Seals
  rw [iff_true_intro h.seals.1, iff_true_intro (h.seals.1.next h.sent hk hsame), h.sent.along.me]

/-- The texts have been handed over one after the other, up to a call that raised. -/
def Hands (c : ChatController) (k : Keyring) (target : Str) (texts : List Str) (c' : ChatController) : Prop :=
  ∃ xs, c'.trace = c.trace ++ callEntries xs ∧ HandedOver (fun i => (c.connection i).isSome) (c.Seals k target)
    (c.Carries k target) c.trace.length (typed texts) xs

/-- The loop of `_release` over texts that are ready. -/
theorem sendAll_hands (waiting : List Str) : ∀ {c : ChatController} {k : Keyring}, c.keyring = some k → k.Consistent →
    k.missingKeys (c.needs target) = [] → c.model.active = some target →
    Ends (waiting.forM send) c (fun _ c' => c.Hands k target waiting c') (fun _ c' => c.Hands k target waiting c') := by
  induction waiting with
  | nil => exact fun _ _ _ _ => ⟨[], (List.append_nil _).symm, .done _⟩
  | cons text waiting ih =>
    intro c k hk hs hready hactive
    cases htext : text.strip.isEmpty with
    | true =>
      refine sendAll_blank htext ?_
      unfold Hands
      rw [typed_blank htext]
      exact ih hk hs hready hactive
    | false =>
      refine ((send_ready hk hs hready hactive htext).mono (fun _ _ h => h) fun _ c' hx => ?_).bind fun _ c₁ hc₁ => ?_
      · unfold Hands
        rw [typed_cons htext]
        cases hx with
        | inl hx => exact ⟨[], hx.2.2.trans (List.append_nil _).symm, .raised hx.2.1⟩
        | inr hx =>
          obtain ⟨x, hcarries, htrace⟩ := hx.call
          exact ⟨[(x, false)], htrace, .lost hx.seals hx.up hcarries⟩
      · obtain ⟨x, hcarries, htrace⟩ := hc₁.call
        obtain ⟨k₁, hk₁, halong, hneeds, hsame⟩ := hc₁.sent.keyring hk hs
        have hrest := ih hk₁ halong.consistent (hneeds.trans hready) (hc₁.sent.active.trans hactive)
        have hdone : ∀ c', c₁.Hands k₁ target waiting c' → c.Hands k target (text :: waiting) c' := by
          intro c' h
          obtain ⟨xs, htrace', hxs⟩ := h
          refine ⟨(x, true) :: xs, ?_, ?_⟩
          · rw [htrace', htrace, List.append_assoc]
            rfl
          · rw [typed_cons htext]
            refine .through hc₁.seals hc₁.up hcarries ?_
            have hlen : c₁.trace.length = c.trace.length + 1 := by rw [htrace, List.length_append]; rfl
            rw [hc₁.sent.along.connection, hlen] at hxs
            exact hxs.congr (hc₁.seals_iff halong hsame) fun text x => (Carries.along hc₁.sent.along halong text x).mp
        exact hrest.mono (fun _ => hdone) fun _ => hdone

end Sending

/-! ## Holding again -/

/-- Calls have been made since, and no message among them. -/
def Wordless (c c' : ChatController) : Prop :=
  ∃ xs, c'.trace = c.trace ++ callEntries xs ∧ ∀ x ∈ xs, x.1.addressee = none

theorem Wordless.refl (c : ChatController) : Wordless c c := ⟨[], (List.append_nil _).symm, nofun⟩

theorem Wordless.trans (c₁ c₂ c₃ : ChatController) (h : Wordless c₁ c₂) (h' : Wordless c₂ c₃) : Wordless c₁ c₃ := by
  obtain ⟨xs, htrace, hxs⟩ := h
  obtain ⟨ys, htrace', hys⟩ := h'
  refine ⟨xs ++ ys, ?_, fun x hx => (List.mem_append.mp hx).elim (hxs x) (hys x)⟩
  rw [htrace', htrace, List.append_assoc]
  unfold callEntries
  rw [List.map_append]

/-- A call for nobody is no message. -/
theorem call_wordless {x : Call} (hx : x.addressee = none) : Steps Wordless (call x) := by
  intro c
  rw [exec_call]
  exact ⟨[(x, (c.connection c.trace.length).isSome)], rfl, fun y hy => by rw [List.mem_singleton.mp hy]; exact hx⟩

/-- A change of something else than the trace. -/
theorem modify_wordless {f : ChatController → ChatController} (hf : ∀ c, (f c).trace = c.trace) :
    Steps Wordless (modify f : ClientM PUnit) :=
  steps_modify fun c => ⟨[], (hf c).trans (List.append_nil _).symm, nofun⟩

/-- Holding a text asks for keys, and sends nothing. -/
theorem hold_wordless (target text : Str) (fetch : List Str) : Steps Wordless (hold target text fetch) := by
  refine steps_get fun c => ?_
  dsimp only
  refine steps_bind_at Wordless.trans (modify_wordless (fun _ => rfl) c) fun _ => ?_
  refine steps_ite (steps_forM Wordless.refl Wordless.trans fun user => ?_) (steps_pure Wordless.refl _)
  exact Steps.bind Wordless.trans (call_wordless rfl) fun _ => steps_pure Wordless.refl _

/-- The keys that are missing can be asked for. -/
def Asked (c : ChatController) (fetch : List Str) : Prop :=
  ∀ j < fetch.length, (c.connection (c.trace.length + j)).isSome = true

/-- The keys are asked for one by one, up to a request that raises. -/
theorem requests_asked (fetch : List Str) : ∀ c : ChatController,
    Ends (fetch.forM fun user => do let _ ← call (.getKey (.str user))) c
      (fun _ _ => c.Asked fetch) (fun _ _ => ¬ c.Asked fetch) := by
  induction fetch with
  | nil => exact fun c j hj => absurd hj (Nat.not_lt_zero _)
  | cons user fetch ih =>
    intro c
    have hcall : Ends (do let _ ← call (.getKey (.str user)) : ClientM Unit) c
        (fun _ c' => (c.connection c.trace.length).isSome = true ∧ c' = c.afterCall (.getKey (.str user)))
        (fun _ _ => ¬ c.Asked (user :: fetch)) := by
      unfold Ends
      rw [exec_bind, exec_call]
      cases hc : c.connection c.trace.length with
      | some stamp => exact ⟨rfl, rfl⟩
      | none =>
        intro hall
        have hup := hall 0 (Nat.succ_pos _)
        rw [Nat.add_zero, hc] at hup
        cases hup
    refine hcall.bind fun _ c₁ hc₁ => ?_
    obtain ⟨hup, rfl⟩ := hc₁
    have hlen : (c.afterCall (.getKey (.str user))).trace.length = c.trace.length + 1 := by simp [afterCall]
    have hnext : (c.afterCall (.getKey (.str user))).Asked fetch ↔ c.Asked (user :: fetch) := by
      unfold Asked
      rw [hlen]
      constructor
      · intro hall j hj
        cases j with
        | zero => exact hup
        | succ j =>
          rw [show c.trace.length + (j + 1) = c.trace.length + 1 + j by omega]
          exact hall j (by rw [List.length_cons] at hj; omega)
      · intro hall j hj
        rw [show c.trace.length + 1 + j = c.trace.length + (j + 1) by omega]
        exact hall (j + 1) (by rw [List.length_cons]; omega)
    exact (ih _).mono (fun _ _ h => hnext.mp h) fun _ _ h => fun hall => h (hnext.mpr hall)

/-- One more text for a target: nobody is asked again. -/
theorem exec_hold_again {c : ChatController} {target : Str} (h : PyDict.has c.held target = true) (text : Str)
    (fetch : List Str) : exec (hold target text fetch) c = (.ok (), c.holding target text) := by
  unfold hold
  rw [exec_bind, exec_get]
  dsimp only
  rw [h]
  rfl

section Holding

variable [Runtime]

/-- The first one: it is held whether the keys can be asked for or not. -/
theorem hold_first {c : ChatController} {target : Str} (h : PyDict.has c.held target = false) (text : Str)
    (fetch : List Str) :
    Ends (hold target text fetch) c (fun _ c' => c'.held = (c.holding target text).held ∧ c.Asked fetch)
      (fun _ c' => c'.held = (c.holding target text).held ∧ ¬ c.Asked fetch) := by
  have hends : Ends (hold target text fetch) c (fun _ _ => c.Asked fetch) (fun _ _ => ¬ c.Asked fetch) := by
    unfold hold
    refine ends_get ?_
    dsimp only
    rw [h]
    refine ends_modify_bind ?_
    exact requests_asked fetch (c.holding target text)
  refine ((hold_ends c target text fetch).and hends).mono (fun _ c' hq => ⟨?_, hq.2⟩) fun _ c' hx => ⟨?_, hx.2⟩
  · rw [hq.1.1.same]
  · rw [hx.1.1.same]

/-- What is held again, and what it took. -/
structure Refilled (target : Str) (texts : List Str) (c c' : ChatController) : Prop where
  wordless : Wordless c c'
  others : ∀ t, t ≠ target → c'.texts t = c.texts t
  texts : c'.texts target = c.texts target ++ texts

omit [Runtime] in
/-- One text has been held, and nothing sent. -/
theorem refilled_holding (c : ChatController) (target text : Str) {c' : ChatController}
    (hheld : c'.held = (c.holding target text).held) (hw : Wordless c c') : Refilled target [text] c c' := by
  refine ⟨hw, fun t ht => ?_, ?_⟩
  · rw [ChatController.texts, hheld]
    show (PyDict.get (PyDict.insert _ _ _) t).getD [] = _
    rw [PyDict.get_insert_ne _ _ ht]
    rfl
  · rw [ChatController.texts, hheld]
    show (PyDict.get (PyDict.insert _ _ _) target).getD [] = _
    rw [PyDict.get_insert_self]
    rfl

variable [Crypto]

omit [Runtime] in
/-- Once a text is held for the target, the others join it. -/
theorem sendAll_joins (waiting : List Str) : ∀ {c : ChatController} {k : Keyring} {target : Str},
    c.keyring = some k → k.Consistent → k.missingKeys (c.needs target) ≠ [] → c.model.active = some target →
    PyDict.has c.held target = true →
    Ends (waiting.forM send) c (fun _ c' => Refilled target (typed waiting) c c') (fun _ _ => False) := by
  induction waiting with
  | nil => exact fun _ _ _ _ _ => ⟨.refl _, fun _ _ => rfl, (List.append_nil _).symm⟩
  | cons text waiting ih =>
    intro c k target hk hs hmissing hactive hheld
    cases htext : text.strip.isEmpty with
    | true =>
      refine sendAll_blank htext ?_
      rw [typed_blank htext]
      exact ih hk hs hmissing hactive hheld
    | false =>
      obtain ⟨k', hsame, hsend⟩ := send_holds hk hs hmissing hactive htext
      have hfirst : Ends (send text) c
          (fun _ c' => c' = ({ c with keyring := some k' } : ChatController).holding target text) (fun _ _ => False) := by
        unfold Ends
        rw [hsend, exec_hold_again (c := { c with keyring := some k' }) hheld]
      refine hfirst.bind fun _ c₁ hc₁ => ?_
      have hmissing' : k'.missingKeys (c₁.needs target) ≠ [] := by
        have hneeds : c₁.needs target = c.needs target := by rw [hc₁]; rfl
        rw [hneeds, Keyring.missingKeys_congr fun u _ => hsame.knows u]
        exact hmissing
      have hrefilled : Refilled target [text] c c₁ :=
        refilled_holding c target text (by rw [hc₁]; rfl) (by rw [hc₁]; exact .refl c)
      have hrest := ih (c := c₁) (k := k') (by rw [hc₁]; rfl) hsame.consistent hmissing'
        (by rw [hc₁]; exact hactive) (by rw [hc₁]; exact PyDict.has_insert_self ..)
      refine hrest.mono (fun _ c' h => ⟨hrefilled.wordless.trans _ _ _ h.wordless, fun t ht => ?_, ?_⟩) fun _ _ hx => hx
      · exact (h.others t ht).trans (hrefilled.others t ht)
      · rw [h.texts, hrefilled.texts, typed_cons htext, List.append_assoc]
        rfl

/-- The loop of `_release` over texts that are not ready: the first is held, and the
others if the missing keys can be asked for. -/
theorem sendAll_holds (waiting : List Str) {c : ChatController} {k : Keyring} {target : Str}
    (hk : c.keyring = some k) (hs : k.Consistent) (hmissing : k.missingKeys (c.needs target) ≠ [])
    (hactive : c.model.active = some target) (hheld : PyDict.has c.held target = false) :
    Ends (waiting.forM send) c
      (fun _ c' => Refilled target (typed waiting) c c' ∧
        (typed waiting = [] ∨ c.Asked (k.missingKeys (c.needs target))))
      (fun _ c' => Refilled target ((typed waiting).take 1) c c' ∧ ¬ c.Asked (k.missingKeys (c.needs target))) := by
  induction waiting with
  | nil => exact ⟨⟨.refl _, fun _ _ => rfl, (List.append_nil _).symm⟩, .inl rfl⟩
  | cons text waiting ih =>
    cases htext : text.strip.isEmpty with
    | true =>
      refine sendAll_blank htext ?_
      rw [typed_blank htext]
      exact ih
    | false =>
      obtain ⟨k', hsame, hsend⟩ := send_holds hk hs hmissing hactive htext
      have hfirst : Ends (send text) c
          (fun _ c' => Called (({ c with keyring := some k' } : ChatController).holding target text) c' ∧
            Refilled target [text] c c' ∧ c.Asked (k.missingKeys (c.needs target)))
          (fun _ c' => Refilled target [text] c c' ∧ ¬ c.Asked (k.missingKeys (c.needs target))) := by
        have hhold := ((hold_ends { c with keyring := some k' } target text (k.missingKeys (c.needs target))).and
          (hold_first (c := { c with keyring := some k' }) hheld text (k.missingKeys (c.needs target)))).and_steps
            (hold_wordless target text _)
        have hrefilled : ∀ {c'}, Wordless ({ c with keyring := some k' } : ChatController) c' →
            c'.held = (({ c with keyring := some k' } : ChatController).holding target text).held →
            Refilled target [text] c c' := fun hw hheld => refilled_holding c target text hheld hw
        unfold Ends
        rw [hsend]
        exact hhold.mono (fun _ _ h => ⟨h.2.1.1, hrefilled h.1 h.2.2.1, h.2.2.2⟩)
          fun _ _ h => ⟨hrefilled h.1 h.2.2.1, h.2.2.2⟩
      rw [typed_cons htext]
      refine hfirst.bind fun _ c₁ hc₁ => ?_
      obtain ⟨hcalled, hrefilled, hasked⟩ := hc₁
      have hmissing' : k'.missingKeys (c₁.needs target) ≠ [] := by
        have hneeds : c₁.needs target = c.needs target := by rw [hcalled.same]; rfl
        rw [hneeds, Keyring.missingKeys_congr fun u _ => hsame.knows u]
        exact hmissing
      have hrest := sendAll_joins waiting (c := c₁) (k := k') (by rw [hcalled.same]; rfl) hsame.consistent
        hmissing' (by rw [hcalled.same]; exact hactive) (by rw [hcalled.same]; exact PyDict.has_insert_self ..)
      refine hrest.mono (fun _ c' h => ⟨⟨hrefilled.wordless.trans _ _ _ h.wordless, fun t ht => ?_, ?_⟩, .inr hasked⟩)
        fun _ _ hx => hx.elim
      · exact (h.others t ht).trans (hrefilled.others t ht)
      · rw [h.texts, hrefilled.texts, List.append_assoc]
        rfl

end Holding

/-! ## One release -/

section Released

variable [Crypto]

/-- What `_release` does to the texts of this target. Without a missing key they are
handed over, and held again otherwise. -/
structure Released (c : ChatController) (k : Keyring) (target : Str) (xs : List (Call × Bool)) (c' : ChatController) :
    Prop where
  along : c.Along c'
  trace : c'.trace = c.trace ++ callEntries xs
  others : ∀ t, t ≠ target → c'.texts t = c.texts t
  ready : k.missingKeys (c.needs target) = [] → c'.texts target = [] ∧
    HandedOver (fun i => (c.connection i).isSome) (c.Seals k target) (c.Carries k target) c.trace.length
      (typed (c.texts target)) xs
  waits : k.missingKeys (c.needs target) ≠ [] → (∀ x ∈ xs, x.1.addressee = none) ∧
    (c.Asked (k.missingKeys (c.needs target)) → c'.texts target = typed (c.texts target)) ∧
    (¬ c.Asked (k.missingKeys (c.needs target)) → c'.texts target = (typed (c.texts target)).take 1)

variable {c c' : ChatController} {k : Keyring} {target : Str}

omit [Crypto] in
/-- Taking the texts of a target leaves those of the others, -/
theorem texts_popped (c : ChatController) {target t : Str} (ht : t ≠ target) : (c.popped target).texts t = c.texts t := by
  show (PyDict.get (PyDict.erase c.held target) t).getD [] = _
  rw [PyDict.get_erase_ne _ ht]
  rfl

omit [Crypto] in
/-- and none of its own. -/
theorem texts_popped_self (c : ChatController) (target : Str) : (c.popped target).texts target = [] := by
  show (PyDict.get (PyDict.erase c.held target) target).getD [] = _
  rw [PyDict.get_erase_self]
  rfl

/-- Nothing else has changed. -/
theorem popped_along (c : ChatController) (target : Str) : c.Along (c.popped target) :=
  ⟨rfl, rfl, rfl, fun k hk hs => ⟨k, hk, (Keyring.Same.refl hs).along _⟩, [], (List.append_nil _).symm⟩

/-- With all keys here the texts are handed over, up to one that raises. -/
theorem release_hands (hk : c.keyring = some k) (hs : k.Consistent) (hready : k.missingKeys (c.needs target) = []) :
    Ends (release target) c (fun _ c' => c.Hands k target (c.texts target) c')
      (fun _ c' => c.Hands k target (c.texts target) c') := by
  refine release_rule (fun hnone => ?_) ?_
  · rw [hnone]
    exact ⟨[], (List.append_nil _).symm, .done _⟩
  · exact sendAll_hands (c.texts target) (c := (c.popped target).showing (some target)) hk hs hready rfl

/-- The same, with what is held afterwards: nothing. -/
theorem release_released_ready (hk : c.keyring = some k) (hs : k.Consistent)
    (hready : k.missingKeys (c.needs target) = []) :
    Ends (release target) c (fun _ c' => ∃ xs, c.Released k target xs c') (fun _ c' => ∃ xs, c.Released k target xs c') := by
  have hdone : ∀ c', Sent (c.texts target).length target (c.popped target) c' ∧ c.Hands k target (c.texts target) c' →
      ∃ xs, c.Released k target xs c' := by
    intro c' h
    obtain ⟨hsent, xs, htrace, hover⟩ := h
    have htexts : ∀ t, c'.texts t = (c.popped target).texts t := fun t => by
      rw [ChatController.texts, hsent.held]
      rfl
    refine ⟨xs, (popped_along c target).trans hsent.along, htrace, fun t ht => ?_, fun _ => ⟨?_, hover⟩,
      fun hmissing => absurd hready hmissing⟩
    · rw [htexts, texts_popped c ht]
    · rw [htexts, texts_popped_self]
  have hsent := (release_ready hk hs hready).mono (fun _ _ h => h) fun _ _ h => h.1
  exact (hsent.and (release_hands hk hs hready)).mono (fun _ => hdone) fun _ => hdone

variable [Runtime]

/-- With a key missing they are held again, up to a request that raises. -/
theorem release_released_waits (hk : c.keyring = some k) (hs : k.Consistent)
    (hmissing : k.missingKeys (c.needs target) ≠ []) :
    Ends (release target) c (fun _ c' => ∃ xs, c.Released k target xs c') (fun _ c' => ∃ xs, c.Released k target xs c') := by
  have hpopped : ∀ {texts c'}, Refilled target texts ((c.popped target).showing (some target)) c' →
      Refilled target texts (c.popped target) (c'.showing c.model.active) := fun h => ⟨h.wordless, h.others, h.texts⟩
  have hrefilled : Ends (release target) c
      (fun _ c' => Refilled target (typed (c.texts target)) (c.popped target) c' ∧
        (typed (c.texts target) = [] ∨ c.Asked (k.missingKeys (c.needs target))))
      (fun _ c' => Refilled target ((typed (c.texts target)).take 1) (c.popped target) c' ∧
        ¬ c.Asked (k.missingKeys (c.needs target))) := by
    refine release_rule (fun hnone => ?_) ?_
    · rw [hnone]
      exact ⟨⟨.refl _, fun _ _ => rfl, (List.append_nil _).symm⟩, .inl rfl⟩
    · have hall := sendAll_holds (c.texts target) (c := (c.popped target).showing (some target)) hk hs hmissing rfl
        (PyDict.has_erase_self ..)
      exact hall.mono (fun _ _ h => ⟨hpopped h.1, h.2⟩) fun _ _ h => ⟨hpopped h.1, h.2⟩
  have hdone : ∀ {texts c'}, Reheld target c c' → Refilled target texts (c.popped target) c' →
      (c.Asked (k.missingKeys (c.needs target)) → texts = typed (c.texts target)) →
      (¬ c.Asked (k.missingKeys (c.needs target)) → texts = (typed (c.texts target)).take 1) →
      ∃ xs, c.Released k target xs c' := by
    intro texts c' hheld hrefilled hasked hnot
    obtain ⟨xs, htrace, hxs⟩ := hrefilled.wordless
    have htexts : c'.texts target = texts := by rw [hrefilled.texts, texts_popped_self, List.nil_append]
    refine ⟨xs, hheld.beyond.along, htrace, fun t ht => (hrefilled.others t ht).trans (texts_popped c ht),
      fun hready => absurd hready hmissing, fun _ => ⟨hxs, fun h => htexts.trans (hasked h), fun h => htexts.trans (hnot h)⟩⟩
  refine ((release_waits hk hs hmissing).and hrefilled).mono (fun _ c' h => ?_) fun _ c' h => ?_
  · obtain ⟨hheld, hrefilled, hall⟩ := h
    refine hdone hheld hrefilled (fun _ => rfl) fun hnot => ?_
    rw [hall.resolve_right hnot]
    rfl
  · obtain ⟨hheld, hrefilled, hnot⟩ := h
    exact hdone hheld hrefilled (fun h => absurd h hnot) fun _ => rfl

/-- **What `_release` comes to**, however it ends. -/
theorem release_released (hk : c.keyring = some k) (hs : k.Consistent) (target : Str) :
    Ends (release target) c (fun _ c' => ∃ xs, c.Released k target xs c') (fun _ c' => ∃ xs, c.Released k target xs c') := by
  by_cases hready : k.missingKeys (c.needs target) = []
  · exact release_released_ready hk hs hready
  · exact release_released_waits hk hs hready

end Released

end ChatController

end Ciphertext
