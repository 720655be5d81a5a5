import Ciphertext.Client.Releases

/-!
# A KEY frame and the texts that wait for it

A KEY frame releases the texts held for its user, files what waited for the key, and
then releases every room whose last missing key this was. Each of these may raise, and
the rest is then left undone. For one target, all but its own release is a matter of
going elsewhere (`Elsewhere`): its texts stay as they are and nothing is sent to it. So
what becomes of them is decided in the one state in which `_release(target)` starts, if
the frame comes to that at all (`ChatController.entry`, `key_course`).

`LosesNothing` says that every text that was held has been handed to the connection
once or is still held, in order. `key_keeps_iff` gives the condition on the state in
which the release starts, as an equivalence: no text is blank, and either all keys are
here and usable, every text has an encoding and the connection takes each call, or a
key is missing and can be asked for. In `typedTwice_lost` the connection is down: of two
texts one is not handed over, and neither is held any more.
-/

namespace Ciphertext

open Act

namespace ChatController

/-- The messages to a target, in order; `lax` counts a call that raised. -/
def messagesTo (lax : Bool) (target : Str) (es : List Entry) : List Call :=
  es.filterMap fun e =>
    match e with
    | .called x through => if x.addressee = some target && (through || lax) then some x else none
    | .received _ => none

theorem messagesTo_append (lax : Bool) (target : Str) (es es' : List Entry) :
    messagesTo lax target (es ++ es') = messagesTo lax target es ++ messagesTo lax target es' :=
  List.filterMap_append ..

theorem messagesTo_none {lax : Bool} {target : Str} {xs : List (Call × Bool)}
    (h : ∀ x ∈ xs, x.1.addressee ≠ some target) : messagesTo lax target (callEntries xs) = [] := by
  unfold messagesTo callEntries
  rw [List.filterMap_map, List.filterMap_eq_nil_iff]
  intro x hx
  simp [h x hx]

theorem messagesTo_all (lax : Bool) {target : Str} {xs : List (Call × Bool)}
    (h : ∀ x ∈ xs, x.1.addressee = some target) : messagesTo lax target (callEntries xs) = counted lax xs := by
  induction xs with
  | nil => rfl
  | cons x xs ih =>
    have hrest := ih fun y hy => h y (List.mem_cons_of_mem _ hy)
    have hx := h x (List.mem_cons_self ..)
    obtain ⟨x, through⟩ := x
    show messagesTo lax target (.called x through :: callEntries xs) = _
    unfold messagesTo counted at hrest ⊢
    rw [List.filterMap_cons, List.filter_cons, hrest]
    cases through <;> cases lax <;> simp [show x.addressee = some target from hx]

section LosesNothing

variable [Crypto]

/-- **Nothing is lost** between these two states: every text that was held for the target
has been handed to the connection once or is still held, and both in the order they had. -/
def LosesNothing (lax : Bool) (target : Str) (c c' : ChatController) : Prop :=
  ∃ handed, handed.Sublist (c.texts target) ∧ (c'.texts target).Sublist (c.texts target) ∧
    (handed ++ c'.texts target).Perm (c.texts target) ∧
    List.Forall₂ (fun text x => ∃ k, c'.keyring = some k ∧ c'.Carries k target text x) handed
      (messagesTo lax target (c'.trace.drop c.trace.length))

/-- The condition under which `_release` loses nothing. -/
def Safe (lax : Bool) (target : Str) (c : ChatController) : Prop :=
  c.texts target = [] ∨ (∀ text ∈ c.texts target, text.strip.isEmpty = false) ∧ ∃ k, c.keyring = some k ∧
    (k.missingKeys (c.needs target) = [] → (∀ text ∈ c.texts target, c.Seals k target text) ∧
      ∀ j, j + lax.toNat < (c.texts target).length → (c.connection (c.trace.length + j)).isSome = true) ∧
    (k.missingKeys (c.needs target) ≠ [] →
      (c.texts target).length ≤ 1 ∨ c.Asked (k.missingKeys (c.needs target)))

variable {c c' b d : ChatController} {k : Keyring} {target : Str} {xs : List (Call × Bool)} {lax : Bool}

/-- The messages `_release` hands over, and what is left, are all there is. -/
theorem Released.full_iff (h : c.Released k target xs d) (hk : c.keyring = some k) :
    (c.texts target).length ≤ (messagesTo lax target (callEntries xs)).length + (d.texts target).length ↔
      c.Safe lax target := by
  have hle := typed_length_le (c.texts target)
  have hnil : (c.texts target).length ≤ 0 → c.Safe lax target := fun h =>
    .inl (List.eq_nil_of_length_eq_zero (Nat.le_zero.mp h))
  -- with all keys here nothing may be left over, so the count is that of the messages alone
  by_cases hready : k.missingKeys (c.needs target) = []
  · obtain ⟨hleft, hover⟩ := h.ready hready
    rw [hleft, List.length_nil, Nat.add_zero]
    have hall := messagesTo_all lax fun x hx => by
      obtain ⟨text, hc⟩ := hover.carries_of_mem hx
      exact hc.addressee
    rw [hall]
    have hcount := hover.counted_le lax
    constructor
    · intro hfull
      have hlong : (c.texts target).length ≤ (typed (c.texts target)).length := by omega
      have htyped := typed_full hlong
      have hlen := (hover.counted_length lax).mp (by omega)
      rw [typed_eq htyped] at hlen
      exact .inr ⟨htyped, k, hk, fun _ => hlen, fun hmissing => absurd hready hmissing⟩
    · intro hsafe
      cases hsafe with
      | inl hempty =>
        rw [hempty]
        exact Nat.zero_le _
      | inr hsafe =>
        obtain ⟨htyped, k', hk', hup, -⟩ := hsafe
        rw [hk] at hk'
        cases hk'
        rw [typed_eq htyped] at hover
        exact Nat.le_of_eq ((hover.counted_length lax).mpr (hup hready)).symm
  -- with a key missing no message goes out, and the texts that are held again are counted
  · obtain ⟨hwordless, hasked, hnot⟩ := h.waits hready
    rw [messagesTo_none fun x hx => by rw [hwordless x hx]; exact nofun, List.length_nil, Nat.zero_add]
    by_cases hask : c.Asked (k.missingKeys (c.needs target))
    · rw [hasked hask]
      constructor
      · intro hfull
        exact .inr ⟨typed_full hfull, k, hk, fun h => absurd h hready, fun _ => .inr hask⟩
      · intro hsafe
        cases hsafe with
        | inl hempty =>
          rw [hempty]
          exact Nat.zero_le _
        | inr hsafe => rw [typed_eq hsafe.1]
    · rw [hnot hask, List.length_take]
      constructor
      · intro hfull
        exact .inr ⟨typed_full (by omega), k, hk, fun h => absurd h hready, fun _ => .inl (by omega)⟩
      · intro hsafe
        cases hsafe with
        | inl hempty =>
          rw [hempty]
          exact Nat.zero_le _
        | inr hsafe =>
          obtain ⟨htyped, k', hk', -, hwaits⟩ := hsafe
          rw [hk] at hk'
          cases hk'
          have hlen := (hwaits hready).resolve_right hask
          rw [typed_eq htyped]
          omega

/-- The messages carry the first of the texts, and the rest is left. -/
theorem Released.keeps_all (h : c.Released k target xs d) (hsafe : c.Safe lax target) (hk : c.keyring = some k) :
    ∃ handed, c.texts target = handed ++ d.texts target ∧
      List.Forall₂ (c.Carries k target) handed (messagesTo lax target (callEntries xs)) := by
  have hfull := (h.full_iff hk).mpr hsafe
  have hle := typed_length_le (c.texts target)
  by_cases hready : k.missingKeys (c.needs target) = []
  · obtain ⟨hleft, hover⟩ := h.ready hready
    rw [hleft, List.length_nil, Nat.add_zero] at hfull
    rw [hleft]
    have hall := messagesTo_all lax fun x hx => by
      obtain ⟨text, hc⟩ := hover.carries_of_mem hx
      exact hc.addressee
    rw [hall] at hfull ⊢
    have hcount := hover.counted_le lax
    have hcarry := hover.counted lax
    rw [List.take_of_length_le (by omega), typed_eq (typed_full (by omega))] at hcarry
    exact ⟨c.texts target, (List.append_nil _).symm, hcarry⟩
  · obtain ⟨hwordless, hasked, hnot⟩ := h.waits hready
    have hsilent : messagesTo lax target (callEntries xs) = [] :=
      messagesTo_none fun x hx => by rw [hwordless x hx]; exact nofun
    rw [hsilent] at hfull ⊢
    rw [List.length_nil, Nat.zero_add] at hfull
    refine ⟨[], ?_, .nil⟩
    by_cases hask : c.Asked (k.missingKeys (c.needs target))
    · rw [hasked hask] at hfull ⊢
      exact (typed_eq (typed_full hfull)).symm
    · rw [hnot hask, List.length_take] at hfull
      rw [hnot hask, typed_eq (typed_full (by omega)), List.take_of_length_le (by omega)]
      rfl

/-! ## A KEY frame -/

omit [Crypto] in
/-- As far as this target goes nothing has happened. -/
structure Elsewhere (target : Str) (c c' : ChatController) : Prop where
  texts : c'.texts target = c.texts target
  trace : ∃ es, c'.trace = c.trace ++ es ∧ ∀ lax, messagesTo lax target es = []

omit [Crypto] in
theorem Elsewhere.refl (target : Str) (c : ChatController) : Elsewhere target c c :=
  ⟨rfl, [], (List.append_nil _).symm, fun _ => rfl⟩

omit [Crypto] in
theorem Elsewhere.trans (h : Elsewhere target c b) (h' : Elsewhere target b c') : Elsewhere target c c' := by
  obtain ⟨es, htrace, hes⟩ := h.trace
  obtain ⟨es', htrace', hes'⟩ := h'.trace
  refine ⟨h'.texts.trans h.texts, es ++ es', by rw [htrace', htrace, List.append_assoc], fun lax => ?_⟩
  rw [messagesTo_append, hes, hes']
  rfl

omit [Crypto] in
theorem Wordless.elsewhere (h : Wordless c c') (htexts : c'.texts target = c.texts target) : Elsewhere target c c' := by
  obtain ⟨xs, htrace, hxs⟩ := h
  exact ⟨htexts, callEntries xs, htrace, fun lax => messagesTo_none fun x hx => by rw [hxs x hx]; exact nofun⟩

/-- The same, and the controller is the same for sealing. -/
structure Passes (target : Str) (c c' : ChatController) : Prop where
  along : c.Along c'
  elsewhere : Elsewhere target c c'

theorem Passes.refl (target : Str) (c : ChatController) : Passes target c c :=
  ⟨(Aside.refl c).along, .refl target c⟩

theorem Passes.trans (h : Passes target c b) (h' : Passes target b c') : Passes target c c' :=
  ⟨h.along.trans h'.along, h.elsewhere.trans h'.elsewhere⟩

/-- The release of another target. -/
theorem Released.passes {other : Str} (h : c.Released k other xs d) (hne : target ≠ other) : Passes target c d := by
  refine ⟨h.along, h.others target hne, callEntries xs, h.trace, fun lax => messagesTo_none fun x hx => ?_⟩
  have hother : some other ≠ some target := fun he => hne (Option.some.inj he).symm
  by_cases hready : k.missingKeys (c.needs other) = []
  · obtain ⟨text, hc⟩ := (h.ready hready).2.carries_of_mem hx
    rw [hc.addressee]
    exact hother
  · rw [(h.waits hready).1 x hx]
    exact nofun

/-- Nothing is held for the target, or it waits for somebody's key. -/
def Settled (target : Str) (c : ChatController) : Prop :=
  c.texts target = [] ∨ ∃ k, c.keyring = some k ∧ k.missingKeys (c.needs target) ≠ []

theorem Settled.passes (h : Settled target c) (hroom : target.isRoom = true) (hk : c.keyring = some k) (hs : k.Consistent)
    (hp : Passes target c c') : Settled target c' := by
  cases h with
  | inl h => exact .inl (hp.elsewhere.texts.trans h)
  | inr h =>
    obtain ⟨k₀, hk₀, hmissing⟩ := h
    obtain rfl := Option.some.inj (hk.symm.trans hk₀)
    obtain ⟨k', hk', halong⟩ := hp.along.keyring k hk hs
    refine .inr ⟨k', hk', ?_⟩
    rw [hp.along.needs, Keyring.missingKeys_congr fun u hu => halong.knows ?_]
    · exact hmissing
    · rw [needs, if_pos hroom] at hu
      simpa using (List.mem_filter.mp hu).2

/-- The test of `_key` before it releases a room. -/
def completes (c : ChatController) (room : Str) : Bool :=
  match c.keyring with
  | none => false
  | some k =>
    (k.missingKeys ((c.model.roomMembers room).filter fun name => some name ≠ c.model.username)).isEmpty

theorem exec_releaseRoom (room : Str) (c : ChatController) :
    exec (releaseRoom room) c = if c.completes room then exec (release room) c else (.ok (), c) := by
  unfold releaseRoom completes
  rw [exec_bind, exec_get]
  dsimp only
  cases c.keyring with
  | none => rfl
  | some k =>
    dsimp only
    split
    · rfl
    · rfl

omit [Crypto] in
/-- A room that is complete waits for nobody but ourselves. -/
theorem missing_of_completes {room : Str} (hroom : room.isRoom = true) (hname : c.model.username ≠ some [])
    (hk : c.keyring = some k) (h : c.completes room = true) : k.missingKeys (c.needs room) = [] := by
  unfold completes at h
  rw [hk] at h
  have hnone : k.missingKeys ((c.model.roomMembers room).filter fun name => some name ≠ c.model.username) = [] := by
    simpa using h
  rw [Keyring.missingKeys_eq_nil] at hnone ⊢
  intro u hu
  rw [needs, if_pos hroom] at hu
  obtain ⟨hmem, hne⟩ := List.mem_filter.mp hu
  have hne : u ≠ c.me := by simpa using hne
  refine hnone u (List.mem_filter.mpr ⟨hmem, ?_⟩)
  simp only [decide_not, Bool.not_eq_eq_eq_not, Bool.not_true, decide_eq_false_iff_not]
  intro hself
  refine hne ?_
  unfold me
  rw [← hself] at hname ⊢
  have hu : u ≠ [] := fun he => hname (by rw [he])
  cases u with
  | nil => exact absurd rfl hu
  | cons x xs => rfl

/-- A room is looked at; the target is another one, or settled. -/
theorem releaseRoom_passes [Runtime] {room : Str} (hk : c.keyring = some k) (hs : k.Consistent)
    (hname : c.model.username ≠ some []) (hroom : room.isRoom = true) (hsettled : room = target → Settled target c) :
    Ends (releaseRoom room) c (fun _ c' => Passes target c c') (fun _ c' => Passes target c c') := by
  unfold Ends
  rw [exec_releaseRoom]
  by_cases hcomplete : c.completes room = true
  · rw [if_pos hcomplete]
    by_cases hne : target = room
    · subst hne
      have hempty : c.texts target = [] := by
        refine (hsettled rfl).resolve_right fun hwaits => ?_
        obtain ⟨k₀, hk₀, hmissing⟩ := hwaits
        exact hmissing (missing_of_completes hroom hname hk₀ hcomplete)
      -- nothing is left to send
      have hnone : Ends (release target) c (fun _ c' => c' = c.popped target) (fun _ _ => False) := by
        refine release_rule (fun _ => rfl) ?_
        rw [hempty]
        refine ends_pure (congrArg (fun held => ({ c with held } : ChatController)) rfl)
      refine hnone.mono (fun _ c' hc' => ?_) fun _ _ hx => hx.elim
      rw [hc']
      refine ⟨popped_along c target, ?_, [], (List.append_nil _).symm, fun _ => rfl⟩
      rw [texts_popped_self, hempty]
    · have hpass : ∀ c', (∃ xs, c.Released k room xs c') → Passes target c c' := by
        intro c' h
        obtain ⟨xs, hr⟩ := h
        exact hr.passes hne
      exact (release_released hk hs room).mono (fun _ => hpass) fun _ => hpass
  · rw [if_neg hcomplete]
    exact Passes.refl target c

/-- The rooms that are looked at once the target is settled. -/
theorem rooms_pass [Runtime] (rooms : List Str) : ∀ {c : ChatController} {k : Keyring}, c.keyring = some k → k.Consistent →
    c.model.username ≠ some [] → (∀ room ∈ rooms, room.isRoom = true) → (target.isRoom = true → Settled target c) →
    Ends (rooms.forM releaseRoom) c (fun _ c' => Passes target c c') (fun _ c' => Passes target c c') := by
  induction rooms with
  | nil => exact fun _ _ _ _ _ => Passes.refl target _
  | cons room rooms ih =>
    intro c k hk hs hname hrooms hsettled
    have hroom := hrooms room (List.mem_cons_self ..)
    refine (releaseRoom_passes hk hs hname hroom fun he => hsettled (he ▸ hroom)).bind fun _ c₁ hc₁ => ?_
    obtain ⟨k₁, hk₁, halong⟩ := hc₁.along.keyring k hk hs
    have hrest := ih hk₁ halong.consistent (by rw [hc₁.along.username]; exact hname)
      (fun r hr => hrooms r (List.mem_cons_of_mem _ hr)) fun ht => (hsettled ht).passes ht hk hs hc₁
    exact hrest.mono (fun _ _ h => hc₁.trans h) fun _ _ h => hc₁.trans h

/-! ### Filing makes no message -/

omit [Crypto] in
theorem reportDelivery_wordless (f : Frame) (key : Json) : Steps Wordless (reportDelivery f key) := by
  have hreceipt : Steps Wordless (tryReceipt f.sender f.id "DELIVERED") :=
    Steps.tryCatch Wordless.trans (Steps.bind Wordless.trans (call_wordless rfl) fun _ => steps_pure Wordless.refl _)
      fun _ => steps_pure Wordless.refl _
  refine steps_ite (Steps.bind Wordless.trans ?_ fun _ => steps_ite hreceipt (steps_pure Wordless.refl _))
    (steps_pure Wordless.refl _)
  cases key with
  | str s => exact steps_pure Wordless.refl _
  | _ => exact steps_throw Wordless.refl _

omit [Crypto] in
/-- A change of something else than the trace, and how it ended. -/
theorem onModel'_wordless (f : ChatModel → ChatModel × Except PyErr Unit) : Steps Wordless (onModel' f) := by
  refine steps_get fun c => ?_
  refine steps_bind_at Wordless.trans (modify_wordless (fun _ => rfl) c) fun _ => ?_
  cases (f c.model).2 with
  | ok u => exact steps_pure Wordless.refl _
  | error e => exact steps_throw Wordless.refl _

theorem plaintext_wordless (f : Frame) (peer : Json) : Steps Wordless (plaintext f peer) := by
  refine steps_get fun c => ?_
  cases c.keyring with
  | none => exact .refl c
  | some k =>
    dsimp only
    split
    · exact .refl c
    · refine steps_bind_at Wordless.trans ?_ fun text => ?_
      · unfold onKeyring
        refine steps_bind_at Wordless.trans (modify_wordless (fun _ => rfl) c) fun _ => ?_
        split
        · exact steps_pure Wordless.refl _
        · exact steps_throw Wordless.refl _
      · cases text with
        | none => exact steps_pure Wordless.refl _
        | some text => exact steps_pure Wordless.refl _

theorem file_wordless (f : Frame) (key : Json) : Steps Wordless (file f key) := by
  refine Steps.bind Wordless.trans (reportDelivery_wordless f key) fun _ =>
    Steps.bind Wordless.trans (plaintext_wordless f _) fun body => Steps.bind Wordless.trans ?_ fun ts => ?_
  · exact steps_ite (steps_pure Wordless.refl _) (steps_get fun c => .refl c)
  · cases key with
    | str key =>
      exact Steps.bind Wordless.trans (modify_wordless fun _ => rfl) fun _ => onModel'_wordless _
    | _ => exact steps_throw Wordless.refl _

theorem deliverAwaiting_wordless (user : Str) : Steps Wordless (deliverAwaiting user) := by
  refine steps_get fun c => steps_bind_at Wordless.trans (modify_wordless (fun _ => rfl) c) fun _ => ?_
  refine steps_forM Wordless.refl Wordless.trans fun f => Steps.bind Wordless.trans ?_ fun _ => file_wordless f _
  cases f.target.orElse (.str []) with
  | str s => exact steps_pure Wordless.refl _
  | _ => exact steps_throw Wordless.refl _

theorem deliverAwaiting_passes (target user : Str) : Steps (Passes target) (deliverAwaiting user) := by
  intro c
  have haside := deliverAwaiting_aside user c
  exact ⟨haside.along, (deliverAwaiting_wordless user c).elsewhere
    (by rw [ChatController.texts, haside.held]; rfl)⟩

/-! ### The way to the target -/

/-- Among these rooms, the state in which `_release` is called for the target. -/
def entryAmong (target : Str) : List Str → ChatController → Option ChatController
  | [], _ => none
  | room :: rooms, c =>
    if room = target && c.completes room then some c
    else match exec (releaseRoom room) c with
      | (.ok _, c') => entryAmong target rooms c'
      | (.error _, _) => none

/-- How `_release` was entered for the target, if it was, and what happened around it. -/
def Course (target : Str) (c : ChatController) (entry : Option ChatController) (c' : ChatController) : Prop :=
  match entry with
  | none => Elsewhere target c c'
  | some b => Elsewhere target c b ∧ ∃ k xs d, b.keyring = some k ∧ k.Consistent ∧ b.Released k target xs d ∧ Passes target d c'

theorem Course.after {entry : Option ChatController} (h : Course target b entry c') (hb : Elsewhere target c b) :
    Course target c entry c' := by
  cases entry with
  | none => exact hb.trans h
  | some e => exact ⟨hb.trans h.1, h.2⟩

/-- What follows the release of the target leaves it alone. -/
theorem Released.course (h : b.Released k target xs d) (hk : b.keyring = some k) (hs : k.Consistent)
    (hp : Passes target d c') : Course target b (some b) c' :=
  ⟨.refl target b, k, xs, d, hk, hs, h, hp⟩

/-- After the release the target is settled. -/
theorem Released.settled (h : b.Released k target xs d) (hk : b.keyring = some k) (hs : k.Consistent)
    (hroom : target.isRoom = true) : Settled target d := by
  by_cases hready : k.missingKeys (b.needs target) = []
  · exact .inl (h.ready hready).1
  · obtain ⟨k', hk', halong⟩ := h.along.keyring k hk hs
    refine .inr ⟨k', hk', ?_⟩
    rw [h.along.needs, Keyring.missingKeys_congr fun u hu => halong.knows ?_]
    · exact hready
    · rw [needs, if_pos hroom] at hu
      simpa using (List.mem_filter.mp hu).2

variable [Runtime]

/-- The rooms that `_key` looks at. -/
theorem rooms_course (rooms : List Str) : ∀ {c : ChatController} {k : Keyring}, c.keyring = some k → k.Consistent →
    c.model.username ≠ some [] → (∀ room ∈ rooms, room.isRoom = true) →
    Course target c (entryAmong target rooms c) (exec (rooms.forM releaseRoom) c).2 := by
  induction rooms with
  | nil => exact fun _ _ _ _ => Elsewhere.refl target _
  | cons room rooms ih =>
    intro c k hk hs hname hrooms
    have hroom := hrooms room (List.mem_cons_self ..)
    have hrest : ∀ r ∈ rooms, r.isRoom = true := fun r hr => hrooms r (List.mem_cons_of_mem _ hr)
    unfold entryAmong
    by_cases hentry : (room = target && c.completes room) = true
    · rw [if_pos hentry]
      simp only [Bool.and_eq_true, decide_eq_true_eq] at hentry
      obtain ⟨rfl, hcomplete⟩ := hentry
      refine Ends.final (P := Course _ _ _) ?_
      have hfirst : Ends (releaseRoom room) c (fun _ d => ∃ xs, c.Released k room xs d)
          (fun _ d => ∃ xs, c.Released k room xs d) := by
        unfold Ends
        rw [exec_releaseRoom, if_pos hcomplete]
        exact release_released hk hs room
      refine Ends.bind (hfirst.mono (fun _ _ h => h) fun _ d hd => ?_) fun _ d hd => ?_
      · obtain ⟨xs, hd⟩ := hd
        exact hd.course hk hs (.refl room d)
      · obtain ⟨xs, hd⟩ := hd
        obtain ⟨k₁, hk₁, halong⟩ := hd.along.keyring k hk hs
        have hpass := rooms_pass rooms hk₁ halong.consistent (by rw [hd.along.username]; exact hname) hrest
          fun ht => hd.settled hk hs ht
        exact hpass.mono (fun _ _ hp => hd.course hk hs hp) fun _ _ hp => hd.course hk hs hp
    · rw [if_neg hentry]
      -- the room is another one, or it is not complete
      have hpass : Ends (releaseRoom room) c (fun _ c' => Passes target c c') (fun _ c' => Passes target c c') := by
        by_cases hne : room = target
        · unfold Ends
          rw [exec_releaseRoom, if_neg fun hcomplete => hentry (by simp [hne, ← hcomplete])]
          exact Passes.refl target c
        · exact releaseRoom_passes hk hs hname hroom fun he => absurd he hne
      show Course target c _ (exec (releaseRoom room >>= fun _ => rooms.forM releaseRoom) c).2
      rw [exec_bind]
      unfold Ends at hpass
      rcases hrun : exec (releaseRoom room) c with ⟨e | u, c₁⟩ <;> rw [hrun] at hpass
      · exact hpass.elsewhere
      · obtain ⟨k₁, hk₁, halong⟩ := hpass.along.keyring k hk hs
        exact (ih hk₁ halong.consistent (by rw [hpass.along.username]; exact hname) hrest).after hpass.elsewhere

/-- The state in which a KEY frame makes `_key` call `_release` for the target, if it
comes to that. -/
def entry (c : ChatController) (f : Frame) (target : Str) : Option ChatController :=
  match c.keyring with
  | none => none
  | some k =>
    if !(f.get "user").truthy || !(f.get "pubkey").truthy then none
    else
      let user := (f.get "user").pyStr
      let b := { c.noted f with keyring := some (k.remember user (f.get "pubkey").pyStr) }
      if target = user then some b
      else match exec (do release user; deliverAwaiting user) b with
        | (.ok _, d) => entryAmong target ((d.held.map Prod.fst).filter Str.isRoom) d
        | (.error _, _) => none

/-- What `_key` does after it has released what waited for the user. -/
def afterwards (user : Str) : ClientM Unit := do
  deliverAwaiting user
  let rooms := ((← get).held.map Prod.fst).filter Str.isRoom
  rooms.forM releaseRoom

theorem afterwards_passes (user : Str) (hk : c.keyring = some k) (hs : k.Consistent) (hname : c.model.username ≠ some [])
    (hsettled : target.isRoom = true → Settled target c) :
    Ends (afterwards user) c (fun _ c' => Passes target c c') (fun _ c' => Passes target c c') := by
  refine ((deliverAwaiting_passes target user).ends c).bind fun _ c₁ hc₁ => ends_get ?_
  obtain ⟨k₁, hk₁, halong⟩ := hc₁.along.keyring k hk hs
  have hrooms := rooms_pass ((c₁.held.map Prod.fst).filter Str.isRoom) hk₁ halong.consistent
    (by rw [hc₁.along.username]; exact hname) (fun r hr => (List.mem_filter.mp hr).2)
    fun ht => (hsettled ht).passes ht hk hs hc₁
  exact hrooms.mono (fun _ _ h => hc₁.trans h) fun _ _ h => hc₁.trans h

/-- `_key` without a keyring, a user or a public key. -/
theorem exec_key_nothing {f : Frame}
    (h : c.keyring = none ∨ (!(f.get "user").truthy || !(f.get "pubkey").truthy) = true) : exec (key f) c = (.ok (), c) := by
  unfold key
  rw [exec_bind, exec_get]
  dsimp only
  cases hk : c.keyring with
  | none => rfl
  | some k =>
    have hf := h.resolve_left (by rw [hk]; nofun)
    dsimp only
    rw [if_pos hf]
    rfl

/-- `_key` with a user and a public key. -/
theorem exec_key_known {f : Frame} (hk : c.keyring = some k)
    (hf : (!(f.get "user").truthy || !(f.get "pubkey").truthy) = false) :
    exec (key f) c = exec (do release (f.get "user").pyStr; afterwards (f.get "user").pyStr)
      { c with keyring := some (k.remember (f.get "user").pyStr (f.get "pubkey").pyStr) } := by
  unfold key
  rw [exec_bind, exec_get]
  dsimp only
  rw [hk]
  dsimp only
  rw [hf]
  rfl

/-- **The course of a KEY frame**, as one target sees it. -/
theorem key_course (hk : c.keyring = some k) (hs : k.Consistent) (hname : c.model.username ≠ some []) {f : Frame}
    (htype : f.type = .key) (target : Str) : Course target c (c.entry f target) (c.step (.frame f)) := by
  have hnoted : Elsewhere target c (c.noted f) := ⟨rfl, [.received f], rfl, fun _ => rfl⟩
  have hstep : c.step (.frame f) = (exec (key f) (c.noted f)).2 := step_key c htype
  have hk' : (c.noted f).keyring = some k := hk
  rw [hstep]
  unfold entry
  rw [hk]
  dsimp only
  by_cases hf : (!(f.get "user").truthy || !(f.get "pubkey").truthy) = true
  · rw [if_pos hf]
    rw [exec_key_nothing (.inr hf)]
    exact hnoted
  · rw [if_neg hf, exec_key_known hk' (by simpa using hf)]
    generalize hb : ({ c.noted f with keyring := some (k.remember (f.get "user").pyStr (f.get "pubkey").pyStr) } :
      ChatController) = b
    have hkb : b.keyring = some (k.remember (f.get "user").pyStr (f.get "pubkey").pyStr) := by rw [← hb]
    have hsb := Keyring.remember_consistent hs (f.get "user").pyStr (f.get "pubkey").pyStr
    have hnameb : b.model.username ≠ some [] := by rw [← hb]; exact hname
    have hcb : Elsewhere target c b := by
      rw [← hb]
      exact ⟨rfl, [.received f], rfl, fun _ => rfl⟩
    refine Course.after ?_ hcb
    -- either the frame is about the target itself, or the target is a room the key may complete
    by_cases htarget : target = (f.get "user").pyStr
    · rw [if_pos htarget]
      refine Ends.final (P := Course _ _ _) ?_
      rw [← htarget]
      refine Ends.bind ((release_released hkb hsb target).mono (fun _ _ h => h) fun _ d hd => ?_) fun _ d hd => ?_
      · obtain ⟨xs, hd⟩ := hd
        exact hd.course hkb hsb (.refl target d)
      · obtain ⟨xs, hd⟩ := hd
        obtain ⟨k₁, hk₁, halong⟩ := hd.along.keyring _ hkb hsb
        have hrest := afterwards_passes target hk₁ halong.consistent
          (by rw [hd.along.username]; exact hnameb) fun hroom => hd.settled hkb hsb hroom
        exact hrest.mono (fun _ _ hp => hd.course hkb hsb hp) fun _ _ hp => hd.course hkb hsb hp
    · rw [if_neg htarget]
      -- up to the rooms the frame does not concern the target
      have hpass : Ends (do release (f.get "user").pyStr; deliverAwaiting (f.get "user").pyStr) b
          (fun _ d => Passes target b d) (fun _ d => Passes target b d) := by
        have hfirst : Ends (release (f.get "user").pyStr) b (fun _ d => Passes target b d)
            (fun _ d => Passes target b d) := by
          refine (release_released hkb hsb _).mono (fun _ d hd => ?_) fun _ d hd => ?_
          · obtain ⟨xs, hd⟩ := hd
            exact hd.passes htarget
          · obtain ⟨xs, hd⟩ := hd
            exact hd.passes htarget
        refine hfirst.bind fun _ d hd => ?_
        exact ((deliverAwaiting_passes target _).ends d).mono (fun _ _ h => hd.trans h) fun _ _ h => hd.trans h
      -- the order of the source: release, deliver, then the rooms that are held for
      have hsplit : exec (do release (f.get "user").pyStr; afterwards (f.get "user").pyStr) b =
          match exec (do release (f.get "user").pyStr; deliverAwaiting (f.get "user").pyStr) b with
          | (.ok _, d) => exec (((d.held.map Prod.fst).filter Str.isRoom).forM releaseRoom) d
          | (.error e, d) => (.error e, d) := by
        unfold afterwards
        rw [exec_bind, exec_bind]
        rcases exec (release (f.get "user").pyStr) b with ⟨e | u, b₁⟩
        · rfl
        · dsimp only
          rw [exec_bind]
          rcases exec (deliverAwaiting (f.get "user").pyStr) b₁ with ⟨e | u, d⟩
          · rfl
          · rfl
      rw [hsplit]
      unfold Ends at hpass
      rcases hrun : exec (do release (f.get "user").pyStr; deliverAwaiting (f.get "user").pyStr) b with ⟨e | u, d⟩ <;>
        rw [hrun] at hpass
      · exact hpass.elsewhere
      · obtain ⟨k₁, hk₁, halong⟩ := hpass.along.keyring _ hkb hsb
        exact (rooms_course _ hk₁ halong.consistent (by rw [hpass.along.username]; exact hnameb)
          fun r hr => (List.mem_filter.mp hr).2).after hpass.elsewhere

/-- **A KEY frame loses none of the texts held for a target** just if the release of the
target, where it comes to one, is safe in the state in which it starts: no text is blank,
and either all the keys are here and are ones, every text has an encoding and the
connection takes a message for each of them, or keys are missing and can be asked for if
there is more than one text. `lax` counts a text as handed over even where that call
raised, so that the last one may. -/
theorem key_keeps_iff (hk : c.keyring = some k) (hs : k.Consistent) (hname : c.model.username ≠ some []) {f : Frame}
    (htype : f.type = .key) (target : Str) (lax : Bool) :
    LosesNothing lax target c (c.step (.frame f)) ↔ ∀ b, c.entry f target = some b → b.Safe lax target := by
  have hcourse := key_course hk hs hname htype target
  generalize c.step (.frame f) = c' at hcourse ⊢
  cases hentry : c.entry f target with
  | none =>
    rw [hentry] at hcourse
    obtain ⟨htexts, es, htrace, hes⟩ := hcourse
    refine iff_of_true ⟨[], List.nil_sublist _, by rw [htexts], by rw [htexts]; exact .refl _, ?_⟩ nofun
    rw [htrace, List.drop_left, hes]
    exact .nil
  | some b =>
    rw [hentry] at hcourse
    obtain ⟨hbefore, kb, xs, d, hkb, hsb, hreleased, hafter⟩ := hcourse
    obtain ⟨es, htrace, hes⟩ := hbefore.trace
    obtain ⟨es', htrace', hes'⟩ := hafter.elsewhere.trace
    -- what is handed over during the frame is what `_release` hands over: the rest of it
    -- makes no message for the target
    have hall : messagesTo lax target (c'.trace.drop c.trace.length) = messagesTo lax target (callEntries xs) := by
      rw [htrace', hreleased.trace, htrace, List.append_assoc, List.append_assoc, List.drop_left, messagesTo_append,
        messagesTo_append, hes, hes', List.append_nil]
      rfl
    unfold LosesNothing
    rw [hall, hafter.elsewhere.texts, ← hbefore.texts]
    constructor
    · intro hkept b' hb'
      obtain rfl := Option.some.inj hb'
      obtain ⟨handed, -, -, hperm, hcarried⟩ := hkept
      -- counting is enough: a text that is neither handed over nor held is missing from the length
      have hlen := hperm.length_eq
      rw [List.length_append, hcarried.length_eq] at hlen
      exact (hreleased.full_iff hkb).mp (Nat.le_of_eq hlen.symm)
    · intro hsafe
      obtain ⟨handed, hsplit, hcarried⟩ := hreleased.keeps_all (hsafe b rfl) hkb
      obtain ⟨k', hk', halong⟩ := (hreleased.along.trans hafter.along).keyring kb hkb hsb
      refine ⟨handed, ?_, ?_, ?_, hcarried.imp fun text x h => ⟨k', hk', ?_⟩⟩
      · rw [hsplit]
        exact List.sublist_append_left _ _
      · rw [hsplit]
        exact List.sublist_append_right _ _
      · rw [← hsplit]
      · exact (Carries.along (hreleased.along.trans hafter.along) halong text x).mpr h

end LosesNothing

end ChatController

/-! ## Two texts and a lost connection -/

namespace Sample

/-- `b`'s public key arrives. -/
def publicKeyOfB : Frame :=
  { type := .key, data := [("user", .str "b"), ("pubkey", .str (exchangeCrypto.publicB64 [2]))], id := .str "k", ts := 0 }

/-- Two texts typed to `b` before that. -/
def typedTwice : List ChatController.Gesture :=
  [.frame { type := .loginOk, data := [("user", .str "a")], id := .str "i", ts := 0 }, .select "b", .send "hi",
    .send "there"]

/-- A controller that holds two texts for `b`. -/
def holdingTwo : ChatController where
  keyring := some { identity := [1], urandom := fun _ => [] }
  held := [("b", ["hi", "there"])]
  connection _ := some ("i", 1)
  clock _ := 0

end Sample

namespace ChatController

section Concrete

open Sample

attribute [local instance] exchangeCrypto sampleRuntime

/-- While the connection is up, both are handed over when the key comes. -/
theorem key_keeps_twice : LosesNothing false "b" holdingTwo (holdingTwo.step (.frame publicKeyOfB)) := by
  have hcons : (Keyring.mk [1] [] [] [] (fun _ => []) 0).Consistent := .fresh _ _
  have hname : holdingTwo.model.username ≠ some [] := fun h => (nomatch h)
  refine (key_keeps_iff rfl hcons hname rfl "b" false).mpr fun b hb => ?_
  obtain rfl := Option.some.inj hb
  refine .inr ⟨by decide, _, rfl, fun _ => ⟨fun text ht => ⟨?_, ?_⟩, fun _ _ => rfl⟩, fun h => absurd (by decide) h⟩
  · intro pubkey hp
    obtain rfl := Option.some.inj hp
    exact ⟨_, rfl⟩
  · have hall : ∀ text ∈ holdingTwo.texts "b", Keyring.Encodes text holdingTwo.me := by decide
    exact hall text ht

/-- When it is lost by then, the first is handed over at most, and the second is gone. -/
theorem typedTwice_lost :
    let c := (fresh [1] (fun _ => []) (fun n => if n < 3 then some ("i", 1) else none) (fun _ => 0)).run typedTwice
    c.texts "b" = [Str.ofString "hi", "there"] ∧ ¬ LosesNothing true "b" c (c.step (.frame publicKeyOfB)) ∧
      ¬ LosesNothing false "b" c (c.step (.frame publicKeyOfB)) := by
  intro c
  have hheld : c.texts "b" = [Str.ofString "hi", "there"] := by decide +kernel
  have hleft : (c.step (.frame publicKeyOfB)).texts "b" = [] := by decide +kernel
  have hgone : ∀ lax, (messagesTo lax "b" ((c.step (.frame publicKeyOfB)).trace.drop c.trace.length)).length ≤ 1 := by
    decide +kernel
  have hlost : ∀ lax, ¬ LosesNothing lax "b" c (c.step (.frame publicKeyOfB)) := by
    intro lax h
    obtain ⟨handed, -, -, hperm, hcarried⟩ := h
    have hlen := hperm.length_eq
    rw [hleft, hheld, List.length_append, hcarried.length_eq] at hlen
    have hone := hgone lax
    have htwo : (messagesTo lax "b" ((c.step (.frame publicKeyOfB)).trace.drop c.trace.length)).length = 2 := hlen
    omega
  exact ⟨hheld, hlost true, hlost false⟩

end Concrete

end ChatController

end Ciphertext
