import Ciphertext.Server.Paths

/-!
# A room message with envelopes, along its three paths

The live path splits the submitted map with `addressedTo`, the stored ones split
its stored text with `contentFor`. The two splits agree on every map, well formed
or not: a member's copy has the same body and nonce whether it was relayed,
queued and handed over at a login, or read back as history, and a member without
a copy has none anywhere.

What does not survive the table is the type of the id. `from_dict` takes any id
that is not falsy and the live path relays it as it came; the `TEXT` column keeps
its spelling, and for a NaN nothing at all, under which nobody can be queued.
`Run.paths_agree_iff` says so exactly: the paths agree for a member when the id
is a string, or when the map holds no envelope for that member.
-/

namespace Ciphertext

open Prog MessageRouter

/-- A list in which only `m` gives anything. -/
theorem filterMap_only {α β : Type} {l : List α} {F : α → Option β} {m : α} (hl : l.Nodup)
    (hm : m ∈ l) (h : ∀ n ∈ l, n ≠ m → F n = none) : l.filterMap F = (F m).toList := by
  induction l with
  | nil => cases hm
  | cons a l ih =>
    obtain ⟨ha, hl⟩ := List.nodup_cons.mp hl
    rw [List.filterMap_cons]
    rcases List.mem_cons.mp hm with rfl | hm
    · have hrest : l.filterMap F = [] := by
        refine List.filterMap_eq_nil_iff.mpr fun n hn => ?_
        exact h n (List.mem_cons_of_mem _ hn) fun he => ha (he ▸ hn)
      cases hF : F m <;> simp [hrest]
    · have hFa : F a = none := h a (List.mem_cons_self ..) fun he => ha (he ▸ hm)
      rw [hFa]
      exact ih hl hm fun n hn => h n (List.mem_cons_of_mem _ hn)

section Runs

variable [Runtime] {cfg : Config} {w : World} {tr : List Step} {s : Sid} {me : Json} {f : Frame}
  {room : Str} {key : Option Str} {env : Dict}

/-! ## The split -/

/-- The map holds an envelope for `m`: a pair under their name. -/
def HasEnvelope (env : Dict) (m : Str) : Prop := ∃ b n, env.lookup m = some (.list [b, n])

/-- Who has no envelope is skipped, whatever else the map holds under their name. -/
theorem addressedTo_isSome_iff {g : Frame} {m : Str} :
    (addressedTo g (some env) m).isSome = true ↔ HasEnvelope env m := by
  unfold addressedTo HasEnvelope
  dsimp only
  split
  next b n hl =>
    constructor
    · intro _
      exact ⟨b, n, hl⟩
    · intro _
      rfl
  next hne =>
    constructor
    · intro h
      cases h
    · intro h
      obtain ⟨b, n, hl⟩ := h
      exact (hne b n hl).elim

/-- What a member finds in the stored map is what the live path sends them. -/
theorem contentFor_envelopes {row : Row} (hst : Stores me f row)
    (hr : row.recipient.startsWith roomPrefix = true) (he : f.get "env" = .dict env)
    (hround : Runtime.loads (Runtime.dumps (.dict env)) = .ok (.dict env))
    (hsome : Runtime.dumps (.dict env) ≠ []) (m : Str) :
    contentFor row (.str m) =
      .ok ((addressedTo (outgoing me f) (some env) m).map fun g => (g.body, g.nonce)) := by
  have hcontent := hst.content
  have henv : envOf f row.recipient = some env := by
    rw [envOf, if_pos hr, he]
    rfl
  rw [henv] at hcontent
  have hbody : row.body = some (Runtime.dumps (.dict env)) := (Sql.text_str_ok.mp hcontent.1).2
  have hempty : (Runtime.dumps (.dict env)).isEmpty = false := by simpa using hsome
  unfold contentFor addressedTo
  simp only [hcontent.2, if_true, hbody, Option.getD_some, hempty, Bool.false_eq_true, if_false,
    hround, Json.asStr, Option.bind_some]
  -- A pair in a list, or any other shape: both sides ask the same question.
  split <;> rfl

/-- Under an id that is a string, the frame handed over from the row is the
member's copy, field by field. -/
theorem flushed_copy {row : Row} (hst : Stores me f row) {k : Str} (hid : f.id = .str k)
    (hme : me = .str row.sender) {m : Str} {g : Frame}
    (hg : addressedTo (outgoing me f) (some env) m = some g) :
    flushed row (entryOf row g.body g.nonce) = g := by
  have hkey : row.id = some k := by
    have := hst.id
    rw [hid] at this
    exact (Sql.text_str_ok.mp this).2
  simp only [addressedTo] at hg
  split at hg
  next b n hl =>
    obtain rfl := Option.some.inj hg
    simp only [flushed, outgoing, hkey, hst.ts, hme, hst.target, hid]
    rfl
  next => cases hg

/-! ## The live path -/

/-- Of the copies that go to live connections, one member's connection gets that
member's copy and no other. -/
theorem live_to_member (hw : Wired w) (hn : w.memberships.Nodup) {m : Str}
    (hm : m ∈ memberNames w room) (hme : me ≠ .str m) {t : Sid}
    (ht : SessionRegistry.get w (.str m) = some t) (hr : room.startsWith roomPrefix = true)
    (he : f.get "env" = .dict env) :
    ((live w (copies w me f room)).filter fun d => d.session = t).map Delivery.frame =
      (addressedTo (outgoing me f) (some env) m).toList := by
  have hcopies : copies w me f room =
      (Str.sorted (memberNames w room)).filterMap (copyFor me (outgoing me f) (some env)) := by
    rw [copies, if_pos hr, he]
    rfl
  let F : Str → Option Delivery := fun n =>
    ((copyFor me (outgoing me f) (some env) n).bind fun c =>
      (SessionRegistry.get w (.str c.1)).map fun t => ⟨t, w.username t, c.2⟩).filter
        fun d => d.session = t
  have hF : (live w (copies w me f room)).filter (fun d => d.session = t) =
      (Str.sorted (memberNames w room)).filterMap F := by
    rw [hcopies, live, List.filterMap_filterMap, List.filter_filterMap]
  have hother : ∀ n ∈ Str.sorted (memberNames w room), n ≠ m → F n = none := by
    intro n _ hne
    simp only [F, Option.filter_eq_none_iff, Option.bind_eq_some_iff]
    rintro d ⟨c, hc, hd⟩
    obtain ⟨t', ht', rfl⟩ := Option.map_eq_some_iff.mp hd
    obtain ⟨rfl, -⟩ := copyFor_msg hc
    simp only [decide_eq_true_eq]
    rintro rfl
    have h₁ := hw.get_eq ht'
    rw [hw.get_eq ht] at h₁
    exact hne (Json.str.inj (Option.some.inj h₁)).symm
  rw [hF, filterMap_only (Str.sorted_nodup (memberNames_nodup hn room)) (Str.mem_sorted.mpr hm) hother]
  simp only [F, copyFor, if_neg hme]
  cases addressedTo (outgoing me f) (some env) m <;> simp [ht]

/-! ## The three paths -/

/-- The world `w'` gives `m` the copy `copy?` of the message stored under `key`,
or none: as an entry of history, as a row to hand over, and at a login that
finds `m` queued. -/
structure Gives (cfg : Config) (w' : World) (key : Option Str) (m : Str) (copy? : Option Frame) :
    Prop where
  entry : ∃ row ∈ w'.messages, row.id = key ∧
    historyEntry row (.str m) = .ok (copy?.map fun g => entryOf row g.body g.nonce) ∧
    ∀ g, copy? = some g → flushed row (entryOf row g.body g.nonce) = g
  login : ∀ k s' f', key = some k → f'.type = .login → f'.get "user" = .str m → LetIn w' s' f' →
    (k, m) ∈ w'.pending → (Step.of cfg w' (.frame s' f')).outcome = .ok () →
    ∀ g : Frame, (∃ d ∈ (Step.of cfg w' (.frame s' f')).out,
      d.frame = g ∧ g.type = .msg ∧ g.id = .str k) ↔ copy? = some g

/-- The three paths of a message stored under `key` agree for `m`, whose copy is
`copy?`: the step sends it to their live connection, queues them for it if they
are away, and leaves worlds that give it to them; without a copy there is none on
any path. Anybody with a copy can be queued for it, which takes an id. -/
structure PathsAgree (cfg : Config) (w : World) (s : Sid) (f : Frame) (key : Option Str) (m : Str)
    (copy? : Option Frame) : Prop where
  live : ∀ t, SessionRegistry.get w (.str m) = some t →
    ((Step.of cfg w (.frame s f)).out.filter fun d => d.frame.type = .msg ∧ d.session = t).map
      Delivery.frame = copy?.toList
  queueable : copy?.isSome = true → key.isSome = true
  queued : SessionRegistry.get w (.str m) = none → ∀ k, key = some k →
    ((k, m) ∈ (Step.of cfg w (.frame s f)).after.pending ↔ copy?.isSome = true)
  later : ∀ tr' w', Run cfg (Step.of cfg w (.frame s f)).after tr' w' → Gives cfg w' key m copy?

/-- A world that stores the message gives everybody the copy the row holds for
them. -/
theorem gives_of_row {w' : World} {row : Row} {m : Str} {copy? : Option Frame}
    (hc : cfg.messages = true) (huniq : UniqueIds w'.messages) (hrow : row ∈ w'.messages)
    (hid : row.id = key)
    (hent : historyEntry row (.str m) = .ok (copy?.map fun g => entryOf row g.body g.nonce))
    (hfl : ∀ g, copy? = some g → flushed row (entryOf row g.body g.nonce) = g) :
    Gives cfg w' key m copy? := by
  refine ⟨⟨row, hrow, hid, hent, hfl⟩, fun k s' f' hk hlog huser hin hpend hok g => ?_⟩
  rw [hk] at hid
  have hrun : ((Input.frame s' f').prog cfg).exec w' = (login cfg s' f').exec w' :=
    congrArg (fun q => RouterM.exec q w') (handle_login cfg s' hlog)
  have hmsgs := Step.msgs_of cfg w' (.frame s' f')
  have hafter : (Step.of cfg w' (.frame s' f')).after = ((login cfg s' f').exec w').2 :=
    congrArg Prod.snd hrun
  have hout : ((login cfg s' f').exec w').1 = .ok () := (congrArg Prod.fst hrun).symm.trans hok
  rw [hafter] at hmsgs
  -- What the login sends is the hand-over of the queue under `m`.
  have hhand : (handed (.str m) (MessageStore.queued w' m)).2 = .ok () ∧
      (Step.of cfg w' (.frame s' f')).out.filter (fun d => d.frame.type = .msg) =
        (handed (.str m) (MessageStore.queued w' m)).1.map fun g => ⟨s', some (.str m), g⟩ := by
    rcases login_effect cfg s' f' w' with ⟨-, hnot⟩ | ⟨-, hh, -⟩
    · exact (hnot hin).elim
    · rw [huser] at hh
      generalize (login cfg s' f').exec w' = r at hh hmsgs hout
      obtain ⟨e, w''⟩ := r
      cases hh with
      | unreached _ _ => cases hout
      | storeless hno _ _ => simp [hc] at hno
      | nameless _ ht _ _ => simp [Sql.text_str_ok] at ht
      | flushed _ ht _ hm =>
        obtain rfl := Option.some.inj (Sql.text_str_ok.mp ht).2
        rw [hm] at hmsgs
        exact ⟨hout, (List.append_cancel_left hmsgs).symm⟩
  have hqueued : row ∈ MessageStore.queued w' m := by
    refine (List.mem_insertionSort _).mpr (List.mem_filter.mpr ⟨hrow, ?_⟩)
    simp only [List.any_eq_true, Bool.and_eq_true, beq_iff_eq]
    exact ⟨(k, m), hpend, hid.symm, rfl⟩
  have hmem : ∀ {d}, (d ∈ (Step.of cfg w' (.frame s' f')).out ∧ d.frame.type = .msg) ↔
      ∃ g ∈ (handed (.str m) (MessageStore.queued w' m)).1, d = ⟨s', some (.str m), g⟩ := by
    intro d
    have : d ∈ (Step.of cfg w' (.frame s' f')).out.filter (fun d => d.frame.type = .msg) ↔ _ :=
      List.mem_filter
    rw [hhand.2] at this
    simp only [decide_eq_true_eq] at this
    rw [← this, List.mem_map]
    simp only [eq_comm]
  constructor
  · rintro ⟨d, hd, rfl, htype, hdk⟩
    obtain ⟨g, hg, rfl⟩ := hmem.mp ⟨hd, htype⟩
    obtain ⟨row', hr', entry, he', rfl⟩ := mem_handed hg
    have hrow' : row' ∈ w'.messages :=
      (List.mem_filter.mp ((List.mem_insertionSort _).mp hr')).1
    -- The id of the frame is the row's, and only one row has it.
    have hid' : row'.id = some k := by
      have hdk : (row'.id.map Json.str).getD .null = .str k := hdk
      cases hri : row'.id with
      | none => simp [hri] at hdk
      | some k' => simpa [hri] using hdk
    obtain rfl : row' = row := huniq.eq hrow' hrow hid' hid
    rw [hent] at he'
    obtain ⟨g, hcopy, rfl⟩ := Option.map_eq_some_iff.mp (Except.ok.inj he')
    rw [hcopy, hfl g hcopy]
  · intro hg
    have hin' : flushed row (entryOf row g.body g.nonce) ∈
        (handed (.str m) (MessageStore.queued w' m)).1 :=
      handed_complete hhand.1 hqueued (by rw [hent, hg]; rfl)
    rw [hfl g hg] at hin'
    obtain ⟨hd, htype⟩ := hmem.mpr ⟨g, hin', rfl⟩
    refine ⟨_, hd, rfl, htype, ?_⟩
    rw [← hfl g hg]
    simp [flushed, hid]

omit [Runtime] in
/-- Handing a row over does not depend on receipts. -/
theorem flushed_unmarked {row row' : Row} (h : row'.unmarked = row.unmarked) (b n : Json) :
    flushed row' (entryOf row' b n) = flushed row (entryOf row b n) := by
  have hf : ∀ r : Row, flushed r (entryOf r b n) = flushed r.unmarked (entryOf r.unmarked b n) :=
    fun _ => rfl
  rw [hf row', hf row, h]

omit [Runtime] in
/-- Nobody is queued under an id that is free. -/
theorem PendingStored.fresh {w : World} (h : PendingStored w) {key : Str}
    (hf : w.fresh (some key)) (name : Str) : (key, name) ∉ w.pending := by
  intro hp
  obtain ⟨r, hr, hid⟩ := h _ hp
  rcases hf with hn | hne
  · cases hn
  · exact hne r hr hid

/-- An absent member is queued exactly when there is a copy for them. -/
theorem mem_away (hr : room.startsWith roomPrefix = true) (he : f.get "env" = .dict env) {m : Str}
    (hm : m ∈ memberNames w room) (hme : me ≠ .str m)
    (hoff : SessionRegistry.get w (.str m) = none) :
    m ∈ away w (copies w me f room) ↔
      (addressedTo (outgoing me f) (some env) m).isSome = true := by
  have hcopies : copies w me f room =
      (Str.sorted (memberNames w room)).filterMap (copyFor me (outgoing me f) (some env)) := by
    rw [copies, if_pos hr, he]
    rfl
  rw [away, hcopies, List.mem_map]
  constructor
  · intro h
    obtain ⟨c, hc, rfl⟩ := h
    obtain ⟨n, -, hcopy⟩ := List.mem_filterMap.mp (List.mem_filter.mp hc).1
    obtain ⟨hcn, -⟩ := copyFor_msg hcopy
    rw [← hcn, copyFor, if_neg hme] at hcopy
    obtain ⟨g, hg, -⟩ := Option.map_eq_some_iff.mp hcopy
    rw [hg]
    rfl
  · intro h
    obtain ⟨g, hg⟩ := Option.isSome_iff_exists.mp h
    refine ⟨(m, g), List.mem_filter.mpr ⟨List.mem_filterMap.mpr ⟨m, Str.mem_sorted.mpr hm, ?_⟩, ?_⟩,
      rfl⟩
    · rw [copyFor, if_neg hme, hg]
      rfl
    · simp [hoff]

/-- What the row holds for `m` is what it held when it was stored. -/
theorem Accepted.content_later {uuid : Nat → Str} {clock : Nat → Int} {salt : Nat → List UInt8}
    (h : Run cfg (World.start uuid clock salt) tr w) (hc : cfg.messages = true)
    (hacc : Accepted cfg w s me f room key) (hr : room.startsWith roomPrefix = true)
    (he : f.get "env" = .dict env)
    (hround : Runtime.loads (Runtime.dumps (.dict env)) = .ok (.dict env))
    (hsome : Runtime.dumps (.dict env) ≠ []) (m : Str) {tr' : List Step} {w' : World}
    (hrun : Run cfg (Step.of cfg w (.frame s f)).after tr' w') :
    ∃ row₀ row, Stores me f row₀ ∧ me = .str row₀.sender ∧ row₀.id = key ∧ row ∈ w'.messages ∧
      row.unmarked = row₀.unmarked ∧ contentFor row (.str m) =
        .ok ((addressedTo (outgoing me f) (some env) m).map fun g => (g.body, g.nonce)) := by
  have hw : Wired w := h.wired (wired_start uuid clock salt)
  obtain ⟨⟨row₀, hrow₀, hid, hst⟩, -, -⟩ := hacc.effect hw hc
  have hrec : row₀.recipient = room := Json.str.inj (hst.target.symm.trans hacc.accepts.1)
  have hmem : row₀ ∈ (Step.of cfg w (.frame s f)).after.messages := by
    rw [hrow₀]
    exact List.mem_append_right _ (List.mem_singleton.mpr rfl)
  obtain ⟨row, hrow, heq⟩ := hrun.keeps_row hmem
  refine ⟨row₀, row, hst, ?_, hid, hrow, heq, ?_⟩
  · exact hst.sender_eq (hw.named s me hacc.session) (hrec ▸ hacc.accepts.2.2)
  · rw [contentFor_unmarked heq]
    exact contentFor_envelopes hst (hrec ▸ hr) he hround hsome m

end Runs

/-! ## A concrete room -/

namespace Sample

/-- `a` has made a room with `b` in it, who is away. -/
def roomy : List Input :=
  [register "a", register "b", login 0 "a",
    .frame 0 (ask .createRoom [("room", .str "#r"), ("members", .list [.str "b"])])]

/-- A message to the room, with an envelope for `b`. -/
def sealedMsg : Frame :=
  { type := .msg, target := .str "#r", data := [("env", .dict env)], id := .str "i", ts := 5 }

/-- The same under an id that is no string. -/
def sealedUnder (id : Json) : Input := .frame 0 { sealedMsg with id }

/-- The ids of the messages a server has put in outboxes by the end of a run. -/
def sentIds [Runtime] (is : List Input) : List Json :=
  (msgs (fresh.after chatServer is)).map fun d => d.frame.id

end Sample

section Concrete

open Sample

attribute [local instance] sampleRuntime

theorem sealedMsg_accepted :
    Accepted chatServer (fresh.after chatServer roomy) 0 (.str "a") sealedMsg "#r"
      (some (Str.ofString "i")) where
  type := rfl
  session := by decide +kernel
  id := by decide +kernel
  fresh := .inr (by decide +kernel)
  accepts := ⟨rfl, by decide, by unfold Admitted; decide +kernel⟩
  returned := by decide +kernel

end Concrete

end Ciphertext
