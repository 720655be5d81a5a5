import Mathlib.Data.List.Pairwise
import Ciphertext.Server.Steps

/-!
# Who is logged in

Between two calls the registry and the connections agree: a name is online on
exactly the connection that carries it, no two names online are the same, and
every one of them was verified against an account. Accounts are never removed,
and each has a name that can be stored and is not a room's.

`Wired` is that agreement, as a structure with a field for each part, and `Run.wired` says
that it holds after every run from a server nobody is connected to. Only three calls touch
what it speaks of, and there is a lemma for each: `Wired.login`, `Wired.logout`, and
`Wired.of_same` for everything else.

What is said here of memberships (that none is doubled, and that their names can be
stored) is proved from the calls in the same way, by `Run.call_inv`.
-/

namespace Ciphertext

open Prog MessageRouter

variable [Runtime]

/-! ## Accounts -/

/-- A name an account may have. -/
def goodName (name : Str) : Prop :=
  name.encodable = true ∧ name ≠ [] ∧ name.startsWith roomPrefix = false

/-- **What a REGISTER does** to the accounts. -/
theorem register_effect (s : Sid) (f : Frame) (w : World) :
    ((register s f).exec w).2.accounts = w.accounts ∨
      ∃ a, ((register s f).exec w).2.accounts = w.accounts ++ [a] ∧ goodName a.username ∧
        (∀ a' ∈ w.accounts, a'.username ≠ a.username) := by
  unfold register
  dsimp only
  split
  · exact .inl rfl
  next htr =>
    split
    next name hname =>
      cases hd : name.startsWith roomPrefix with
      | true => exact .inl rfl
      | false =>
        simp only [Bool.false_eq_true, if_false]
        rw [RouterM.exec_bind, RouterM.exec_call]
        simp only [exec]
        cases hr : SqliteUsers.register w name (f.get "pass_hash") (f.get "pubkey") with
        | error e => exact .inl rfl
        | ok r =>
          obtain ⟨b, w'⟩ := r
          obtain ⟨he, ⟨rfl, rfl, -⟩ | ⟨rfl, hfree, a, ha, -, rfl⟩⟩ := SqliteUsers.register_cases hr
          · exact .inl rfl
          · refine .inr ⟨a, rfl, ⟨ha ▸ he, ?_, ha ▸ hd⟩, fun a' ha' => ha ▸ hfree a' ha'⟩
            rw [ha]
            rintro rfl
            simp [hname, Json.truthy] at htr
    next => exact .inl rfl

/-- A step adds one account at most, and under a new name. -/
theorem step_accounts (cfg : Config) (w : World) (i : Input) :
    (Step.of cfg w i).after.accounts = w.accounts ∨
      ∃ a, (Step.of cfg w i).after.accounts = w.accounts ++ [a] ∧ goodName a.username ∧
        (∀ a' ∈ w.accounts, a'.username ≠ a.username) := by
  cases i with
  | hangup s => exact .inl (onDisconnect_same s w (x := .accounts) (by simp) (by simp) (by simp))
  | frame s f =>
    by_cases hreg : f.type = .register
    · have hrun : handle cfg s f = register s f := by
        unfold handle
        rw [hreg]
      have hafter : (Step.of cfg w (.frame s f)).after = ((register s f).exec w).2 :=
        congrArg (fun q => (RouterM.exec q w).2) hrun
      rw [hafter]
      exact register_effect s f w
    · refine .inl (handle_same cfg s f w (x := .accounts) (by simp) ?_)
      rw [MessageType.mem_fields]
      simpa [Field.writers] using hreg

/-- No account is removed. -/
theorem step_accounts_subset (cfg : Config) (w : World) (i : Input) {a : Account}
    (h : a ∈ w.accounts) : a ∈ (Step.of cfg w i).after.accounts := by
  rcases step_accounts cfg w i with hs | ⟨b, hs, -⟩ <;> rw [hs]
  · exact h
  · exact List.mem_append_left _ h

/-- A verified name is the name of an account. -/
theorem SqliteUsers.verify_account {w : World} {u p : Json} (h : SqliteUsers.verify w u p = .ok true) :
    ∃ a ∈ w.accounts, Sql.text u = .ok (some a.username) := by
  unfold SqliteUsers.verify at h
  simp only [Bind.bind, Except.bind, Pure.pure, Except.pure] at h
  split at h
  · cases h
  next name hn =>
    split at h
    · split at h <;> cases h
    next a ha =>
      refine ⟨a, List.mem_of_find?_eq_some ha, ?_⟩
      have := List.find?_some ha
      rw [hn, ← beq_iff_eq.mp this]

/-! ## The invariant -/

/-- The accounts, the sessions and the index of who is online fit together: a name is in the
index exactly while its session has it, once, and it is the name of an account. -/
structure Wired (w : World) : Prop where
  online : ∀ e ∈ w.online, w.username e.2 = some e.1
  claimed : ∀ s u, w.username s = some u → (u, s) ∈ w.online
  distinct : w.online.Pairwise fun a b => a.1.pyEq b.1 = false
  named : ∀ s u, w.username s = some u → u.truthy = true
  account : ∀ s u, w.username s = some u → ∃ a ∈ w.accounts, Sql.text u = .ok (some a.username)
  names : ∀ a ∈ w.accounts, goodName a.username

/-- Steps that do not touch who is online. -/
theorem Wired.of_same {w : World} (h : Wired w) {w' : World} (ho : w'.online = w.online)
    (hu : w'.username = w.username) (ha : ∀ a ∈ w.accounts, a ∈ w'.accounts)
    (hn : ∀ a ∈ w'.accounts, goodName a.username) : Wired w' := by
  refine ⟨?_, ?_, ?_, ?_, ?_, hn⟩
  · rw [ho, hu]
    exact h.online
  · rw [ho, hu]
    exact h.claimed
  · rw [ho]
    exact h.distinct
  · rw [hu]
    exact h.named
  · rw [hu]
    intro s u hs
    obtain ⟨a, hmem, ht⟩ := h.account s u hs
    exact ⟨a, ha a hmem, ht⟩

omit [Runtime] in
/-- A connection's name after one connection's name was set. -/
theorem update_some {names : Sid → Option Json} {s t : Sid} {v : Option Json} {u : Json}
    (h : Function.update names s v t = some u) :
    (t = s ∧ v = some u) ∨ (t ≠ s ∧ names t = some u) := by
  by_cases hts : t = s
  · subst hts
    rw [Function.update_self] at h
    exact .inl ⟨rfl, h⟩
  · rw [Function.update_of_ne hts] at h
    exact .inr ⟨hts, h⟩

/-- A new name for a connection that had none. -/
theorem Wired.login {w w' : World} (h : Wired w) {s : Sid} {f : Frame} (hin : LetIn w s f)
    (ho : w'.online = w.online ++ [(f.get "user", s)])
    (hu : w'.username = Function.update w.username s (some (f.get "user")))
    (ha : w'.accounts = w.accounts) : Wired w' := by
  refine ⟨?_, ?_, ?_, ?_, ?_, by rw [ha]; exact h.names⟩
  · rw [ho, hu]
    intro e he
    rcases List.mem_append.mp he with he | he
    · have hes : e.2 ≠ s := fun hes => by
        have := h.online e he
        rw [hes, hin.nobody] at this
        cases this
      rw [Function.update_of_ne hes]
      exact h.online e he
    · rw [List.mem_singleton.mp he, Function.update_self]
  · rw [ho, hu]
    intro t u ht
    rcases update_some ht with ⟨rfl, hv⟩ | ⟨-, ht⟩
    · rw [← Option.some.inj hv]
      exact List.mem_append_right _ (List.mem_singleton.mpr rfl)
    · exact List.mem_append_left _ (h.claimed t u ht)
  · rw [ho]
    refine List.pairwise_append.mpr ⟨h.distinct, List.pairwise_singleton .., fun a hmem b hb => ?_⟩
    rw [List.mem_singleton.mp hb, Json.pyEq_comm]
    exact hin.free a hmem
  · rw [hu]
    intro t u ht
    rcases update_some ht with ⟨rfl, hv⟩ | ⟨-, ht⟩
    · exact Option.some.inj hv ▸ hin.named
    · exact h.named t u ht
  · rw [hu, ha]
    intro t u ht
    rcases update_some ht with ⟨rfl, hv⟩ | ⟨-, ht⟩
    · exact Option.some.inj hv ▸ SqliteUsers.verify_account hin.verified
    · exact h.account t u ht

/-- A connection gives its name up. Only its own entry goes: no other online
name equals it. -/
theorem Wired.logout {w w' : World} (h : Wired w) {s : Sid} {u : Json} (hs : w.username s = some u)
    (ho : w'.online = w.online.filter fun e => !u.pyEq e.1)
    (hu : w'.username = Function.update w.username s none)
    (ha : w'.accounts = w.accounts) : Wired w' := by
  have : Std.Symm fun a b : Json × Sid => a.1.pyEq b.1 = false :=
    ⟨fun a b hab => by rw [Json.pyEq_comm]; exact hab⟩
  have hother : ∀ t v, t ≠ s → w.username t = some v → u.pyEq v = false := fun t v hts htv =>
    h.distinct.forall (h.claimed s u hs) (h.claimed t v htv)
      fun he => hts (congrArg Prod.snd he).symm
  refine ⟨?_, ?_, ?_, ?_, ?_, by rw [ha]; exact h.names⟩
  · rw [ho, hu]
    intro e he
    obtain ⟨he, hne⟩ := List.mem_filter.mp he
    have hes : e.2 ≠ s := fun hes => by
      have := h.online e he
      rw [hes, hs] at this
      rw [← Option.some.inj this, Json.pyEq_refl] at hne
      cases hne
    rw [Function.update_of_ne hes]
    exact h.online e he
  · rw [ho, hu]
    intro t v ht
    rcases update_some ht with ⟨-, hv⟩ | ⟨hts, ht⟩
    · cases hv
    · exact List.mem_filter.mpr ⟨h.claimed t v ht, by simp [hother t v hts ht]⟩
  · rw [ho]
    exact h.distinct.filter _
  · rw [hu]
    intro t v ht
    rcases update_some ht with ⟨-, hv⟩ | ⟨-, ht⟩
    · cases hv
    · exact h.named t v ht
  · rw [hu, ha]
    intro t v ht
    rcases update_some ht with ⟨-, hv⟩ | ⟨-, ht⟩
    · cases hv
    · exact h.account t v ht

/-- Names of accounts have been checked. -/
theorem step_names {w : World} (h : ∀ a ∈ w.accounts, goodName a.username) (cfg : Config)
    (i : Input) : ∀ a ∈ (Step.of cfg w i).after.accounts, goodName a.username := by
  intro a ha
  rcases step_accounts cfg w i with hs | ⟨b, hs, hb, -⟩ <;> rw [hs] at ha
  · exact h a ha
  · rcases List.mem_append.mp ha with ha | ha
    · exact h a ha
    · exact List.mem_singleton.mp ha ▸ hb

/-- Every call keeps the registry and the connections in step. -/
theorem step_wired {w : World} (h : Wired w) (cfg : Config) (i : Input) :
    Wired (Step.of cfg w i).after := by
  have hnames := step_names h.names cfg i
  have haccounts : ∀ a ∈ w.accounts, a ∈ (Step.of cfg w i).after.accounts :=
    fun a => step_accounts_subset cfg w i
  cases i with
  | hangup s =>
    have heff := (onDisconnect_effect s w).2.2.2
    cases hu : w.username s with
    | none =>
      rw [hu] at heff
      exact h.of_same heff.1 heff.2 haccounts hnames
    | some u =>
      rw [hu] at heff
      exact h.logout hu heff.1 heff.2
        (onDisconnect_same s w (x := .accounts) (by simp) (by simp) (by simp))
  | frame s f =>
    by_cases hlog : f.type = .login
    · have hrun : (Step.of cfg w (.frame s f)).after = ((login cfg s f).exec w).2 :=
        congrArg (fun q => (RouterM.exec q w).2) (handle_login cfg s hlog)
      have hacc : (Step.of cfg w (.frame s f)).after.accounts = w.accounts :=
        handle_same cfg s f w (x := .accounts) (by simp) (by simp [hlog, MessageType.fields])
      rw [hrun] at haccounts hnames hacc ⊢
      rcases login_effect cfg s f w with ⟨ha, -⟩ | ⟨hin, -, ho, hu, -⟩
      · exact h.of_same ha.online ha.username haccounts hnames
      · exact h.login hin ho hu hacc
    · have hsame : ∀ x : Field, x = .online ∨ x = .username →
          x.Same w (Step.of cfg w (.frame s f)).after := by
        rintro x hx
        refine handle_same cfg s f w (by rcases hx with rfl | rfl <;> simp) ?_
        rw [MessageType.mem_fields]
        rcases hx with rfl | rfl
        · simpa [Field.writers] using hlog
        · simpa [Field.writers] using hlog
      exact h.of_same (hsame .online (.inl rfl)) (hsame .username (.inr rfl)) haccounts hnames

/-- A server that was just started is wired. -/
theorem wired_start (uuid : Nat → Str) (clock : Nat → Int) (salt : Nat → List UInt8) :
    Wired (World.start uuid clock salt) := by
  constructor <;> simp [World.start]

/-- So is every state it gets to. -/
theorem Run.wired {cfg : Config} {w₀ w : World} {tr : List Step} (h : Run cfg w₀ tr w)
    (h₀ : Wired w₀) : Wired w :=
  h.inv Wired h₀ fun _ i hw => step_wired hw cfg i

/-- Looking a connection up by the name it carries. -/
theorem Wired.get_eq {w : World} (h : Wired w) {s : Sid} {name : Str}
    (hg : SessionRegistry.get w (.str name) = some s) : w.username s = some (.str name) := by
  unfold SessionRegistry.get at hg
  obtain ⟨e, he, rfl⟩ := Option.map_eq_some_iff.mp hg
  have hn := List.find?_some he
  rw [Json.pyEq_str_left] at hn
  rw [h.online e (List.mem_of_find?_eq_some he), hn]

/-- The name of a logged-in session is online. -/
theorem Wired.get_some {w : World} (hw : Wired w) {s : Sid} {name : Str}
    (hs : w.username s = some (.str name)) :
    ∃ t, SessionRegistry.get w (.str name) = some t := by
  have hmem := hw.claimed s _ hs
  have hfound : (w.online.find? fun e => (Json.str name).pyEq e.1).isSome = true :=
    List.find?_isSome.mpr ⟨_, hmem, by simp⟩
  obtain ⟨e, he⟩ := Option.isSome_iff_exists.mp hfound
  exact ⟨e.2, by rw [SessionRegistry.get, he]; rfl⟩

/-! ## Invariants of every call -/

/-- An invariant of every call is one of every run. -/
theorem Run.call_inv {cfg : Config} {w₀ w : World} {tr : List Step} (h : Run cfg w₀ tr w)
    (I : World → Prop) (h₀ : I w₀) (hcall : ∀ o w, I w → I (exec o w).2) : I w :=
  h.inv I h₀ fun w i hw =>
    (Uses.keeps (uses_any (i.prog cfg)) (fun o _ w hw => hcall o w hw) w hw).1

omit [Runtime] in
/-- `INSERT OR IGNORE` adds no row twice. -/
theorem addOnce_nodup {α : Type} [BEq α] [LawfulBEq α] {rows : List α} {x : α} (h : rows.Nodup) :
    (addOnce rows x).Nodup := by
  unfold addOnce
  split
  · exact h
  next hx =>
    have hx : x ∉ rows := by simpa using hx
    exact List.nodup_append.mpr ⟨h, List.nodup_singleton x, fun a ha b hb hab => by
      rw [hab, List.mem_singleton.mp hb] at ha
      exact hx ha⟩

/-- Nobody is in a room twice. -/
theorem exec_memberships_nodup (o : Op) (w : World) (h : w.memberships.Nodup) :
    (exec o w).2.memberships.Nodup := by
  by_cases hx : Field.memberships ∈ o.writesTo
  · cases o with
    | roomsJoin room u =>
      show (commit' w (SqliteRooms.join w room u)).2.memberships.Nodup
      cases hr : SqliteRooms.join w room u with
      | error e => exact h
      | ok w' =>
        obtain ⟨-, ⟨-, rfl⟩ | ⟨name, -, rfl⟩⟩ := SqliteRooms.join_cases hr
        · exact h
        · exact addOnce_nodup h
    | roomsLeave room u =>
      show (commit' w (SqliteRooms.leave w room u)).2.memberships.Nodup
      cases hr : SqliteRooms.leave w room u with
      | error e => exact h
      | ok w' =>
        obtain ⟨-, name, -, rfl⟩ := SqliteRooms.leave_cases hr
        exact h.filter _
    | _ => simp [Op.writesTo] at hx
  · have hsame : (exec o w).2.memberships = w.memberships := exec_same o w hx
    rw [hsame]
    exact h

/-- Nobody is in a room twice. -/
theorem Run.memberships_nodup {cfg : Config} {w₀ w : World} {tr : List Step}
    (h : Run cfg w₀ tr w) (h₀ : w₀.memberships.Nodup) : w.memberships.Nodup :=
  h.call_inv (fun w => w.memberships.Nodup) h₀ exec_memberships_nodup

omit [Runtime] in
theorem memberNames_nodup {w : World} (h : w.memberships.Nodup) (room : Str) :
    (memberNames w room).Nodup := by
  unfold memberNames
  refine List.Nodup.map_on ?_ (h.filter _)
  intro a ha b hb hn
  have ha' := (List.mem_filter.mp ha).2
  have hb' := (List.mem_filter.mp hb).2
  simp only [beq_iff_eq] at ha' hb'
  exact Prod.ext (ha'.trans hb'.symm) hn

/-- Nobody has two copies of a message. -/
theorem filterMap_copyFor_nodup {me : Json} {f : Frame} {env : Option Dict} {names : List Str}
    (h : names.Nodup) :
    ((names.filterMap (copyFor me (outgoing me f) env)).map Prod.fst).Nodup := by
  induction names with
  | nil => exact List.nodup_nil
  | cons name names ih =>
    obtain ⟨hnot, htail⟩ := List.nodup_cons.mp h
    cases hc : copyFor me (outgoing me f) env name with
    | none =>
      rw [List.filterMap_cons_none hc]
      exact ih htail
    | some r =>
      rw [List.filterMap_cons_some hc, List.map_cons, List.nodup_cons]
      refine ⟨fun hmem => hnot ?_, ih htail⟩
      obtain ⟨r', hr', heq⟩ := List.mem_map.mp hmem
      obtain ⟨name', hname', hr'⟩ := List.mem_filterMap.mp hr'
      rw [← (copyFor_msg hc).1, ← heq, (copyFor_msg hr').1]
      exact hname'

/-- So no member gets two copies of a message. -/
theorem copies_nodup {w : World} (h : w.memberships.Nodup) (me : Json) (f : Frame) (target : Str) :
    ((copies w me f target).map Prod.fst).Nodup := by
  unfold copies
  split
  · exact filterMap_copyFor_nodup (Str.sorted_nodup (memberNames_nodup h target))
  · exact List.nodup_singleton _

/-! ## The names of members -/

/-- Every member's name can be stored again. -/
def Enrolled (w : World) : Prop := ∀ m ∈ w.memberships, m.2.encodable = true

/-- A value that is stored as text one can store again. -/
def Spells (u : Json) : Prop := ∀ name, Sql.text u = .ok (some name) → name.encodable = true

theorem spells_str {u : Json} (h : u.asStr.isSome = true) : Spells u := by
  intro name hname
  cases u with
  | str s =>
    obtain ⟨he, hs⟩ := Sql.text_str_ok.mp hname
    rw [Option.some.inj hs]
    exact he
  | _ => cases h

/-- A name that is logged in spells an account. -/
theorem Wired.spells {w : World} (hw : Wired w) {s : Sid} {me : Json}
    (hu : w.username s = some me) : Spells me := by
  intro name hname
  obtain ⟨a, ha, ht⟩ := hw.account s me hu
  have heq : some a.username = some name := Except.ok.inj (ht.symm.trans hname)
  rw [← Option.some.inj heq]
  exact (hw.names a ha).1

/-- What holds of every membership still does after a call that adds none
without it. -/
theorem exec_memberships {P : Str × Str → Prop} (o : Op) (w : World) (h : ∀ m ∈ w.memberships, P m)
    (ho : ∀ room u name, o = .roomsJoin room u → Sql.text u = .ok (some name) → P (room, name)) :
    ∀ m ∈ (exec o w).2.memberships, P m := by
  by_cases hx : Field.memberships ∈ o.writesTo
  · cases o with
    | roomsJoin room u =>
      show ∀ m ∈ (commit' w (SqliteRooms.join w room u)).2.memberships, P m
      cases hr : SqliteRooms.join w room u with
      | error e => exact h
      | ok w' =>
        obtain ⟨-, ⟨-, rfl⟩ | ⟨name, hname, rfl⟩⟩ := SqliteRooms.join_cases hr
        · exact h
        · intro m hm
          rcases mem_addOnce.mp hm with hm | rfl
          · exact h m hm
          · exact ho room u name rfl hname
    | roomsLeave room u =>
      show ∀ m ∈ (commit' w (SqliteRooms.leave w room u)).2.memberships, P m
      cases hr : SqliteRooms.leave w room u with
      | error e => exact h
      | ok w' =>
        obtain ⟨-, name, -, rfl⟩ := SqliteRooms.leave_cases hr
        exact fun m hm => h m (List.mem_of_mem_filter hm)
    | _ => simp [Op.writesTo] at hx
  · have hsame : (exec o w).2.memberships = w.memberships := exec_same o w hx
    rw [hsame]
    exact h

/-- A call that joins nobody to a room but `me` and people named by a string, and
to no room but the one the request names, if that is a room name. -/
def joinsRoom (me : Json) (f : Frame) (o : Op) : Prop :=
  ∀ room u, o = .roomsJoin room u →
    (u = me ∨ u.asStr.isSome = true) ∧ roomProblem (f.get "room") = .ok room

omit [Runtime] in
/-- The requests that put somebody in a room. -/
theorem writes_roomsJoin {t : MessageType} {room : Str} {u : Json} (h : t.writes (.roomsJoin room u) = true) :
    t = .createRoom ∨ t = .invite ∨ t = .join := by
  cases t with
  | createRoom => exact .inl rfl
  | invite => exact .inr (.inl rfl)
  | join => exact .inr (.inr rfl)
  | _ => cases h

/-- Whom a request of somebody logged in as `me` can join, and to which room. -/
theorem dispatch_joinsRoom (cfg : Config) (s : Sid) (me : Json) (f : Frame) :
    (dispatch cfg s me f).Uses (joinsRoom me f) := by
  have hprint : ∀ {p : RouterM Unit} {F : Footprint}, p.Uses F.allows →
      (∀ room u, F.writes (.roomsJoin room u) →
        (u = me ∨ u.asStr.isSome = true) ∧ roomProblem (f.get "room") = .ok room) →
      p.Uses (joinsRoom me f) := by
    intro p F hp hF
    refine hp.mono fun o ho room u he => ?_
    subst he
    rcases ho with hq | hw | ⟨t, g, he, -⟩
    · cases hq
    · exact hF room u hw
    · cases he
  by_cases hjoin : f.type = .createRoom ∨ f.type = .invite ∨ f.type = .join
  · unfold dispatch
    rcases hjoin with h | h | h <;> rw [h]
    · refine hprint (createRoom_uses s me f) ?_
      rintro room u (⟨_, he⟩ | ⟨_, _, he, hu, hr⟩)
      · cases he
      · cases he
        exact ⟨hu, hr⟩
    · refine hprint (invite_uses s me f) ?_
      rintro room u ⟨_, _, he, hu, hr⟩
      cases he
      exact ⟨.inr hu, hr⟩
    · refine hprint (join_uses s me f) ?_
      rintro room u ⟨_, he, hr⟩
      cases he
      exact ⟨.inl rfl, hr⟩
  · refine hprint (dispatch_uses cfg s me f) fun room u hw => ?_
    exact absurd (writes_roomsJoin hw) hjoin

/-- What holds of every membership holds after a step too, if it holds for rooms
with a valid name and people whose name can be stored. -/
theorem step_memberships {P : Str × Str → Prop} {w : World} (hw : Wired w)
    (h : ∀ m ∈ w.memberships, P m)
    (hP : ∀ v room name, roomProblem v = .ok room → name.encodable = true → P (room, name))
    (cfg : Config) (i : Input) : ∀ m ∈ (Step.of cfg w i).after.memberships, P m := by
  have hsame : (Step.of cfg w i).after.memberships = w.memberships →
      ∀ m ∈ (Step.of cfg w i).after.memberships, P m := by
    intro he
    rw [he]
    exact h
  cases i with
  | hangup s => exact hsame (onDisconnect_same s w (x := .memberships) (by simp) (by simp) (by simp))
  | frame s f =>
    by_cases hx : Field.memberships ∈ f.type.fields
    case neg => exact hsame (handle_same cfg s f w (x := .memberships) (by simp) hx)
    have hp : f.type ≠ .ping := fun ht => by simp [ht, MessageType.fields] at hx
    have hr : f.type ≠ .register := fun ht => by simp [ht, MessageType.fields] at hx
    have hl : f.type ≠ .login := fun ht => by simp [ht, MessageType.fields] at hx
    cases hu : w.username s with
    | none =>
      have hrun := handle_nobody cfg s hp hr hl hu
      exact hsame (congrArg (fun r => r.2.memberships) hrun)
    | some me =>
      have hrun : (Step.of cfg w (.frame s f)).after = ((dispatch cfg s me f).exec w).2 :=
        congrArg Prod.snd (handle_dispatch cfg s hp hr hl hu)
      rw [hrun]
      refine (Uses.keeps (I := fun w' => ∀ m ∈ w'.memberships, P m)
        (dispatch_joinsRoom cfg s me f) (fun o ho w' hw' => ?_) w h).1
      refine exec_memberships o w' hw' fun room u name he hname => ?_
      obtain ⟨hjoined, hroom⟩ := ho room u he
      refine hP _ room name hroom ?_
      rcases hjoined with rfl | hstr
      · exact hw.spells hu name hname
      · exact spells_str hstr name hname

/-- What is true of every checked room and encodable name is true of every membership. -/
theorem Run.memberships {P : Str × Str → Prop} {cfg : Config} {w₀ w : World} {tr : List Step}
    (h : Run cfg w₀ tr w) (h₀ : Wired w₀) (hn : w₀.memberships = [])
    (hP : ∀ v room name, roomProblem v = .ok room → name.encodable = true → P (room, name)) :
    ∀ m ∈ w.memberships, P m := by
  have hboth : Wired w ∧ ∀ m ∈ w.memberships, P m := by
    refine h.inv (fun w => Wired w ∧ ∀ m ∈ w.memberships, P m) ⟨h₀, ?_⟩ fun w i hw => ?_
    · intro m hm
      rw [hn] at hm
      cases hm
    · exact ⟨step_wired hw.1 cfg i, step_memberships hw.1 hw.2 hP cfg i⟩
  exact hboth.2

/-- Every state that a fresh server gets to is enrolled. -/
theorem Run.enrolled {cfg : Config} {w₀ w : World} {tr : List Step} (h : Run cfg w₀ tr w)
    (h₀ : Wired w₀) (hn : w₀.memberships = []) : Enrolled w :=
  h.memberships h₀ hn fun _ _ _ _ hname => hname

end Ciphertext
