import Ciphertext.Server.Lives
import Ciphertext.Server.Ticks

/-!
# What no restart takes back

Accounts, messages and receipts over all the lives of the server.

A name is given away once. Until then every answer is that there is no such
account; from then on every answer is about the one row that was written, the
password that opens it and the key that is handed out included.

Messages stay as they were recorded, in their order, and a receipt that was
passed on stays in the row it is about.

`registered_for_good` is the first of these, `Lives.keeps_messages` the second and
`told_permanent` the third. All three are about any number of lives, each killed in the
middle of whatever its threads were doing, and rest on two facts: what is on the disk is
what some whole calls made (`crash_prefix`), and each call changes a table only in
certain ways (`exec_grown` for the messages). `keeps_messages` compares any two moments,
one in the life or after the life of the other (`Later`).
-/

namespace Ciphertext

open Prog Sql MessageRouter

section Server

variable [Runtime]

/-! ## Accounts -/

/-- The password hash that is let in. -/
def Account.Opens (a : Account) (passHash : Json) : Prop := SqliteUsers.derive passHash a.salt = .ok a.digest

/-- It does not speak of an account of this name, unless to say that there is none. -/
def Unknown (u : Str) : Event routerSig → Prop
  | ⟨.usersRegister name _ _, _⟩ => name ≠ u
  | ⟨.usersVerify v _, b⟩ => Sql.text v = .ok (some u) → b = false
  | ⟨.usersExists name, b⟩ => name = u → b = false
  | ⟨.usersPubkey name, r⟩ => name = u → r = none
  | _ => True

/-- What it says of this account's name is what is in the account. -/
def Known (a : Account) : Event routerSig → Prop
  | ⟨.usersRegister name _ _, b⟩ => name = a.username → b = false
  | ⟨.usersVerify v passHash, b⟩ => Sql.text v = .ok (some a.username) → (b = true ↔ a.Opens passHash)
  | ⟨.usersExists name, b⟩ => name = a.username → b = true
  | ⟨.usersPubkey name, r⟩ => name = a.username → r = a.pubkey
  | _ => True

section Calls

variable {w w' : World} {u : Str}

omit [Runtime] in
theorem account_none {t : Tables} : t.account u = none ↔ ∀ a ∈ t.accounts, a.username ≠ u := by
  simp [Tables.account]

/-- A new account is opened by the password hash it was registered with. -/
theorem SqliteUsers.register_true {p k : Json} (h : SqliteUsers.register w u p k = .ok (true, w')) :
    ∃ a, a.username = u ∧ a.Opens p ∧ Sql.text k = .ok a.pubkey ∧
      (∀ b ∈ w.accounts, b.username ≠ u) ∧ w' = { w with accounts := w.accounts ++ [a] } := by
  unfold SqliteUsers.register at h
  simp only [Bind.bind, Except.bind, Pure.pure, Except.pure] at h
  split at h
  · cases h
  next digest hdigest =>
    split at h
    · cases h
    next name hname =>
      obtain ⟨-, rfl⟩ := Sql.str_ok.mp hname
      split at h
      · cases h
      next hnew =>
        split at h
        · cases h
        next key hkey =>
          cases h
          have hopens : Account.Opens ⟨name, w.salt w.accounts.length, digest, key⟩ p := hdigest
          exact ⟨_, rfl, hopens, hkey, by simpa using hnew, rfl⟩

theorem verify_known {a : Account} (ha : (tablesOf w).account u = some a) {v p : Json} {b : Bool}
    (hv : Sql.text v = .ok (some u)) (h : SqliteUsers.verify w v p = .ok b) : b = true ↔ a.Opens p := by
  have hfind : (w.accounts.find? fun x => some x.username == some u) = some a := ha
  unfold SqliteUsers.verify at h
  simp only [hv, hfind, Bind.bind, Except.bind, Pure.pure, Except.pure] at h
  unfold Account.Opens
  cases hd : SqliteUsers.derive p a.salt with
  | error e =>
    rw [hd] at h
    cases h
  | ok digest =>
    rw [hd] at h
    cases h
    rw [beq_iff_eq, Except.ok.injEq, eq_comm]

theorem verify_unknown (hu : (tablesOf w).account u = none) {v p : Json} {b : Bool}
    (hv : Sql.text v = .ok (some u)) (h : SqliteUsers.verify w v p = .ok b) : b = false := by
  have hfind : (w.accounts.find? fun x => some x.username == some u) = none := hu
  unfold SqliteUsers.verify at h
  simp only [hv, hfind, Bind.bind, Except.bind, Pure.pure, Except.pure] at h
  split at h <;> cases h
  rfl

omit [Runtime] in
theorem exists_iff {name : Str} {b : Bool} (h : SqliteUsers.exists' w name = .ok b) :
    b = true ↔ ∃ a ∈ w.accounts, a.username = name := by
  unfold SqliteUsers.exists' at h
  cases hname : Sql.str name with
  | error e =>
    rw [hname] at h
    cases h
  | ok name' =>
    obtain ⟨-, rfl⟩ := Sql.str_ok.mp hname
    rw [hname] at h
    cases h
    simp

omit [Runtime] in
theorem commit_ok {α : Type} {x : Except PyErr (α × World)} {r : α} (h : commit w x = (.ok r, w')) :
    x = .ok (r, w') := by
  cases x with
  | error e => cases (Prod.mk.inj h).1
  | ok y =>
    obtain ⟨hr, hw⟩ := Prod.mk.inj h
    cases hr
    cases hw
    rfl

/-- An account is not changed, and what is answered about it is in it. -/
theorem exec_known {a : Account} (ha : (tablesOf w).account u = some a) {o : Op} {r : Op.Ret o}
    (h : exec o w = (.ok r, w')) : (tablesOf w').account u = some a ∧ Known a ⟨o, r⟩ := by
  have hname := account_name ha
  refine ⟨?_, ?_⟩
  · obtain ⟨new, hnew⟩ := (exec_accounts o w).1
    rw [h] at hnew
    show w'.accounts.find? _ = some a
    rw [← hnew, List.find?_append]
    exact Option.or_eq_some_iff.mpr (.inl ha)
  · cases o with
    | usersRegister name p k =>
      intro heq
      obtain ⟨-, ⟨hb, -⟩ | ⟨-, hno, -⟩⟩ := SqliteUsers.register_cases (commit_ok h)
      · exact hb
      · exact (hno a (List.mem_of_find?_eq_some ha) heq.symm).elim
    | usersVerify v p =>
      intro hv
      exact verify_known ha (hname ▸ hv) (Prod.mk.inj h).1
    | usersExists name =>
      intro heq
      exact exists_iff (Prod.mk.inj h).1 |>.mpr ⟨a, List.mem_of_find?_eq_some ha, heq.symm⟩
    | usersPubkey name =>
      intro heq
      have hr := pubkey_eq (Prod.mk.inj h).1
      rwa [heq, hname, ha] at hr
    | _ => trivial

/-- A name without an account is spoken of only to give it one. -/
theorem exec_unknown (hu : (tablesOf w).account u = none) {o : Op} {r : Op.Ret o} (h : exec o w = (.ok r, w')) :
    ((tablesOf w').account u = none ∧ Unknown u ⟨o, r⟩) ∨
      ∃ p k a, (⟨o, r⟩ : Event routerSig) = ⟨.usersRegister u p k, true⟩ ∧ (tablesOf w').account u = some a ∧
        a.Opens p ∧ Sql.text k = .ok a.pubkey := by
  by_cases hx : Field.accounts ∈ o.writesTo
  · cases o with
    | usersRegister name p k =>
      have hnone := account_none.mp hu
      cases r with
      | false =>
        obtain ⟨-, ⟨-, rfl, a, ha, rfl⟩ | ⟨hb, -⟩⟩ := SqliteUsers.register_cases (commit_ok h)
        · exact .inl ⟨hu, hnone a ha⟩
        · cases hb
      | true =>
        obtain ⟨a, hname, hopens, hkey, hnew, rfl⟩ := SqliteUsers.register_true (commit_ok h)
        subst hname
        by_cases heq : a.username = u
        · subst heq
          refine .inr ⟨p, k, a, rfl, ?_, hopens, hkey⟩
          show (w.accounts ++ [a]).find? _ = some a
          rw [List.find?_append]
          exact Option.or_eq_some_iff.mpr (.inr ⟨hu, by simp⟩)
        · refine .inl ⟨account_none.mpr fun b hb => ?_, heq⟩
          rcases List.mem_append.mp hb with hb | hb
          · exact hnone b hb
          · exact List.mem_singleton.mp hb ▸ heq
    | _ => simp [Op.writesTo] at hx
  · have hsame : w'.accounts = w.accounts := by
      have := exec_same o w hx
      rwa [h] at this
    refine .inl ⟨?_, ?_⟩
    · show w'.accounts.find? _ = none
      rw [hsame]
      exact hu
    · cases o with
      | usersRegister name p k => exact (hx (List.mem_singleton.mpr rfl)).elim
      | usersVerify v p =>
        intro hv
        exact verify_unknown hu hv (Prod.mk.inj h).1
      | usersExists name =>
        rintro rfl
        refine Bool.eq_false_iff.mpr fun hb => ?_
        obtain ⟨a, ha, hname⟩ := (exists_iff (Prod.mk.inj h).1).mp hb
        exact account_none.mp hu a ha hname
      | usersPubkey name =>
        rintro rfl
        have hr := pubkey_eq (Prod.mk.inj h).1
        rwa [hu] at hr
      | _ => trivial

end Calls

omit [Runtime] in
/-- Where a log that has grown by one may be cut. -/
theorem snoc_eq_split {α : Type} {log before after : List α} {e x : α} (h : log ++ [e] = before ++ x :: after) :
    (after = [] ∧ log = before ∧ e = x) ∨ ∃ after', after = after' ++ [e] ∧ log = before ++ x :: after' := by
  rcases List.eq_nil_or_concat after with rfl | ⟨after', y, rfl⟩
  · exact .inl ⟨rfl, List.append_singleton_inj.mp h⟩
  · have h' : log ++ [e] = (before ++ x :: after') ++ [y] := by simpa using h
    obtain ⟨rfl, rfl⟩ := List.append_singleton_inj.mp h'
    exact .inr ⟨after', List.concat_eq_append, rfl⟩

section Accounts

variable {cfg : Config} {w₀ : World} {log : List (Nat × Event routerSig)} {c : Threads} {u : Str}

/-- The answers fit the table: none knows a name that has no account, and where a registration
succeeded none before it knew the name and all after it know the account it made. -/
structure Answered (t : Tables) (log : List (Nat × Event routerSig)) : Prop where
  unknown : ∀ u, t.account u = none → ∀ e ∈ log, Unknown u e.2
  registered : ∀ u a, t.account u = some a → ∀ before x after p k, log = before ++ x :: after →
    x.2 = ⟨.usersRegister u p k, true⟩ → (a.Opens p ∧ Sql.text k = .ok a.pubkey) ∧
      (∀ e ∈ before, Unknown u e.2) ∧ ∀ e ∈ after, Known a e.2

/-- One more answer. -/
theorem Answered.call {w w' : World} (h : Answered (tablesOf w) log) {o : Op} {r : Op.Ret o} (t : Nat)
    (hexec : exec o w = (.ok r, w')) : Answered (tablesOf w') (log ++ [(t, ⟨o, r⟩)]) := by
  constructor
  · intro u hu e he
    cases hold : (tablesOf w).account u with
    | some a =>
      have hkept := (exec_known hold hexec).1
      rw [hu] at hkept
      cases hkept
    | none =>
      rcases exec_unknown hold hexec with ⟨-, hnew⟩ | ⟨-, -, a, -, ha, -⟩
      · rcases List.mem_append.mp he with he | he
        · exact h.unknown u hold e he
        · obtain rfl := List.mem_singleton.mp he
          exact hnew
      · rw [hu] at ha
        cases ha
  · intro u a ha before x after p k hlog hx
    cases hold : (tablesOf w).account u with
    | some a' =>
      obtain ⟨hkept, hknown⟩ := exec_known hold hexec
      obtain rfl : a' = a := Option.some.inj (hkept.symm.trans ha)
      rcases snoc_eq_split hlog with ⟨rfl, rfl, rfl⟩ | ⟨after', rfl, rfl⟩
      · -- it answers for the account, and does not register it
        rw [show (⟨o, r⟩ : Event routerSig) = _ from hx] at hknown
        cases hknown (account_name ha).symm
      · obtain ⟨hmade, hbefore, hafter⟩ := h.registered u a' hold before x after' p k rfl hx
        refine ⟨hmade, hbefore, fun e he => ?_⟩
        rcases List.mem_append.mp he with he | he
        · exact hafter e he
        · obtain rfl := List.mem_singleton.mp he
          exact hknown
    | none =>
      rcases exec_unknown hold hexec with ⟨hnone, -⟩ | ⟨p', k', a', heq, ha', hopens, hkey⟩
      · rw [ha] at hnone
        cases hnone
      · obtain rfl : a' = a := Option.some.inj (ha'.symm.trans ha)
        rcases snoc_eq_split hlog with ⟨rfl, rfl, rfl⟩ | ⟨after', rfl, rfl⟩
        · -- this is the registration
          cases heq.symm.trans hx
          exact ⟨⟨hopens, hkey⟩, h.unknown u hold, fun e he => by cases he⟩
        · have hx' := h.unknown u hold x (by simp)
          rw [hx] at hx'
          exact (hx' rfl).elim

/-- **A name is registered once, for good.** However many times the server is killed, in the middle
of whatever it is doing, and started again: before the registration of a name that succeeded,
nobody was let in under it. After it, every answer in every life is the one account's: the
password hash that was registered opens it and nothing else does but what scrypt takes to the same
digest, the name is never given away again, and the key handed out is the one that came with it. -/
theorem registered_for_good {before after : List (Nat × Event routerSig)} {t : Nat} {p k : Json}
    (h : Lives cfg w₀ (before ++ (t, ⟨.usersRegister u p k, true⟩) :: after) c) :
    ∃ a, c.onDisk.account u = some a ∧ a.Opens p ∧ Sql.text k = .ok a.pubkey ∧
      (∀ e ∈ before, Unknown u e.2) ∧ ∀ e ∈ after, Known a e.2 := by
  have hI : Answered c.onDisk (before ++ (t, ⟨.usersRegister u p k, true⟩) :: after) := by
    refine h.call_inv (I := Answered) ?_ ?_ ?_
    -- the disk may be ahead of the log by one answer that was not given any more
    · intro tables log e hI
      refine ⟨fun u hu x hx => hI.unknown u hu x (List.mem_append_left _ hx), ?_⟩
      intro u a ha before x after p k hlog hx
      have hlog' : log ++ [e] = before ++ x :: (after ++ [e]) := by simp [hlog]
      obtain ⟨hmade, hbefore, hafter⟩ := hI.registered u a ha before x _ p k hlog' hx
      exact ⟨hmade, hbefore, fun y hy => hafter y (List.mem_append_left _ hy)⟩
    · constructor
      · intro u _ e he
        cases he
      · intro u a _ before x after p k hlog
        simp at hlog
    · exact fun w log t o r w' hexec hI => hI.call t hexec
  cases ha : c.onDisk.account u with
  -- a registration that succeeded has put the account on the disk
  | none =>
    have hx := hI.unknown u ha (t, ⟨.usersRegister u p k, true⟩) (by simp)
    exact (hx rfl).elim
  | some a =>
    obtain ⟨⟨hopens, hkey⟩, hbefore, hafter⟩ := hI.registered u a ha before _ after p k rfl rfl
    exact ⟨a, rfl, hopens, hkey, hbefore, hafter⟩

end Accounts

/-! ## Messages and receipts -/

/-- It reports this state of this message to this user. -/
structure HandsOn (ref state target : Json) (g : Frame) : Prop where
  type : g.type = .receipt
  ref : g.get "ref" = ref
  state : g.get "state" = state
  target : g.target = target

omit [Runtime] in
theorem HandsOn.not_of_type {ref state target : Json} {g : Frame} {t : MessageType} (ht : t ≠ .receipt)
    (h : HandsOn ref state target g) : g.type ≠ t :=
  fun hg => ht (hg.symm.trans h.type)

/-- It was written down, and this user is the one to hear of it. -/
def Noted (ref state target : Json) (e : Event routerSig) : Prop :=
  ∃ id st now sender, e = ⟨.messagesMark id st now, some sender⟩ ∧ (st = delivered ∨ st = read) ∧
    ref = .str id ∧ state = .str st ∧ target = .str sender

theorem receipt_gated (cfg : Config) (s : Sid) (me : Json) (f : Frame) (ref state target : Json) :
    (receipt cfg s me f).Gated (Noted ref state target) (Withholds (HandsOn ref state target)) := by
  have hrefuse := fun code message =>
    refuse_withholds (P := HandsOn ref state target) (fun g h => h.not_of_type (by simp)) s code message
  unfold receipt
  dsimp only
  split
  · trivial
  · split
    · exact (hrefuse ..).gated
    next hbad =>
      -- the check that was passed
      have hstate : (f.get "state").pyStr = delivered ∨ (f.get "state").pyStr = read := by
        have h : f.get "state" = .str delivered ∨ f.get "state" = .str read := by
          simp only [Bool.or_eq_true, Bool.not_eq_true', not_or, Bool.not_eq_false] at hbad
          simpa using hbad.2
        rcases h with h | h
        · rw [h]
          exact .inl rfl
        · rw [h]
          exact .inr rfl
      refine gated_call_bind (S := routerSig) (fun _ _ h => by cases h) fun now _ => ?_
      refine gated_call_bind (S := routerSig) (fun _ _ h => by cases h) fun sender hno => ?_
      cases sender with
      | none => trivial
      | some sender =>
        dsimp only
        split
        · trivial
        · refine gated_call_bind (S := routerSig) (fun _ _ h => by cases h) fun recipient _ => ?_
          cases recipient with
          | none => trivial
          | some recipient =>
            have h : (frame .receipt me (.str sender) [("ref", .str (f.get "ref").pyStr),
                  ("state", .str (f.get "state").pyStr)] >>= fun g => MessageRouter.send recipient g).Uses
                (Footprint.allows ⟨fun _ g => g.get "ref" = .str (f.get "ref").pyStr ∧
                  g.get "state" = .str (f.get "state").pyStr ∧ g.target = .str sender, fun _ => False⟩) :=
              Footprint.send_frame fun _ _ => ⟨rfl, rfl, rfl⟩
            refine (h.mono fun o ho => withholds_of_allows (fun _ g hg hpass => ?_) (fun _ _ hw => hw) ho).gated
            exact hno ⟨_, _, _, sender, rfl, hstate, hpass.ref.symm.trans hg.1, hpass.state.symm.trans hg.2.1,
              hpass.target.symm.trans hg.2.2⟩

/-- **No receipt is passed on before it is written down**, whatever the request. -/
theorem Input.handsOn (cfg : Config) (i : Input) (ref state target : Json) :
    (i.prog cfg).Gated (Noted ref state target) (Withholds (HandsOn ref state target)) := by
  cases i with
  | hangup s => exact (onDisconnect_withholds (fun g h => h.not_of_type (by simp)) s).gated
  | frame s f =>
    show (handle cfg s f).Gated _ _
    by_cases hf : f.type = .receipt
    · simp only [handle, hf]
      refine gated_call_bind (S := routerSig) (fun _ _ h => by cases h) fun me _ => ?_
      cases me with
      | none => exact (refuse_withholds (fun g h => h.not_of_type (by simp)) ..).gated
      | some me =>
        simp only [dispatch, hf]
        exact receipt_gated cfg s me f ref state target
    · refine (handle_withholds cfg s f fun g hpass hg => ?_).gated
      rw [hpass.type] at hg
      cases ht : f.type <;> rw [ht] at hg hf <;> first | exact hf rfl | simp [MessageType.yields] at hg

/-- The message it is about is stored, as this sender's, and in this state or a later one. -/
def Sql.Tables.Shows (t : Tables) (id sender : Str) (tick : Tick) : Prop :=
  ∃ row ∈ t.messages, row.id = some id ∧ row.sender = sender ∧ tick ≤ row.tick

omit [Runtime] in
theorem tick_mono {row row' : Row} (hd : ∀ t, row.deliveredAt = some t → row'.deliveredAt = some t)
    (hr : ∀ t, row.readAt = some t → row'.readAt = some t) : row.tick ≤ row'.tick := by
  cases hread : row.readAt with
  | some t =>
    have h : row'.tick = .read := by simp [Row.tick, hr t hread]
    rw [h]
    exact Tick.le_read _
  | none =>
    cases hdel : row.deliveredAt with
    | none =>
      have h : row.tick = ⊥ := by simp [Row.tick, hread, hdel]; rfl
      rw [h]
      exact bot_le
    | some t =>
      have h : row.tick = .delivered := by simp [Row.tick, hread, hdel]
      rw [h]
      unfold Row.tick
      split
      · exact Tick.le_read _
      · simp [hd t hdel]

omit [Runtime] in
theorem Sql.Tables.Shows.grow {t t' : Tables} {id sender : Str} {tick : Tick} (h : t.Shows id sender tick)
    (hgrown : Grown t.messages t'.messages) : t'.Shows id sender tick := by
  obtain ⟨row, hrow, hid, hsender, htick⟩ := h
  obtain ⟨k, hk⟩ := List.getElem?_of_mem hrow
  obtain ⟨row', hk', heq, hd, hr⟩ := hgrown k row hk
  have hsame : row'.sender = row.sender := by
    show row'.unmarked.sender = row.unmarked.sender
    rw [heq]
  exact ⟨row', List.mem_of_getElem? hk', (id_of_unmarked heq).trans hid, hsame.trans hsender,
    htick.trans (tick_mono hd hr)⟩

/-- A receipt that was written down is in the row. -/
theorem exec_mark {w w' : World} {id state sender : Str} {now : Int} (hstate : state = delivered ∨ state = read)
    (h : exec (.messagesMark id state now) w = (.ok (some sender), w')) :
    (tablesOf w').Shows id sender (Tick.ofState state) := by
  obtain ⟨-, ⟨hnone, -⟩ | ⟨row, hfind, hsender, rfl⟩⟩ := MessageStore.mark_cases (commit_ok h)
  · cases hnone
  · have hid : row.id = some id := by simpa using List.find?_some hfind
    refine ⟨MessageStore.markRow row state now, ?_, ?_, ?_, ?_⟩
    · exact List.mem_map.mpr ⟨row, List.mem_of_find?_eq_some hfind, by simp [hid]⟩
    · exact (id_of_unmarked (unmarked_markRow row state now)).trans hid
    · show (MessageStore.markRow row state now).unmarked.sender = sender
      rw [unmarked_markRow]
      exact (Option.some.inj hsender).symm
    · rw [markRow_tick row hstate now]
      exact le_max_right _ _

section Receipts

variable {cfg : Config} {w₀ : World} {log : List (Nat × Event routerSig)} {c : Threads}

/-- **Nothing stored is changed, moved or removed.** Whatever is on the disk at any moment of any
life, the first included, is on it ever after, however often the server is killed: each message at
its place and with its contents, and no receipt taken back. -/
theorem Lives.keeps_messages (h : Lives cfg w₀ log c) :
    Grown w₀.messages c.onDisk.messages ∧
      ∀ c', Later cfg c c' → Grown c.onDisk.messages c'.onDisk.messages := by
  constructor
  · refine h.call_inv (I := fun t _ => Grown w₀.messages t.messages) (fun _ _ _ hI => hI) (.refl _) ?_
    intro w log t o r w' hexec hI
    have hgrown := exec_grown o w
    rw [hexec] at hgrown
    exact hI.trans hgrown
  · intro c' hlater
    refine Later.disk_lets (R := fun t t' => Grown t.messages t'.messages) (fun _ => .refl _)
      (fun _ _ _ h h' => h.trans h') exec_grown h hlater

/-- A receipt that was written down in a run is in its row at the end. -/
theorem Interleaving.shows {a : ServerPool} (h : Interleaving cfg w₀ a) {t : Nat} {id state sender : Str} {now : Int}
    (hstate : state = delivered ∨ state = read) (he : (t, ⟨.messagesMark id state now, some sender⟩) ∈ a.log) :
    (tablesOf a.state).Shows id sender (Tick.ofState state) := by
  refine Pool.Reach.inv (I := fun w log => ∀ t id state now sender, (state = delivered ∨ state = read) →
    (t, ⟨.messagesMark id state now, some sender⟩) ∈ log → (tablesOf w).Shows id sender (Tick.ofState state))
    ?_ ?_ ?_ h t id state now sender hstate he
  · intro t id state now sender _ he
    cases he
  · intro c t l o k r w' _ _ hexec hI t' id state now sender hstate he
    have hgrown := exec_grown o c.state
    rw [hexec] at hgrown
    rcases List.mem_append.mp he with he | he
    · exact (hI t' id state now sender hstate he).grow hgrown
    · obtain ⟨-, heq⟩ := Prod.mk.inj (List.mem_singleton.mp he)
      cases heq
      exact exec_mark hstate hexec
  · intro o e w w' log hexec hI
    rwa [exec_error hexec]

/-- **A receipt that was passed on is on the disk for good.** However many times the server is killed,
in the middle of whatever it is doing, and started again: a message whose sender was ever told that
it had been delivered or read is stored as that sender's, in that state or a later one. -/
theorem told_permanent (h : Lives cfg w₀ log c) {t : Nat} {s : Sid} {g : Frame}
    (he : (t, ⟨.send s g, ()⟩) ∈ log) (hg : g.type = .receipt) :
    ∃ id state sender, g.get "ref" = .str id ∧ g.get "state" = .str state ∧ g.target = .str sender ∧
      (state = delivered ∨ state = read) ∧ c.onDisk.Shows id sender (Tick.ofState state) := by
  refine h.inv (I := fun tables log => ∀ t s g, (t, ⟨.send s g, ()⟩) ∈ log → g.type = .receipt →
    ∃ id state sender, g.get "ref" = .str id ∧ g.get "state" = .str state ∧ g.target = .str sender ∧
      (state = delivered ∨ state = read) ∧ tables.Shows id sender (Tick.ofState state)) ?_ ?_ ?_ t s g he hg
  · intro tables log e hI t s g he
    exact hI t s g (List.mem_append_left _ he)
  · intro t s g he
    cases he
  · intro w log a ha hI t s g he hg
    rcases List.mem_append.mp he with he | he
    · -- in an earlier life: rows only grow
      obtain ⟨id, state, sender, href, hst, hto, hstate, hshows⟩ := hI t s g he hg
      have hgrown := ha.call_inv (fun w' => Grown w.messages w'.messages) (.refl _) fun o w' hw' =>
        hw'.trans (exec_grown o w')
      exact ⟨id, state, sender, href, hst, hto, hstate, hshows.grow hgrown⟩
    · -- in this one: its handler had written it down
      obtain ⟨i, p, ht, hown⟩ := ha.mem_own he
      obtain ⟨q, hq, -⟩ := ha.path ht
      obtain ⟨e', he', id, state, now, sender, rfl, hstate, href, hst, hto⟩ :=
        hq.gated (i.handsOn cfg (g.get "ref") (g.get "state") g.target) hown fun hno => hno s g rfl ⟨hg, rfl, rfl, rfl⟩
      obtain ⟨x, hx, hxe⟩ := List.mem_map.mp he'
      obtain ⟨t', e⟩ := x
      obtain rfl : e = _ := hxe
      exact ⟨id, state, sender, href, hst, hto, hstate, ha.shows hstate (List.mem_filter.mp hx).1⟩

end Receipts

end Server

namespace Sample

/-- `b` comes and reads what `a` wrote. -/
def reading : List Input :=
  [login 2 "b", .frame 2 (ask .receipt [("ref", .str "i"), ("state", .str read)])]

end Sample

section Concrete

open Sample

attribute [local instance] sampleRuntime

/-- In the next life `a` still has the account of the first. -/
theorem publishing_registered :
    ∃ a, (threadsNext publishing (asking 1)).onDisk.account "a" = some a ∧ a.Opens (.str "p") ∧
      Sql.text (.str "k") = .ok a.pubkey ∧
      ∀ e ∈ (servedNext publishing (asking 1)).log, Known a e.2 := by
  have hreg : ∃ x ∈ (served publishing).log, x.2 = ⟨.usersRegister "a" (.str "p") (.str "k"), true⟩ :=
    ⟨(served publishing).log.head (by decide +kernel), List.head_mem _, rfl⟩
  obtain ⟨⟨t, e⟩, hx, he⟩ := hreg
  obtain rfl : e = _ := he
  obtain ⟨before, after, hlog⟩ := List.append_of_mem hx
  have hlives := twoLives publishing (asking 1)
  rw [hlog, List.append_assoc, List.cons_append] at hlives
  obtain ⟨a, ha, hopens, hkey, -, hknown⟩ := registered_for_good hlives
  exact ⟨a, ha, hopens, hkey, fun e he => hknown e (List.mem_append_right _ he)⟩

/-- What `a` was told of is on the disk of the next life. -/
theorem reading_permanent :
    (threadsNext (writing (.str "i") ++ reading) []).onDisk.Shows "i" "a" .read := by
  have hsent : ∃ x ∈ (served (writing (.str "i") ++ reading)).log, ∃ g, x.2 = ⟨.send 0 g, ()⟩ ∧ g.type = .receipt ∧
      g.get "ref" = .str "i" ∧ g.get "state" = .str read ∧ g.target = .str "a" := by
    refine ⟨(served (writing (.str "i") ++ reading)).log.getLast (by decide +kernel), List.getLast_mem _, _, rfl, ?_⟩
    decide +kernel
  obtain ⟨⟨t, e⟩, hx, g, he, hg, href, hst, hto⟩ := hsent
  obtain rfl : e = _ := he
  obtain ⟨id, state, sender, href', hst', hto', -, hshows⟩ :=
    told_permanent (twoLives (writing (.str "i") ++ reading) []) (List.mem_append_left _ hx) hg
  obtain rfl := Json.str.inj (href'.symm.trans href)
  obtain rfl := Json.str.inj (hst'.symm.trans hst)
  obtain rfl := Json.str.inj (hto'.symm.trans hto)
  exact hshows

/-- What a process does that starts with what another left and sees `b` read the message. -/
def servedReading : ServerPool :=
  reading.foldl (Pool.serve Ciphertext.exec (Input.prog chatServer)) ⟨(served (writing (.str "i"))).state, [], []⟩

/-- The message is where it was. -/
theorem writing_kept :
    Grown (served (writing (.str "i"))).state.messages
      (Threads.onDisk (Crew.ofPool (servedReading.mapState partsOf))).messages := by
  have h : Interleaving chatServer (served (writing (.str "i"))).state servedReading := Pool.Reach.serveAll reading
  exact (Lives.keeps_messages (Lives.first h.carriedOut)).1

end Concrete

end Ciphertext
