import Ciphertext.Client.Closing

/-!
# Who has which connection

`Session.close` may come while the supervisor is anywhere in `_watch` or `_reconnect`,
and both get at the connections through `Session._connection`: the closer takes it out
and closes what it took, the supervisor takes a dead one out and publishes a fresh one.
A connection is therefore at every moment shut, published, in the hands of the
supervisor, or in those of the closer, and never in two of these places.

`Custody mine held` says so of a state in which the supervisor works on `mine` and the
closer has `held`. `Access.exec_on` is the frame: a call about one connection leaves all
the others alone. So a step of a connection's threads, of the closer or of anybody else
keeps the custody (`Custody.move`), and the supervisor's own accesses may each be
looked at by itself, in `Closedown`.
-/

namespace Ciphertext

namespace Client

/-- The call is about this connection, or about none. -/
def Access.on (i : ConnId) : Access → Prop
  | canSend j => j = i
  | state j => j = i
  | transition j _ => j = i
  | openSocket j => j = i
  | startThreads j => j = i
  | newFrame => True
  | expect j _ => j = i
  | putNowait j _ => j = i
  | replyWait j => j = i
  | forget j => j = i
  | takeReply j => j = i
  | setUsername j _ => j = i
  | startHeartbeat j => j = i
  | isClosing j => j = i
  | setClosing j => j = i
  | isClosed j => j = i
  | setReplyReady j => j = i
  | hangUp j => j = i
  | _ => False

theorem Shared.update_same (s : Shared) (i : ConnId) : s.update i (fun _ => s.connections i) = s := by
  have hall : (fun j => if j = i then s.connections i else s.connections j) = s.connections := by
    funext j
    split
    · next h => rw [h]
    · rfl
  unfold Shared.update
  rw [hall]

/-- Such a call changes nothing else. -/
theorem Access.exec_on {i : ConnId} {o : Access} (ho : o.on i) {x : Outside} {s s' : Shared} {r : o.Ret}
    (hx : o.exec x s = some (r, s')) : ∃ c, s' = s.update i fun _ => c := by
  have hsame : ∀ {a b : o.Ret}, some (a, s) = some (b, s') → ∃ c, s' = s.update i fun _ => c := fun h =>
    ⟨s.connections i, by rw [Shared.update_same]; exact (Prod.mk.inj (Option.some.inj h)).2.symm⟩
  have hset : ∀ {a b : o.Ret} {f : ServerConnection → ServerConnection}, some (a, s.update i f) = some (b, s') →
      ∃ c, s' = s.update i fun _ => c := fun {_ _ f} h =>
    ⟨f (s.connections i), (Prod.mk.inj (Option.some.inj h)).2.symm⟩
  cases o with
  | stoppedWait => cases ho
  | getConnection => cases ho
  | nextDelay => cases ho
  | takeConnection => cases ho
  | setConnection j => cases ho
  | build => cases ho
  | countReconnect => cases ho
  | resetBackoff => cases ho
  | newFrame => exact hsame hx
  | canSend j => exact hsame hx
  | state j => exact hsame hx
  | openSocket j => exact hsame hx
  | isClosing j => exact hsame hx
  | isClosed j => exact hsame hx
  | transition j e =>
    obtain rfl : j = i := ho
    simp only [Access.exec] at hx
    split at hx
    · exact hsame hx
    · exact hset hx
  | putNowait j f =>
    obtain rfl : j = i := ho
    simp only [Access.exec] at hx
    split at hx
    · exact hset hx
    · exact hsame hx
  | replyWait j =>
    simp only [Access.exec] at hx
    split at hx
    · exact hsame hx
    · split at hx
      · exact hsame hx
      · cases hx
  | startThreads j => obtain rfl : j = i := ho; exact hset hx
  | expect j types => obtain rfl : j = i := ho; exact hset hx
  | forget j => obtain rfl : j = i := ho; exact hset hx
  | takeReply j => obtain rfl : j = i := ho; exact hset hx
  | setUsername j u => obtain rfl : j = i := ho; exact hset hx
  | startHeartbeat j => obtain rfl : j = i := ho; exact hset hx
  | setClosing j => obtain rfl : j = i := ho; exact hset hx
  | setReplyReady j => obtain rfl : j = i := ho; exact hset hx
  | hangUp j => obtain rfl : j = i := ho; exact hset hx

theorem transition_uses (i : ConnId) (e : Event) : (transition i e).Uses (Access.on i) := by
  refine ⟨rfl, fun r => ?_⟩
  cases r with
  | ok m => trivial
  | error err => trivial

theorem close_uses (i : ConnId) : (close i).Uses (Access.on i) := by
  refine ⟨rfl, fun closing => ?_⟩
  cases closing with
  | true => trivial
  | false =>
    refine ⟨rfl, fun _ => ⟨rfl, fun closed => ?_⟩⟩
    have hrest : Prog.Uses (Access.on i) (do access (.setReplyReady i); access (.hangUp i) : NetM Unit) :=
      ⟨rfl, fun _ => ⟨rfl, fun _ => trivial⟩⟩
    cases closed with
    | true => exact hrest
    | false => exact (transition_uses i .close).bind fun _ => hrest

theorem connect_uses (cfg : Config) (i : ConnId) : (connect cfg i).Uses (Access.on i) := by
  refine (transition_uses i .connect).bind fun _ => ⟨rfl, fun r => ?_⟩
  rcases r with (exc | exc) | ⟨⟩
  · exact (transition_uses i .socketFailed).bind fun _ => trivial
  · exact (transition_uses i .socketFailed).bind fun _ => trivial
  · exact ⟨rfl, fun _ => transition_uses i .socketReady⟩

theorem request_uses (i : ConnId) (f : Frame) (types : List MessageType) : (request i f types).Uses (Access.on i) := by
  refine ⟨rfl, fun _ => ⟨rfl, fun put => ?_⟩⟩
  cases put with
  | false => exact ⟨rfl, fun _ => trivial⟩
  | true =>
    refine ⟨rfl, fun ready => ?_⟩
    cases ready with
    | false => exact ⟨rfl, fun _ => trivial⟩
    | true =>
      refine ⟨rfl, fun reply => ?_⟩
      cases reply with
      | none => trivial
      | some reply => trivial

theorem login_uses (i : ConnId) (u p : Str) : (login i u p).Uses (Access.on i) := by
  have hrequire : (require i .authenticating "login").Uses (Access.on i) := by
    refine ⟨rfl, fun now => ?_⟩
    show Prog.Uses _ (if now ≠ .authenticating then (Prog.raise _ : NetM Unit) else Prog.pure ())
    split
    · trivial
    · trivial
  refine hrequire.bind fun _ => ⟨trivial, fun stamp => (request_uses i _ _).bind fun reply => ?_⟩
  by_cases h : reply.type = .loginOk
  · rw [if_pos h]
    exact ⟨rfl, fun _ => (transition_uses i .loginOk).bind fun _ => ⟨rfl, fun _ => trivial⟩⟩
  · rw [if_neg h]
    exact (transition_uses i .loginRefused).bind fun _ => trivial

theorem attempt_uses (cfg : Config) (i : ConnId) : (attempt cfg i).Uses (Access.on i) := by
  refine Prog.Uses.tryCatch ((connect_uses cfg i).bind fun _ => (login_uses i _ _).bind fun _ => trivial) fun e => ?_
  by_cases h : e.caught = true
  · rw [if_pos h]
    exact (close_uses i).bind fun _ => trivial
  · rw [if_neg h]
    trivial

/-- `Session.close`, once the flag is set. -/
def closeSession : NetM Unit := do
  let connection ← access .takeConnection
  closeDead connection

/-- The shared objects, and what is left of `Session.close` once it is called. -/
structure Parties where
  shared : Shared
  closer : Option (NetM Unit) := none

namespace Parties

/-- `Session.close` has taken the connection. -/
def taken (s : Parties) : Bool :=
  match s.closer with
  | none => false
  | some (.call .takeConnection _) => false
  | some _ => true

/-- What everybody but the supervisor does. `stop` calls `Session.close`, and
`closeConnection` is its next access. -/
def move (s : Parties) : Move → Parties
  | .stop =>
    match s.closer with
    | none => ⟨s.shared.move .stop, some closeSession⟩
    | some _ => s
  | .closeConnection =>
    match s.closer with
    | some (.call o k) =>
      match Access.exec {} o s.shared with
      | some (r, shared) => ⟨shared, some (k r)⟩
      | none => s
    | _ => s
  | m => { s with shared := s.shared.move m }

end Parties

/-- What `Session.close` is about to do, with the connection `held` in its hands. -/
def Closer (s : Parties) (held : Option ConnId) : Prop :=
  match s.closer, held with
  | none, none => True
  | none, some _ => False
  | some p, none => p = closeSession ∨ p = .pure ()
  | some p, some i => i < s.shared.built ∧ p.Uses (Access.on i) ∧
      p.Stays Threads (OnIt i false) (fun _ _ => False) (fun _ c => c.Shut) (s.shared.connections i)

/-- **Who has which connection**: `mine` is the one the supervisor works on, `held` the
closer's. -/
structure Custody (mine held : Option ConnId) (s : Parties) : Prop where
  closer : Closer s held
  owned : ∀ i < s.shared.built, (s.shared.connections i).Shut ∨ held = some i ∨ mine = some i ∨
    s.shared.connection = some i
  published : ∀ i, s.shared.connection = some i → i < s.shared.built ∧ (s.shared.connections i).Tidy ∧ mine = none
  apart : ∀ i, held = some i → mine ≠ some i ∧ s.shared.connection ≠ some i
  gone : s.taken = true → s.shared.connection = none
  built : ∀ i, mine = some i → i < s.shared.built

section Custody

variable {mine held : Option ConnId} {s : Parties}

/-- The closer's program goes on whatever the connection's threads do. -/
theorem stays_threads {i : ConnId} {p : NetM Unit} {o : Access} {c c' : ServerConnection}
    (h : p.Stays Threads (OnIt i false) (fun _ _ => False) (fun _ c => c.Shut) c) (ht : Threads o c c') :
    p.Stays Threads (OnIt i false) (fun _ _ => False) (fun _ c => c.Shut) c' := by
  cases p with
  | pure a => exact Threads.shut ht h
  | raise e => exact h
  | call o' k => exact Prog.Stays.rely h ht

/-- Only the sessions' own fields have changed. -/
theorem Custody.congr {shared : Shared} (h : Custody mine held s) (hc : shared.connections = s.shared.connections)
    (hb : shared.built = s.shared.built) (hp : shared.connection = s.shared.connection) :
    Custody mine held { s with shared } := by
  refine ⟨?_, fun i hi => ?_, fun i hi => ?_, fun i hi => ?_, fun ht => hp.trans (h.gone ht),
    fun i hi => hb ▸ h.built i hi⟩
  · have hcloser := h.closer
    unfold Closer at hcloser ⊢
    rw [hc, hb]
    exact hcloser
  · rw [hc, hp]
    exact h.owned i (hb ▸ hi)
  · rw [hc, hb]
    exact h.published i (hp ▸ hi)
  · rw [hp]
    exact h.apart i hi

/-- One connection has changed: the supervisor's own, or one that is as shut and as tidy
as before and, where the closer holds it, does not stop it. -/
theorem Custody.update {i : ConnId} {f : ServerConnection → ServerConnection} (h : Custody mine held s)
    (hother : mine ≠ some i → ((s.shared.connections i).Shut → (f (s.shared.connections i)).Shut) ∧
      ((s.shared.connections i).Tidy → (f (s.shared.connections i)).Tidy))
    (hheld : held = some i → ∃ o, Threads o (s.shared.connections i) (f (s.shared.connections i))) :
    Custody mine held { s with shared := s.shared.update i f } := by
  have hself : (s.shared.update i f).connections i = f (s.shared.connections i) := Shared.update_connections_self ..
  refine ⟨?_, fun j hj => ?_, fun j hj => ?_, h.apart, h.gone, h.built⟩
  · have hcloser := h.closer
    unfold Closer at hcloser ⊢
    cases hp : s.closer with
    | none =>
      rw [hp] at hcloser
      cases held with
      | none => trivial
      | some j => exact hcloser
    | some p =>
      rw [hp] at hcloser
      cases held with
      | none => exact hcloser
      | some j =>
        obtain ⟨hj, huses, hstays⟩ := hcloser
        refine ⟨hj, huses, ?_⟩
        by_cases hij : j = i
        · subst hij
          obtain ⟨o, ht⟩ := hheld rfl
          show Prog.Stays _ _ _ _ _ ((s.shared.update j f).connections j)
          rw [hself]
          exact stays_threads hstays ht
        · show Prog.Stays _ _ _ _ _ ((s.shared.update i f).connections j)
          rw [Shared.update_connections_ne _ hij]
          exact hstays
  · show ((s.shared.update i f).connections j).Shut ∨ _
    by_cases hij : j = i
    · subst hij
      rw [hself]
      by_cases hmine : mine = some j
      · exact .inr (.inr (.inl hmine))
      · exact (h.owned j hj).imp_left (hother hmine).1
    · rw [Shared.update_connections_ne _ hij]
      exact h.owned j hj
  · obtain ⟨hb, htidy, hnone⟩ := h.published j hj
    refine ⟨hb, ?_, hnone⟩
    show ((s.shared.update i f).connections j).Tidy
    by_cases hij : j = i
    · subst hij
      rw [hself]
      exact (hother (by rw [hnone]; exact nofun)).2 htidy
    · rw [Shared.update_connections_ne _ hij]
      exact htidy

/-- A step of the connection's own threads. -/
theorem Custody.threads {i : ConnId} {f : ServerConnection → ServerConnection} (h : Custody mine held s)
    (hf : ∀ o c, Threads o c (f c)) : Custody mine held { s with shared := s.shared.update i f } :=
  h.update (fun _ => ⟨fun hs => (hf .build _).shut hs, fun ht => (hf .build _).tidy ht⟩) fun _ => ⟨.build, hf _ _⟩

/-- With a connection in its hands the closer has taken it. -/
theorem taken_of_uses {i : ConnId} {p : NetM Unit} (hp : s.closer = some p) (h : p.Uses (Access.on i)) :
    s.taken = true := by
  unfold Parties.taken
  rw [hp]
  cases p with
  | pure a => rfl
  | raise e => rfl
  | call o k =>
    have ho : o.on i := h.1
    cases o with
    | takeConnection => cases ho
    | _ => rfl

/-- **The closer takes the connection**, or goes on with the one it has. -/
theorem Custody.closeConnection (h : Custody mine held s) :
    (∃ held', Custody mine held' (s.move .closeConnection)) ∧
      (s.shared.connection = none → (s.move .closeConnection).shared.connection = none) ∧
      ∀ i, mine = some i → (s.move .closeConnection).shared.connections i = s.shared.connections i := by
  have hnothing : (∃ held', Custody mine held' s) ∧ (s.shared.connection = none → s.shared.connection = none) ∧
      ∀ i, mine = some i → s.shared.connections i = s.shared.connections i := ⟨⟨held, h⟩, id, fun _ _ => rfl⟩
  have hcloser := h.closer
  unfold Closer at hcloser
  unfold Parties.move
  cases hp : s.closer with
  | none => exact hnothing
  | some p =>
    rw [hp] at hcloser
    -- it has nothing in its hands yet: it takes what is published, or finds nothing there
    cases held with
    | none =>
      rcases hcloser with rfl | rfl
      · show (∃ held', Custody mine held' (⟨{ s.shared with connection := none }, some (closeDead s.shared.connection)⟩ : Parties)) ∧ _
        refine ⟨?_, fun _ => rfl, fun _ _ => rfl⟩
        cases hc : s.shared.connection with
        | none =>
          refine ⟨none, .inr rfl, fun i hi => ?_, nofun, nofun, fun _ => rfl, h.built⟩
          have howned := h.owned i hi
          rw [hc] at howned
          exact howned
        | some i =>
          obtain ⟨hi, htidy, hnone⟩ := h.published i hc
          refine ⟨some i, ⟨hi, close_uses i, close_shuts htidy⟩, fun j hj => ?_, nofun, fun j hj => ?_,
            fun _ => rfl, h.built⟩
          -- everybody else's is as it was; the published one is the closer's from now on
          · have howned := h.owned j hj
            rw [hc] at howned
            rcases howned with hs | hs | hs | hs
            · exact .inl hs
            · cases hs
            · exact .inr (.inr (.inl hs))
            · exact .inr (.inl hs)
          · rw [hnone]
            exact ⟨nofun, nofun⟩
      · exact hnothing
    | some i =>
      obtain ⟨hi, huses, hstays⟩ := hcloser
      cases p with
      | pure a => exact hnothing
      | raise e => exact hnothing
      | call o k =>
        dsimp only
        cases hx : Access.exec {} o s.shared with
        | none => exact hnothing
        | some rs =>
          obtain ⟨r, shared⟩ := rs
          obtain ⟨c, rfl⟩ := Access.exec_on huses.1 hx
          have hstays' : (k r).Stays Threads (OnIt i false) (fun _ _ => False) (fun _ c => c.Shut)
              ((s.shared.update i fun _ => c).connections i) :=
            Prog.Stays.step hstays ⟨s.shared, _, {}, rfl, rfl, hx, nofun⟩
          -- its own calls are on the connection it holds, which is nobody else's
          have hother : ∀ {j}, j ≠ i → (s.shared.update i fun _ => c).connections j = s.shared.connections j :=
            fun hij => Shared.update_connections_ne _ hij _
          refine ⟨⟨some i, ⟨hi, huses.2 r, hstays'⟩, fun j hj => ?_, fun j hj => ?_, h.apart, fun _ => ?_,
            h.built⟩, id, fun j hj => ?_⟩
          · show ((s.shared.update i fun _ => c).connections j).Shut ∨ _
            by_cases hij : j = i
            · exact .inr (.inl (hij ▸ rfl))
            · rw [hother hij]
              exact h.owned j hj
          · show _ ∧ ((s.shared.update i fun _ => c).connections j).Tidy ∧ _
            rw [hother fun hij => (h.apart i rfl).2 (hij ▸ hj)]
            exact h.published j hj
          · exact h.gone (taken_of_uses hp huses)
          · exact hother fun hij => (h.apart i rfl).1 (hij ▸ hj)

theorem tidy_send {c : ServerConnection} (h : c.Tidy) (f : Frame) : (c.send f).Tidy := by
  unfold ServerConnection.send
  split
  · exact h
  · split
    · exact h
    · unfold ServerConnection.close
      split
      · exact h
      · exact iff_of_true rfl rfl

theorem shut_send {c : ServerConnection} (h : c.Shut) (f : Frame) : (c.send f).Shut := by
  unfold ServerConnection.send ServerConnection.canSend
  rw [h.2]
  exact h

/-- **What the others do keeps it so**, and of the supervisor's own connection they
change no more than its threads do. -/
theorem Custody.move (h : Custody mine held s) (m : Move) :
    (∃ held', Custody mine held' (s.move m)) ∧
      (s.shared.connection = none → (s.move m).shared.connection = none) ∧
      ∀ i, mine = some i → (s.move m).shared.connections i = s.shared.connections i ∨
        ∀ o, Threads o (s.shared.connections i) ((s.move m).shared.connections i) := by
  -- a thread of connection `j`
  have hthread : ∀ (j : ConnId) (f : ServerConnection → ServerConnection), (∀ o c, Threads o c (f c)) →
      (∃ held', Custody mine held' { s with shared := s.shared.update j f }) ∧
        (s.shared.connection = none → (s.shared.update j f).connection = none) ∧
        ∀ i, mine = some i → (s.shared.update j f).connections i = s.shared.connections i ∨
          ∀ o, Threads o (s.shared.connections i) ((s.shared.update j f).connections i) := by
    refine fun j f hf => ⟨⟨held, h.threads hf⟩, id, fun i _ => ?_⟩
    by_cases hij : i = j
    · subst hij
      rw [Shared.update_connections_self]
      exact .inr fun o => hf o _
    · exact .inl (Shared.update_connections_ne _ hij f)
  cases m with
  | supervisor x => exact ⟨⟨held, h⟩, id, fun _ _ => .inl rfl⟩
  | reader j x => exact hthread j (fun c => c.read x) fun _ c => .inl ⟨x, rfl⟩
  | writer j => exact hthread j (fun c => c.write) fun _ c => .inr (.inl rfl)
  | heartbeat j => exact hthread j (fun c => c.missedPongs) fun _ c => .inr (.inr rfl)
  | send f =>
    have hmove : s.move (.send f) = { s with shared := s.shared.move (.send f) } := rfl
    rw [hmove]
    unfold Shared.move
    cases hc : s.shared.connection with
    | none => exact ⟨⟨held, h⟩, fun _ => hc, fun _ _ => .inl rfl⟩
    | some j =>
      obtain ⟨-, -, hnone⟩ := h.published j hc
      refine ⟨⟨held, h.update (fun _ => ⟨fun hs => shut_send hs f, fun ht => tidy_send ht f⟩) fun hj => ?_⟩, nofun,
        fun i hi => ?_⟩
      · exact absurd hc (h.apart j hj).2
      · rw [hnone] at hi
        cases hi
  | stop =>
    unfold Parties.move
    cases hp : s.closer with
    | some p => exact ⟨⟨held, h⟩, id, fun _ _ => .inl rfl⟩
    | none =>
      have hcloser := h.closer
      unfold Closer at hcloser
      rw [hp] at hcloser
      cases held with
      | some i => exact hcloser.elim
      | none => exact ⟨⟨none, .inl rfl, h.owned, h.published, h.apart, nofun, h.built⟩, id, fun _ _ => .inl rfl⟩
  | closeConnection =>
    obtain ⟨hkept, hnone, hsame⟩ := h.closeConnection
    exact ⟨hkept, hnone, fun i hi => .inl (hsame i hi)⟩

end Custody

end Client

end Ciphertext
