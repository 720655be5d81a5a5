import Ciphertext.Server.Message

/-!
# What a LOGIN and a hangup do

A LOGIN either changes nothing but outboxes, or claims the name for the
connection; the stored messages waiting under that name are then handed over in
one go, `handed` being the frames it sends before a row that makes it raise, if
there is one. A hangup undoes the claim. From the two, `Wired`: in every world
between two calls, the registry and the connections agree on who is logged in
where, and each name was verified against an account.

`login_effect` and `onDisconnect_effect` say this of each input, also of a LOGIN that
raises half-way: the claim stands, and so far as the queue was emptied what was in it is
gone. `LetIn` is the condition for a claim, read off the handler: the session has no name
yet, the fields are there, the password is right, and nobody holds an equal name.
-/

namespace Ciphertext

open Prog MessageRouter

variable [Runtime]

/-! ## Handing over the queue -/

/-- The frames the hand-over sends, and how it ends. -/
def handed (username : Json) : List Row → List Frame × Except PyErr Unit
  | [] => ([], .ok ())
  | row :: rows =>
    match historyEntry row username with
    | .error e => ([], .error e)
    | .ok none => handed username rows
    | .ok (some entry) => (flushed row entry :: (handed username rows).1, (handed username rows).2)

theorem handRow_exec (s : Sid) (username : Json) (row : Row) (w : World) :
    (handRow s username row).exec w =
      match historyEntry row username with
      | .error e => (.error e, w)
      | .ok none => (.ok (), w)
      | .ok (some entry) => (.ok (), w.push s (flushed row entry)) := by
  unfold handRow
  rcases historyEntry row username with e | ⟨- | entry⟩ <;> rfl

theorem forEach_handRow_exec (s : Sid) (username : Json) (rows : List Row) (w : World) :
    RouterM.exec (forEach rows (handRow s username)) w =
      ((handed username rows).2,
        { w with sent := w.sent ++ (handed username rows).1.map fun g => ⟨s, w.username s, g⟩ }) := by
  induction rows generalizing w with
  | nil => simp [handed]
  | cons row rows ih =>
    rw [forEach_cons, RouterM.exec_bind, handRow_exec, handed]
    rcases historyEntry row username with e | ⟨- | entry⟩
    · simp
    · exact ih w
    · simp [ih, World.push]

/-- Every frame handed over is a queued row as its reader may see it. -/
theorem mem_handed {username : Json} {rows : List Row} {g : Frame}
    (h : g ∈ (handed username rows).1) :
    ∃ row ∈ rows, ∃ entry, historyEntry row username = .ok (some entry) ∧ g = flushed row entry := by
  induction rows with
  | nil => simp [handed] at h
  | cons row rows ih =>
    unfold handed at h
    split at h
    · cases h
    · obtain ⟨r, hr, hg⟩ := ih h
      exact ⟨r, List.mem_cons_of_mem _ hr, hg⟩
    next entry he =>
      rcases List.mem_cons.mp h with rfl | h
      · exact ⟨row, List.mem_cons_self .., entry, he, rfl⟩
      · obtain ⟨r, hr, hg⟩ := ih h
        exact ⟨r, List.mem_cons_of_mem _ hr, hg⟩

theorem handed_msg (username : Json) (rows : List Row) :
    ∀ g ∈ (handed username rows).1, g.type = .msg := by
  intro g hg
  obtain ⟨row, -, entry, -, rfl⟩ := mem_handed hg
  rfl

/-! ## Logging in -/

/-- A LOGIN that gets through: nobody on this connection yet, both fields
given, the password right and the name free. -/
structure LetIn (w : World) (s : Sid) (f : Frame) : Prop where
  nobody : w.username s = none
  named : (f.get "user").truthy = true
  secret : (f.get "pass_hash").truthy = true
  verified : SqliteUsers.verify w (f.get "user") (f.get "pass_hash") = .ok true
  free : ∀ e ∈ w.online, (f.get "user").pyEq e.1 = false

/-- How the hand-over at the end of a LOGIN can go. It is not reached when
something before it raises. -/
inductive HandOver (cfg : Config) (s : Sid) (u : Json) (w : World) :
    Except PyErr Unit → World → Prop
  | unreached {e : PyErr} {w' : World} (hp : w'.pending = w.pending) (hm : msgs w' = msgs w) :
      HandOver cfg s u w (.error e) w'
  | storeless {w' : World} (hc : cfg.messages = false) (hp : w'.pending = w.pending)
      (hm : msgs w' = msgs w) : HandOver cfg s u w (.ok ()) w'
  | nameless {w' : World} (hc : cfg.messages = true) (ht : Sql.text u = .ok none)
      (hp : w'.pending = w.pending) (hm : msgs w' = msgs w) : HandOver cfg s u w (.ok ()) w'
  | flushed {w' : World} {name : Str} (hc : cfg.messages = true)
      (ht : Sql.text u = .ok (some name))
      (hp : w'.pending = w.pending.filter fun p => p.2 != name)
      (hm : msgs w' = msgs w ++ (handed u (MessageStore.queued w name)).1.map fun g => ⟨s, some u, g⟩) :
      HandOver cfg s u w (handed u (MessageStore.queued w name)).2 w'

/-- It depends on nothing but the tables it reads and the outboxes. -/
theorem HandOver.of_same {cfg : Config} {s : Sid} {u : Json} {w₁ w w' : World} {r : Except PyErr Unit}
    (h : HandOver cfg s u w₁ r w') (hmessages : w₁.messages = w.messages) (hpending : w₁.pending = w.pending)
    (hsent : w₁.sent = w.sent) : HandOver cfg s u w r w' := by
  have hmsgs : msgs w₁ = msgs w := congrArg (List.filter _) hsent
  have hqueued : ∀ name, MessageStore.queued w₁ name = MessageStore.queued w name := by
    intro name
    unfold MessageStore.queued
    rw [hmessages, hpending]
  cases h with
  | unreached hp hm => exact .unreached (hp.trans hpending) (hm.trans hmsgs)
  | storeless hc hp hm => exact .storeless hc (hp.trans hpending) (hm.trans hmsgs)
  | nameless hc ht hp hm => exact .nameless hc ht (hp.trans hpending) (hm.trans hmsgs)
  | flushed hc ht hp hm =>
    rw [hqueued, hmsgs] at hm
    rw [hqueued]
    exact .flushed hc ht (hpending ▸ hp) hm

theorem flushPending_exec (cfg : Config) (s : Sid) (u : Json) {w w₁ : World} (ha : Aside w w₁)
    (hu : w.username s = some u) :
    HandOver cfg s u w ((flushPending cfg s u).exec w₁).1 ((flushPending cfg s u).exec w₁).2 ∧
      ((flushPending cfg s u).exec w₁).2.online = w.online ∧
      ((flushPending cfg s u).exec w₁).2.username = w.username ∧
      ((flushPending cfg s u).exec w₁).2.messages = w.messages := by
  unfold flushPending
  cases hc : cfg.messages with
  | false => exact ⟨.storeless hc ha.pending ha.msgs, ha.online, ha.username, ha.messages⟩
  | true =>
    simp only [Bool.not_true, Bool.false_eq_true, if_false]
    rw [RouterM.exec_bind, RouterM.exec_call]
    simp only [exec]
    cases hf : MessageStore.flush w₁ u with
    | error e => exact ⟨.unreached ha.pending ha.msgs, ha.online, ha.username, ha.messages⟩
    | ok r =>
      obtain ⟨rows, w₂⟩ := r
      simp only [commit]
      rw [forEach_handRow_exec]
      rcases MessageStore.flush_cases hf with ⟨ht, rfl, rfl⟩ | ⟨name, ht, rfl, rfl⟩
      · refine ⟨.nameless hc ht ha.pending ?_, ha.online, ha.username, ha.messages⟩
        simpa [handed, msgs] using ha.msgs
      · have hq : MessageStore.queued w₁ name = MessageStore.queued w name := by
          unfold MessageStore.queued
          rw [ha.messages, ha.pending]
        rw [hq]
        refine ⟨.flushed hc ht (congrArg _ ha.pending) ?_, ha.online, ha.username, ha.messages⟩
        simp only [msgs, List.filter_append]
        refine congr (congrArg _ ha.msgs) ?_
        rw [List.filter_eq_self.mpr]
        · simp [ha.username, hu]
        · intro d hd
          obtain ⟨g, hg, rfl⟩ := List.mem_map.mp hd
          simpa using handed_msg u _ g hg

/-- The part of a LOGIN after the name has been claimed. -/
theorem welcome_exec (cfg : Config) (s : Sid) (u : Json) (w : World) :
    HandOver cfg s u w ((welcome cfg s u).exec w).1 ((welcome cfg s u).exec w).2 ∧
      ((welcome cfg s u).exec w).2.online = w.online ∧
      ((welcome cfg s u).exec w).2.username = Function.update w.username s (some u) ∧
      ((welcome cfg s u).exec w).2.messages = w.messages := by
  -- The world with the name set: it agrees with `w` on everything a hand-over reads.
  let w₁ : World := { w with username := Function.update w.username s (some u) }
  suffices h : HandOver cfg s u w₁ ((welcome cfg s u).exec w).1 ((welcome cfg s u).exec w).2 ∧
      ((welcome cfg s u).exec w).2.online = w₁.online ∧
      ((welcome cfg s u).exec w).2.username = w₁.username ∧
      ((welcome cfg s u).exec w).2.messages = w₁.messages from ⟨h.1.of_same rfl rfl rfl, h.2⟩
  unfold welcome
  rw [RouterM.exec_bind, RouterM.exec_call]
  simp only [exec]
  rw [RouterM.exec_bind]
  have hg : Aside w₁ ((greet cfg s u).exec w₁).2 :=
    aside_of_uses w₁ (greet_uses cfg s u fun g hg => by simp [hg])
  change _ ∧ _
  generalize (greet cfg s u).exec w₁ = r₁ at hg
  obtain ⟨e | _, w₂⟩ := r₁
  · exact ⟨.unreached hg.pending hg.msgs, hg.online, hg.username, hg.messages⟩
  dsimp only at hg ⊢
  rw [RouterM.exec_bind]
  have ha : Aside w₂ ((announce u "ONLINE").exec w₂).2 :=
    aside_of_uses w₂ (announce_uses fun _ g hg => by simp [hg])
  generalize (announce u "ONLINE").exec w₂ = r₂ at ha
  have hga := hg.trans ha
  obtain ⟨e | _, w₃⟩ := r₂
  · exact ⟨.unreached hga.pending hga.msgs, hga.online, hga.username, hga.messages⟩
  · exact flushPending_exec cfg s u hga (by simp [w₁])

/-- A LOGIN that does not get through raises while the password is checked, or is
refused; one that does claims the name and is welcomed. -/
theorem login_exec (cfg : Config) (s : Sid) (f : Frame) (w : World) :
    (¬ LetIn w s f ∧ ((∃ e, (login cfg s f).exec w = (.error e, w)) ∨
        ∃ code message, (login cfg s f).exec w = (refuse s code message).exec w)) ∨
      (LetIn w s f ∧ (login cfg s f).exec w =
        (welcome cfg s (f.get "user")).exec { w with online := w.online ++ [(f.get "user", s)] }) := by
  unfold login
  rw [RouterM.exec_bind, RouterM.exec_call]
  simp only [exec]
  cases hu : w.username s with
  | some u => exact .inl ⟨fun h => by simp [h.nobody] at hu, .inr ⟨_, _, rfl⟩⟩
  | none =>
    dsimp only
    by_cases hfields : (!(f.get "user").truthy || !(f.get "pass_hash").truthy) = true
    · rw [if_pos hfields]
      exact .inl ⟨fun h => by simp [h.named, h.secret] at hfields, .inr ⟨_, _, rfl⟩⟩
    rw [if_neg hfields, RouterM.exec_bind, RouterM.exec_call]
    simp only [Bool.or_eq_true, Bool.not_eq_true', not_or, Bool.not_eq_false] at hfields
    simp only [exec]
    cases hv : SqliteUsers.verify w (f.get "user") (f.get "pass_hash") with
    | error e => exact .inl ⟨fun h => by simp [h.verified] at hv, .inl ⟨e, rfl⟩⟩
    | ok b =>
      cases b with
      | false => exact .inl ⟨fun h => by simp [h.verified] at hv, .inr ⟨_, _, rfl⟩⟩
      | true =>
        simp only [Bool.not_true, Bool.false_eq_true, if_false]
        rw [RouterM.exec_bind, RouterM.exec_call]
        simp only [exec, SessionRegistry.login]
        by_cases htaken : (w.online.any fun e => (f.get "user").pyEq e.1) = true
        · simp only [htaken, if_true, Bool.not_false]
          refine .inl ⟨fun h => ?_, .inr ⟨_, _, rfl⟩⟩
          obtain ⟨e, he, heq⟩ := List.any_eq_true.mp htaken
          simp [h.free e he] at heq
        · simp only [htaken, if_false, Bool.not_true, Bool.false_eq_true]
          exact .inr ⟨⟨hu, hfields.1, hfields.2, hv, by simpa using htaken⟩, trivial⟩

/-- **What a LOGIN does.** -/
theorem login_effect (cfg : Config) (s : Sid) (f : Frame) (w : World) :
    (Aside w ((login cfg s f).exec w).2 ∧ ¬ LetIn w s f) ∨
      (LetIn w s f ∧
        HandOver cfg s (f.get "user") w ((login cfg s f).exec w).1 ((login cfg s f).exec w).2 ∧
        ((login cfg s f).exec w).2.online = w.online ++ [(f.get "user", s)] ∧
        ((login cfg s f).exec w).2.username =
          Function.update w.username s (some (f.get "user")) ∧
        ((login cfg s f).exec w).2.messages = w.messages) := by
  rcases login_exec cfg s f w with ⟨hnot, ⟨e, hrun⟩ | ⟨code, message, hrun⟩⟩ | ⟨hin, hrun⟩
  · rw [hrun]
    exact .inl ⟨.refl w, hnot⟩
  · obtain ⟨w', hrefused, ha⟩ := refuse_aside w s code message
    rw [hrun, hrefused]
    exact .inl ⟨ha, hnot⟩
  · rw [hrun]
    obtain ⟨hh, ho, hun, hm⟩ := welcome_exec cfg s (f.get "user")
      { w with online := w.online ++ [(f.get "user", s)] }
    exact .inr ⟨hin, hh.of_same rfl rfl rfl, ho, hun, hm⟩

/-! ## Hanging up -/

/-- **What a hangup does.** The name a connection was logged in as is free
again, and the connection has none. -/
theorem onDisconnect_effect (s : Sid) (w : World) :
    let w' := ((onDisconnect s).exec w).2
    w'.messages = w.messages ∧ w'.pending = w.pending ∧ msgs w' = msgs w ∧
      match w.username s with
      | none => w'.online = w.online ∧ w'.username = w.username
      | some u => w'.online = w.online.filter (fun e => !u.pyEq e.1) ∧
          w'.username = Function.update w.username s none := by
  unfold onDisconnect
  rw [RouterM.exec_bind, RouterM.exec_call]
  simp only [exec]
  cases hu : w.username s with
  | none => exact ⟨rfl, rfl, rfl, rfl, rfl⟩
  | some u =>
    let w₁ : World := { SessionRegistry.logout w u with
      username := Function.update w.username s none }
    have ha : Aside w₁ ((announce u "OFFLINE").exec w₁).2 :=
      aside_of_uses w₁ (announce_uses fun _ g hg => by simp [hg])
    exact ⟨ha.messages, ha.pending, ha.msgs, ha.online, ha.username⟩

end Ciphertext
