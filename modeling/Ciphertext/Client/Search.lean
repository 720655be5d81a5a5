import Ciphertext.Prog.Spans
import Ciphertext.Client.ChatModel

/-!
# Searching what has been loaded

The model of `ChatModel.search` and of `SearchHit.snippet`. A match is looked for in the
case-folded text, and the text shown around it is cut from the original by the same
number. Folding can make a text longer (`ß` becomes `ss`), so the number can be too
large. Its window is twenty characters early and forty late, and `snippet_shows` says
what that leaves room for: twenty code points gained in front of the window.

What a character folds to is the class `Casefold`.

`snippet_shows` says of every hit of every search that its snippet shows the match
exactly when this room suffices, and both sides of it are computed from the body and the
query. `sharp_hidden` is a body of many `ß` in front of the match, whose snippet shows
none of it.
-/

namespace Ciphertext

/-- `str.casefold`, character by character. -/
class Casefold where
  fold : CodePoint → Str
  nonempty : ∀ c, fold c ≠ []
  /-- a full stop stays one -/
  stop : fold 0x2E = [0x2E]

namespace Str

/-- `s.casefold()`. -/
def casefold [Casefold] (s : Str) : Str := s.flatMap Casefold.fold

/-- `s.find(sub)`, `none` for -1. -/
def find (s sub : Str) : Option Nat := (List.range (s.length + 1)).find? fun i => sub.isPrefixOf (s.drop i)

/-- `s[start:stop]`. -/
def slice (s : Str) (start stop : Nat) : Str := (s.take stop).drop start

theorem find_eq_some {s sub : Str} {at' : Nat} (h : s.find sub = some at') : Spans.StandsAt sub s at' := by
  have hprefix := List.find?_some h
  exact List.isPrefixOf_iff_prefix.mp hprefix

end Str

section Search

variable [Casefold]

/-- What `search` and `snippet` look for. -/
def needleOf (query : Str) : Str := query.strip.casefold

/-- The three dots. -/
def dots : Str := "..."

/-- The snippet of a body: the match with a little of the text either side of it. -/
def snippetOf (body query : Str) (width : Nat) : Str :=
  match body.casefold.find (needleOf query) with
  | none => body.take width
  | some at' =>
    let start := at' - width / 3
    let stop := min body.length (start + width)
    (if start ≠ 0 then dots else []) ++ (body.slice start stop ++ if stop < body.length then dots else [])

structure SearchHit where
  key : Str
  message : Message

/-- `SearchHit.snippet`. A body that is not a string has no `casefold`. -/
def SearchHit.snippet (hit : SearchHit) (query : Str) (width : Nat := 60) : Except PyErr Str :=
  match hit.message.body with
  | .str body => .ok (snippetOf body query width)
  | _ => .error .attributeError

namespace ChatModel

/-- The messages of one conversation that have it. -/
def hitsIn (needle key : Str) : List Message → Except PyErr (List SearchHit)
  | [] => .ok []
  | message :: rest =>
    match message.body with
    | .str body => do
      let hits ← hitsIn needle key rest
      return if (body.casefold.find needle).isSome then { key, message } :: hits else hits
    | _ => .error .attributeError

def hitsOf (needle : Str) : List (Str × Conversation) → Except PyErr (List SearchHit)
  | [] => .ok []
  | (key, c) :: rest => do
    let hits ← hitsIn needle key c.messages
    return hits ++ (← hitsOf needle rest)

/-- `search`: every loaded message with the query in it, newest first. -/
def search (m : ChatModel) (query : Str) (limit : Nat := 100) : Except PyErr (List SearchHit) := do
  let needle := needleOf query
  if needle.isEmpty then return []
  let hits ← hitsOf needle m.conversations
  return (hits.insertionSort fun a b => b.message.ts ≤ a.message.ts).take limit

/-! ## What is listed -/

theorem mem_hitsIn {needle key : Str} {messages : List Message} {hits : List SearchHit} {hit : SearchHit}
    (h : hitsIn needle key messages = .ok hits) (hmem : hit ∈ hits) :
    ∃ body, hit.message.body = .str body ∧ (body.casefold.find needle).isSome = true := by
  induction messages generalizing hits with
  | nil =>
    rw [← Except.ok.inj h] at hmem
    cases hmem
  | cons message rest ih =>
    unfold hitsIn at h
    split at h
    next body hbody =>
      cases hrest : hitsIn needle key rest with
      | error e =>
        rw [hrest] at h
        cases h
      | ok hits' =>
        rw [hrest] at h
        have heq : (if (body.casefold.find needle).isSome then { key, message } :: hits' else hits') = hits :=
          Except.ok.inj h
        rw [← heq] at hmem
        by_cases hfound : (body.casefold.find needle).isSome = true
        · rw [if_pos hfound] at hmem
          rcases List.mem_cons.mp hmem with rfl | hmem
          · exact ⟨body, hbody, hfound⟩
          · exact ih hrest hmem
        · rw [if_neg hfound] at hmem
          exact ih hrest hmem
    · cases h

theorem mem_hitsOf {needle : Str} {conversations : List (Str × Conversation)} {hits : List SearchHit}
    {hit : SearchHit} (h : hitsOf needle conversations = .ok hits) (hmem : hit ∈ hits) :
    ∃ body, hit.message.body = .str body ∧ (body.casefold.find needle).isSome = true := by
  induction conversations generalizing hits with
  | nil =>
    rw [← Except.ok.inj h] at hmem
    cases hmem
  | cons e rest ih =>
    obtain ⟨key, c⟩ := e
    unfold hitsOf at h
    cases hfirst : hitsIn needle key c.messages with
    | error e =>
      rw [hfirst] at h
      cases h
    | ok first =>
      cases hrest : hitsOf needle rest with
      | error e =>
        rw [hfirst, hrest] at h
        cases h
      | ok others =>
        rw [hfirst, hrest] at h
        rw [← Except.ok.inj h] at hmem
        rcases List.mem_append.mp hmem with hmem | hmem
        · exact mem_hitsIn hfirst hmem
        · exact ih hrest hmem

/-- A listed message is text, and the folded text has the needle. -/
theorem mem_search {m : ChatModel} {query : Str} {limit : Nat} {hits : List SearchHit} {hit : SearchHit}
    (h : m.search query limit = .ok hits) (hmem : hit ∈ hits) :
    needleOf query ≠ [] ∧ ∃ body, hit.message.body = .str body ∧
      (body.casefold.find (needleOf query)).isSome = true := by
  unfold search at h
  dsimp only at h
  cases hempty : (needleOf query).isEmpty with
  | true =>
    rw [hempty] at h
    rw [← Except.ok.inj h] at hmem
    cases hmem
  | false =>
    refine ⟨List.isEmpty_eq_false_iff.mp hempty, ?_⟩
    rw [hempty] at h
    cases hall : hitsOf (needleOf query) m.conversations with
    | error e =>
      rw [hall] at h
      cases h
    | ok all =>
      rw [hall] at h
      rw [← Except.ok.inj h] at hmem
      exact mem_hitsOf hall ((List.mem_insertionSort _).mp (List.mem_of_mem_take hmem))

end ChatModel

/-! ## What is shown -/

/-- Where the first characters of the body end in its folded text. -/
abbrev foldedTo (body : Str) (k : Nat) : Nat := Spans.reach Casefold.fold body k

/-- The match is in the window. In front of it folding gains no more than the twenty
code points it starts early, or what is looked for comes again further on and stands
whole in what the characters shown fold to. -/
def SnippetFits (body query : Str) : Prop :=
  ∃ at', body.casefold.find (needleOf query) = some at' ∧
    (foldedTo body (at' - 20) ≤ at' ∨
      ∃ p, at' < p ∧ foldedTo body (at' - 20) ≤ p ∧
        p + (needleOf query).length ≤ foldedTo body (at' - 20 + 60) ∧
        Spans.StandsAt (needleOf query) body.casefold p)

theorem casefold_append (s t : Str) : (s ++ t).casefold = s.casefold ++ t.casefold := List.flatMap_append

theorem casefold_dots : dots.casefold = dots := by
  show List.flatMap Casefold.fold ([0x2E, 0x2E, 0x2E] : Str) = ([0x2E, 0x2E, 0x2E] : Str)
  simp [Casefold.stop]

/-- What the characters shown fold to. -/
theorem casefold_slice (body : Str) {s e : Nat} (h : s ≤ e) :
    (body.slice s (min body.length e)).casefold = (body.casefold.take (foldedTo body e)).drop (foldedTo body s) := by
  have hcut : body.slice s (min body.length e) = body.slice s e := by
    unfold Str.slice
    rw [Nat.min_comm, ← List.take_take, List.take_length]
  rw [hcut]
  show ((body.take e).drop s).flatMap Casefold.fold = _
  rw [Spans.flatMap_slice, Nat.min_eq_left h]
  rfl

/-- The window is forty late, so a short match that begins in it ends in it. -/
theorem end_within {body query : Str} {at' : Nat} (hstands : Spans.StandsAt (needleOf query) body.casefold at')
    (hne : needleOf query ≠ []) (hshort : (needleOf query).length ≤ 40) :
    at' + (needleOf query).length ≤ foldedTo body (at' - 20 + 60) := by
  by_cases hlong : at' - 20 + 60 ≤ body.length
  · have hle : at' - 20 + 60 ≤ foldedTo body (at' - 20 + 60) := Spans.le_reach Casefold.nonempty hlong
    omega
  · have hwhole : foldedTo body (at' - 20 + 60) = body.casefold.length :=
      Spans.reach_of_length_le (Nat.le_of_not_le hlong)
    rw [hwhole]
    exact hstands.le_length hne

/-- The window of the folded text, with what the dots fold to around it. -/
theorem casefold_snippetOf {body query : Str} {at' : Nat} (hat : body.casefold.find (needleOf query) = some at') :
    ∃ front back : Str, (∀ c ∈ front, c = 0x2E) ∧ (∀ c ∈ back, c = 0x2E) ∧
      (snippetOf body query 60).casefold =
        front ++ ((body.casefold.take (foldedTo body (at' - 20 + 60))).drop (foldedTo body (at' - 20)) ++ back) := by
  have hpad : ∀ q : Prop, ∀ [Decidable q], ∀ c ∈ (if q then dots else []).casefold, c = 0x2E := by
    intro q _
    split
    · rw [casefold_dots]
      show ∀ c ∈ ([0x2E, 0x2E, 0x2E] : Str), c = 0x2E
      simp
    · exact fun c hc => absurd hc List.not_mem_nil
  refine ⟨_, _, hpad (at' - 20 ≠ 0), hpad (min body.length (at' - 20 + 60) < body.length), ?_⟩
  rw [snippetOf, hat, ← casefold_slice body (show at' - 20 ≤ at' - 20 + 60 by omega)]
  dsimp only
  rw [casefold_append, casefold_append]

/-- **What the window has.** It shows what was searched for if that fits, and, where dots
cannot stand for any of it, only then. -/
theorem snippetOf_contains {body query : Str} (hne : needleOf query ≠ []) (hshort : (needleOf query).length ≤ 40)
    (hfound : (body.casefold.find (needleOf query)).isSome = true) :
    (SnippetFits body query → needleOf query <:+: (snippetOf body query 60).casefold) ∧
      (0x2E ∉ needleOf query → needleOf query <:+: (snippetOf body query 60).casefold → SnippetFits body query) := by
  obtain ⟨at', hat⟩ := Option.isSome_iff_exists.mp hfound
  have hstands := Str.find_eq_some hat
  have hend := end_within hstands hne hshort
  obtain ⟨front, back, hfront, hback, htext⟩ := casefold_snippetOf hat
  rw [htext]
  constructor
  · intro h
    obtain ⟨at'', hat'', hfits⟩ := h
    obtain rfl : at' = at'' := Option.some.inj (hat.symm.trans hat'')
    have hin : needleOf query <:+:
        (body.casefold.take (foldedTo body (at' - 20 + 60))).drop (foldedTo body (at' - 20)) := by
      rw [Spans.infix_slice_iff hne]
      rcases hfits with hgain | ⟨p, -, hstart, hstop, hp⟩
      · exact ⟨at', hgain, hend, hstands⟩
      · exact ⟨p, hstart, hstop, hp⟩
    exact (hin.trans (List.prefix_append _ _).isInfix).trans (List.suffix_append _ _).isInfix
  · intro hdot h
    -- no dot takes part in the match, so it stands whole in the window
    have hin := Spans.infix_of_infix_append hne (fun c hc hmem => hdot (hfront c hmem ▸ hc))
      (fun c hc hmem => hdot (hback c hmem ▸ hc)) h
    obtain ⟨p, hstart, hstop, hp⟩ := (Spans.infix_slice_iff hne).mp hin
    refine ⟨at', hat, ?_⟩
    by_cases hgain : foldedTo body (at' - 20) ≤ at'
    · exact .inl hgain
    · exact .inr ⟨p, by omega, hstart, hstop, hp⟩

/-- **A search snippet shows what was searched for exactly when the match fits the
window.** -/
theorem snippet_shows {m : ChatModel} {query : Str} {limit : Nat} {hits : List SearchHit} {hit : SearchHit}
    (hsearch : m.search query limit = .ok hits) (hmem : hit ∈ hits) (hshort : (needleOf query).length ≤ 40) :
    ∃ body text, hit.message.body = .str body ∧ hit.snippet query = .ok text ∧
      (SnippetFits body query → needleOf query <:+: text.casefold) ∧
      (0x2E ∉ needleOf query → needleOf query <:+: text.casefold → SnippetFits body query) := by
  obtain ⟨hne, body, hbody, hfound⟩ := ChatModel.mem_search hsearch hmem
  refine ⟨body, snippetOf body query 60, hbody, ?_, snippetOf_contains hne hshort hfound⟩
  rw [SearchHit.snippet, hbody]

end Search

namespace Sample

/-- Case folding of ASCII, and of the one letter of Latin-1 that gets longer. -/
@[reducible] def latinCasefold : Casefold where
  fold c := if c.val = 0xDF then "ss" else if 0x41 ≤ c.val ∧ c.val ≤ 0x5A then [c + 0x20] else [c]
  nonempty c := by
    split
    · decide
    · split <;> simp
  stop := by decide

/-- A client that has loaded one message. -/
def loaded (body : Str) : ChatModel :=
  { conversations := [("b", { messages := [{ id := .str "m", sender := .str "b", body := .str body, ts := 1 }] })] }

def hitOf (body : Str) : SearchHit :=
  { key := "b", message := { id := .str "m", sender := .str "b", body := .str body, ts := 1 } }

/-- Twenty-one letters that fold to two each, and what is looked for. -/
def sharp : Str := List.replicate 21 0xDF ++ Str.ofString "x"

end Sample

section Concrete

open Sample

attribute [local instance] latinCasefold

theorem lighthouse_shown :
    ∃ text, (hitOf "We found it near the old Lighthouse, behind the wall").snippet "LIGHT" = .ok text ∧
      needleOf "LIGHT" <:+: text.casefold := by
  have hsearch : (loaded "We found it near the old Lighthouse, behind the wall").search "LIGHT" =
      .ok [hitOf "We found it near the old Lighthouse, behind the wall"] := rfl
  obtain ⟨body, text, hbody, htext, hshows, -⟩ := snippet_shows hsearch (List.mem_singleton.mpr rfl) (by decide)
  obtain rfl : Str.ofString "We found it near the old Lighthouse, behind the wall" = body := Json.str.inj hbody
  exact ⟨text, htext, hshows ⟨25, by decide +kernel, .inl (by decide +kernel)⟩⟩

/-- The window begins behind the match. -/
theorem sharp_hidden :
    (loaded sharp).search "x" = .ok [hitOf sharp] ∧
      ∃ text, (hitOf sharp).snippet "x" = .ok text ∧ ¬ needleOf "x" <:+: text.casefold :=
  ⟨rfl, dots, rfl, by decide +kernel⟩

end Concrete

end Ciphertext
