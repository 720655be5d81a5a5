import Ciphertext.Common.Codec
import Ciphertext.Common.Lines

/-!
# A frame survives the wire

Whatever the network does to the boundaries, feeding the encodings of some
frames to a `LineBuffer` and decoding what it hands back gives the same frames
in the same order. Three facts carry it. The text of a frame holds no control
character, so the only newlines of the stream are the delimiters; a buffer's
bytes followed by a chunk are a stream cut at another place, and `Lines.split`
does not care where; and `from_dict` undoes `to_dict`.

`wire_roundTrip` puts them together for any list of frames and any way of cutting the
stream: no feed raises, the frames come back in order, and after every chunk the buffer
is the unfinished line. It is about the frames a client or the server makes (`Plain`: of
this version, with an id, and with text or nothing where `from_dict` wants text); what
`decode` makes of other lines is the matter of `Relay`.
-/

namespace Ciphertext

/-! ## The text of a value -/

/-- No control character. -/
def Str.visible (s : Str) : Prop := ∀ c ∈ s, 0x20 ≤ c.val

namespace Str

instance (s : Str) : Decidable s.visible :=
  decidable_of_iff (s.all (fun c => decide (0x20 ≤ c.val)) = true) (by simp [visible])

/-- Two visible texts one after the other. -/
theorem visible_append {s t : Str} (hs : s.visible) (ht : t.visible) : (s ++ t).visible := by
  intro c hc
  rcases List.mem_append.mp hc with hc | hc
  · exact hs c hc
  · exact ht c hc

/-- Visible texts joined by a visible separator. -/
theorem visible_join {sep : Str} {parts : List Str} (hs : sep.visible)
    (h : ∀ p ∈ parts, p.visible) : (join sep parts).visible := by
  refine join_induction ?_ visible_append hs h
  intro c hc
  cases hc

theorem visible_ofString {s : String} (h : ∀ c ∈ s.toList, 0x20 ≤ c.toNat ∧ c.toNat < 0x110000) :
    (ofString s).visible := by
  intro c hc
  obtain ⟨ch, hch, rfl⟩ := List.mem_map.mp hc
  obtain ⟨hlow, hhigh⟩ := h ch hch
  show 0x20 ≤ ch.toNat % 0x110000
  rw [Nat.mod_eq_of_lt hhigh]
  exact hlow

/-- A number is written with digits and a sign. -/
theorem visible_ofInt (n : Int) : (ofInt n).visible := by
  have hdigits : ∀ m : Nat, ∀ c ∈ Nat.toDigits 10 m, 0x20 ≤ c.toNat ∧ c.toNat < 0x110000 := by
    intro m c hc
    have hdigit := Nat.isDigit_of_mem_toDigits (by decide) (by decide) hc
    simp only [Char.isDigit, Bool.and_eq_true, decide_eq_true_eq] at hdigit
    have h₁ : 48 ≤ c.toNat := hdigit.1
    have h₂ : c.toNat ≤ 57 := hdigit.2
    omega
  refine visible_ofString fun c hc => ?_
  rw [Int.toString_eq_repr, Int.repr_eq_if] at hc
  split at hc
  · rw [Nat.toList_repr] at hc
    exact hdigits _ c hc
  · rw [String.toList_append, Nat.toList_repr] at hc
    rcases List.mem_append.mp hc with hc | hc
    · obtain rfl : c = '-' := by simpa using hc
      decide
    · exact hdigits _ c hc

end Str

namespace Json

theorem hexDigit_visible {n : Nat} (h : n < 16) : 0x20 ≤ (hexDigit n).val := by
  have hall : ∀ n : Fin 16, 0x20 ≤ (hexDigit n.val).val := by decide
  exact hall ⟨n, h⟩

/-- An escape is printed with visible characters, -/
theorem escape_visible (c : CodePoint) : (escape c).visible := by
  rcases escape_cases c with ⟨s, hs, -, hesc⟩ | ⟨hlow, hesc⟩ | ⟨hhigh, hesc⟩ <;> rw [hesc]
  · have hall : ∀ s ∈ (["\\\"", "\\\\", "\\n", "\\r", "\\t", "\\f", "\\b"] : List String),
        (Str.ofString s).all (fun d => 0x20 ≤ d.val) = true := by
      decide
    exact fun d hd => of_decide_eq_true (List.all_eq_true.mp (hall s hs) d hd)
  · refine Str.visible_append (by decide) fun d hd => ?_
    simp only [List.mem_cons, List.not_mem_nil, or_false] at hd
    rcases hd with rfl | rfl
    · exact hexDigit_visible (by omega)
    · exact hexDigit_visible (by omega)
  · intro d hd
    obtain rfl := List.mem_singleton.mp hd
    exact hhigh

/-- so a quoted string has no control character in it, -/
theorem quote_visible (s : Str) : (quote s).visible := by
  refine Str.visible_append (Str.visible_append (by decide) fun c hc => ?_) (by decide)
  obtain ⟨d, -, hd⟩ := List.mem_flatMap.mp hc
  exact escape_visible d c hd

variable [Runtime]

/-- `repr` of a float has no control character. -/
def FloatsVisible : Prop := ∀ x : PyFloat, (Runtime.reprFloat x).visible

theorem floatText_visible (hf : FloatsVisible) (x : PyFloat) : (floatText x).visible := by
  cases x with
  | nan => exact (by decide : (Str.ofString "NaN").visible)
  | inf => exact (by decide : (Str.ofString "Infinity").visible)
  | negInf => exact (by decide : (Str.ofString "-Infinity").visible)
  | finite q => exact hf _
  | negZero => exact hf _

mutual

/-- and no dumped value has. -/
theorem text_visible (hf : FloatsVisible) : ∀ j : Json, (text j).visible
  | .null => by rw [text]; decide
  | .bool b => by cases b <;> rw [text] <;> decide
  | .int n => by rw [text]; exact Str.visible_ofInt n
  | .float x => by rw [text]; exact floatText_visible hf x
  | .str s => by rw [text]; exact quote_visible s
  | .list xs => by
    rw [text]
    exact Str.visible_append (Str.visible_append (by decide)
      (Str.visible_join (by decide) (textList_visible hf xs))) (by decide)
  | .dict kvs => by
    rw [text]
    exact Str.visible_append (Str.visible_append (by decide)
      (Str.visible_join (by decide) (textDict_visible hf kvs))) (by decide)

theorem textList_visible (hf : FloatsVisible) : ∀ xs : List Json, ∀ p ∈ textList xs, p.visible
  | [], p, hp => by simp [textList] at hp
  | x :: xs, p, hp => by
    rw [textList] at hp
    rcases List.mem_cons.mp hp with rfl | hp
    · exact text_visible hf x
    · exact textList_visible hf xs p hp

theorem textDict_visible (hf : FloatsVisible) :
    ∀ kvs : List (Str × Json), ∀ p ∈ textDict kvs, p.visible
  | [], p, hp => by simp [textDict] at hp
  | (k, x) :: kvs, p, hp => by
    rw [textDict] at hp
    rcases List.mem_cons.mp hp with rfl | hp
    · exact Str.visible_append (Str.visible_append (quote_visible k) (by decide))
        (text_visible hf x)
    · exact textDict_visible hf kvs p hp

end

/-- The text of an object ends with its brace. -/
theorem text_dict_last (kvs : Dict) : ∃ front, text (.dict kvs) = front ++ [0x7d] :=
  ⟨_, by rw [text]; rfl⟩

end Json

/-! ## From a frame to an object and back -/

namespace Frame

/-- The frames the round trip is about: of this version, with an id, and with
text or nothing in the four optional fields. -/
structure Plain (f : Frame) : Prop where
  version : f.v = protocolVersion
  id : ∃ s : Str, f.id = .str s ∧ s ≠ []
  optional : ∀ v ∈ [f.sender, f.target, f.body, f.nonce], v = .null ∨ ∃ s, v = .str s

theorem lookup_present_self (key : Str) (v : Json) : ((present key v).lookup key).getD .null = v := by
  unfold present
  by_cases hv : v = .null <;> simp [hv]

theorem lookup_present_ne {k key : Str} (h : k ≠ key) (v : Json) :
    (present key v).lookup k = none := by
  unfold present
  by_cases hv : v = .null
  · simp [hv]
  · simp [hv, List.lookup_cons, beq_eq_false_iff_ne.mpr h]

/-- A reserved field is no part of the data. -/
theorem filter_present {key : Str} (h : key ∈ reserved) (v : Json) :
    (present key v).filter (fun kv => !reserved.contains kv.1) = [] := by
  unfold present
  by_cases hv : v = .null <;> simp [hv, h]

variable [Runtime]

/-- No reserved key is in the payload of a frame that has an object. -/
theorem toDict_cases {f : Frame} {d : Dict} (h : f.toDict = .ok d) :
    (∀ kv ∈ f.data, kv.1 ∉ reserved) ∧
      d = ([("v", f.v), ("id", f.id), ("type", .str f.type.value), ("ts", .int f.ts)] : Dict) ++
        present "from" f.sender ++ present "to" f.target ++ present "body" f.body ++
        present "n" f.nonce ++ f.data := by
  unfold toDict at h
  split at h
  · cases h
  next hnone =>
    refine ⟨fun kv hkv hres => ?_, (Except.ok.inj h).symm⟩
    have := List.find?_eq_none.mp hnone kv hkv
    simp [hres] at this

/-- A field the payload cannot hold is found where it was put. -/
theorem toDict_get {f : Frame} {d : Dict} (h : f.toDict = .ok d) :
    Json.getD d "v" protocolVersion = f.v ∧ Json.get d "id" = f.id ∧
      Json.get d "type" = .str f.type.value ∧ (∀ now, Json.getD d "ts" now = .int f.ts) ∧
      Json.get d "from" = f.sender ∧ Json.get d "to" = f.target ∧ Json.get d "body" = f.body ∧
      Json.get d "n" = f.nonce := by
  obtain ⟨hfree, rfl⟩ := toDict_cases h
  have hdata : ∀ k ∈ reserved, f.data.lookup k = none := by
    intro k hk
    refine List.lookup_eq_none_iff.mpr fun kv hkv => ?_
    have hne : k ≠ kv.1 := fun he => hfree kv hkv (he ▸ hk)
    simpa using hne
  have hhead : ∀ {k : Str}, k ≠ "v" → k ≠ "id" → k ≠ "type" → k ≠ "ts" →
      List.lookup k ([("v", f.v), ("id", f.id), ("type", .str f.type.value), ("ts", .int f.ts)] :
        Dict) = none := by
    intro k h₁ h₂ h₃ h₄
    simp [List.lookup_cons, beq_eq_false_iff_ne.mpr h₁, beq_eq_false_iff_ne.mpr h₂,
      beq_eq_false_iff_ne.mpr h₃, beq_eq_false_iff_ne.mpr h₄]
  refine ⟨rfl, rfl, rfl, fun _ => rfl, ?_, ?_, ?_, ?_⟩ <;>
    simp (disch := decide) only [Json.get, Json.getD, List.lookup_append, hhead,
      lookup_present_ne, hdata, Option.or_none, Option.none_or, lookup_present_self]

omit [Runtime] in
/-- The name of a type is read back as that type. -/
theorem ofJson_value (t : MessageType) : MessageType.ofJson (.str t.value) = some t := by
  cases t <;> decide

/-- `from_dict` undoes `to_dict`, whatever the defaults would have been, for a version
that compares as this one and an id that is not replaced. -/
theorem fromDict_of_toDict {f : Frame} {d : Dict} (heq : Json.pyEq f.v protocolVersion = true)
    (htruthy : f.id.truthy = true) (h : f.toDict = .ok d) (newId : Str) (now : Int) :
    fromDict newId now (.dict d) = .ok f := by
  obtain ⟨hv, hid, htype, hts, hfrom, hto, hbody, hn⟩ := toDict_get h
  obtain ⟨hfree, hd⟩ := toDict_cases h
  have hkeep : d.filter (fun kv => !reserved.contains kv.1) = f.data := by
    have hown : ∀ kv ∈ f.data, (!reserved.contains kv.1) = true := by
      intro kv hkv
      simpa using hfree kv hkv
    have hhead : ([("v", f.v), ("id", f.id), ("type", .str f.type.value), ("ts", .int f.ts)] :
        Dict).filter (fun kv => !reserved.contains kv.1) = [] := rfl
    rw [hd]
    simp (disch := decide) only [List.filter_append, hhead, filter_present, List.nil_append,
      List.filter_eq_self.mpr hown]
  simp only [fromDict, hv, htype, hts, hfrom, hto, hbody, hn, hid, heq, hkeep, ofJson_value,
    Bool.not_true, Bool.false_eq_true, if_false, reduceCtorEq, Json.orElse, htruthy, if_true]

/-- So it does for a frame of the program's own. -/
theorem fromDict_toDict {f : Frame} {d : Dict} (hf : f.Plain) (h : f.toDict = .ok d) (newId : Str)
    (now : Int) : fromDict newId now (.dict d) = .ok f := by
  obtain ⟨s, hs, hne⟩ := hf.id
  have htruthy : f.id.truthy = true := by
    rw [hs]
    simpa [Json.truthy] using hne
  have heq : Json.pyEq f.v protocolVersion = true := by
    rw [hf.version]
    exact Json.pyEq_refl _
  exact fromDict_of_toDict heq htruthy h newId now

end Frame

/-! ## Cutting a stream -/

namespace LineBuffer

/-- The text of a line, without the carriage returns at its end. -/
def lineText (raw : List UInt8) : Option Str := (Str.ofUtf8 raw).map stripCR

/-- The lines that are handed back for these, if they are all UTF-8. -/
def lineTexts : List (List UInt8) → Option (List Str)
  | [] => some []
  | raw :: rest => do
    let text ← lineText raw
    let texts ← lineTexts rest
    return keep text texts

/-- Bytes without a delimiter are kept. -/
theorem drain_append {raw l : List UInt8} (hl : delimiter ∉ l) (rest : List UInt8) :
    drain raw (l ++ rest) = drain (raw ++ l) rest := by
  induction l generalizing raw with
  | nil => rw [List.nil_append, List.append_nil]
  | cons b l ih =>
    have hne : b ≠ delimiter := fun he => hl (he ▸ List.mem_cons_self ..)
    have ih := @ih (raw ++ [b]) fun h => hl (List.mem_cons_of_mem _ h)
    rw [List.cons_append, drain, if_neg hne, ih, List.append_assoc, List.singleton_append]

/-- **What draining does**, read off the lines of the stream. -/
theorem drain_join {ls : List (List UInt8)} {rest : List UInt8} (hls : ∀ l ∈ ls, delimiter ∉ l)
    (hrest : delimiter ∉ rest) :
    match lineTexts ls with
    | some texts => drain [] (Lines.join delimiter ls ++ rest) = (.ok texts, rest)
    | none => ∃ left, drain [] (Lines.join delimiter ls ++ rest) =
        (.error "line is not valid UTF-8", left) := by
  induction ls with
  | nil =>
    have := @drain_append [] rest hrest []
    rw [List.append_nil] at this
    rw [Lines.join_nil, List.nil_append, lineTexts, this]
    rfl
  | cons l ls ih =>
    have ih := ih fun l' hl' => hls l' (List.mem_cons_of_mem _ hl')
    have hl := hls l (List.mem_cons_self ..)
    rw [Lines.join_cons, List.append_assoc, drain_append hl, List.nil_append, List.cons_append,
      drain, if_pos rfl, lineTexts, lineText]
    cases hu : Str.ofUtf8 l with
    | none => exact ⟨_, rfl⟩
    | some text =>
      cases ht : lineTexts ls with
      | none =>
        rw [ht] at ih
        obtain ⟨left, hleft⟩ := ih
        exact ⟨left, by simp [hleft]⟩
      | some texts =>
        rw [ht] at ih
        simp [ih]

/-- Lines are decoded one by one. -/
theorem lineTexts_append {ls ls' : List (List UInt8)} {texts : List Str} :
    lineTexts (ls ++ ls') = some texts ↔
      ∃ texts₁ texts₂, lineTexts ls = some texts₁ ∧ lineTexts ls' = some texts₂ ∧
        texts = texts₁ ++ texts₂ := by
  induction ls generalizing texts with
  | nil => simp [lineTexts, eq_comm]
  | cons l ls ih =>
    rw [List.cons_append, lineTexts, lineTexts]
    cases lineText l with
    | none => simp
    | some text =>
      -- An empty line is dropped on both sides alike.
      have hkeep : ∀ xs ys : List Str, keep text (xs ++ ys) = keep text xs ++ ys := by
        intro xs ys
        unfold keep
        split <;> rfl
      constructor
      · intro h
        obtain ⟨all, hall, rfl⟩ : ∃ all, lineTexts (ls ++ ls') = some all ∧
            texts = keep text all := by
          cases hall : lineTexts (ls ++ ls') with
          | none => simp [hall] at h
          | some all => exact ⟨all, rfl, by simpa [hall, eq_comm] using h⟩
        obtain ⟨texts₁, texts₂, h₁, h₂, rfl⟩ := ih.mp hall
        exact ⟨keep text texts₁, texts₂, by simp [h₁], h₂, hkeep _ _⟩
      · rintro ⟨kept, texts₂, h₁, h₂, rfl⟩
        obtain ⟨texts₁, ht, rfl⟩ : ∃ texts₁, lineTexts ls = some texts₁ ∧
            kept = keep text texts₁ := by
          cases ht : lineTexts ls with
          | none => simp [ht] at h₁
          | some texts₁ => exact ⟨texts₁, rfl, by simpa [ht, eq_comm] using h₁⟩
        simp [ih.mpr ⟨texts₁, texts₂, ht, h₂, rfl⟩, hkeep]

/-- **What a feed does**, read off the lines of what it has received. -/
theorem feed_eq (b : LineBuffer) (chunk : List UInt8) :
    match lineTexts (Lines.split delimiter (b.buffer ++ chunk)).1 with
    | none => ∃ b', b.feed chunk = (.error "line is not valid UTF-8", b')
    | some texts =>
      if b.maxLineBytes < (Lines.split delimiter (b.buffer ++ chunk)).2.length then
        ∃ e, b.feed chunk = (.error e, { b with buffer := [] })
      else b.feed chunk =
        (.ok texts, { b with buffer := (Lines.split delimiter (b.buffer ++ chunk)).2 }) := by
  have hpieces := Lines.split_notMem (d := delimiter) (b.buffer ++ chunk)
  have hdrain := drain_join hpieces.1 hpieces.2
  rw [Lines.join_split] at hdrain
  unfold feed
  cases ht : lineTexts (Lines.split delimiter (b.buffer ++ chunk)).1 with
  | none =>
    rw [ht] at hdrain
    obtain ⟨left, hleft⟩ := hdrain
    rw [hleft]
    exact ⟨_, rfl⟩
  | some texts =>
    rw [ht] at hdrain
    dsimp only at hdrain ⊢
    rw [hdrain]
    dsimp only
    split
    · exact ⟨_, rfl⟩
    · rfl

/-- What each of some chunks makes of the buffer, one after the other. -/
def feeds (b : LineBuffer) : List (List UInt8) → List (Except Str (List Str) × LineBuffer)
  | [] => []
  | c :: cs => b.feed c :: feeds (b.feed c).2 cs

/-- A stream of lines that are text and not too long goes through, however it is
cut: nothing raises, the lines come out in order, and what is kept after each
chunk is what follows the last delimiter received. -/
theorem feeds_ok {b : LineBuffer} {chunks : List (List UInt8)} {texts : List Str}
    (hbuf : delimiter ∉ b.buffer)
    (htexts : lineTexts (Lines.split delimiter (b.buffer ++ chunks.flatten)).1 = some texts)
    (hlong : ∀ l ∈ (Lines.split delimiter (b.buffer ++ chunks.flatten)).1,
      l.length ≤ b.maxLineBytes)
    (hrest : (Lines.split delimiter (b.buffer ++ chunks.flatten)).2.length ≤ b.maxLineBytes) :
    ∃ out : List (List Str), (feeds b chunks).map Prod.fst = out.map .ok ∧ out.flatten = texts ∧
      ∀ pre r post, feeds b chunks = pre ++ r :: post →
        r.2.buffer = (Lines.split delimiter
          (b.buffer ++ (chunks.take (pre.length + 1)).flatten)).2 ∧
        r.2.buffer.length ≤ b.maxLineBytes := by
  induction chunks generalizing b texts with
  | nil =>
    rw [List.flatten_nil, List.append_nil, Lines.split_of_notMem hbuf] at htexts
    refine ⟨[], rfl, Option.some.inj htexts, ?_⟩
    intro pre r post he
    simp [feeds] at he
  | cons c cs ih =>
    -- The first chunk completes some lines, and the rest of the stream begins
    -- with what it leaves in the buffer.
    rw [List.flatten_cons, ← List.append_assoc, Lines.split_append] at htexts hlong hrest
    have hpieces := Lines.split_notMem (d := delimiter) (b.buffer ++ c)
    generalize hs : Lines.split delimiter (b.buffer ++ c) = s at htexts hlong hrest hpieces
    obtain ⟨ls, left⟩ := s
    dsimp only at htexts hlong hrest hpieces
    obtain ⟨texts₁, texts₂, ht₁, ht₂, rfl⟩ := lineTexts_append.mp htexts
    have hleft : left.length ≤ b.maxLineBytes :=
      Lines.length_le_of_split hpieces.2
        (fun l hl => hlong l (List.mem_append_right _ hl)) hrest
    have hfeed : b.feed c = (.ok texts₁, { b with buffer := left }) := by
      have := feed_eq b c
      rw [hs, ht₁] at this
      simpa [Nat.not_lt.mpr hleft] using this
    obtain ⟨out, hout, hflat, hbufs⟩ := ih (b := { b with buffer := left }) hpieces.2 ht₂
      (fun l hl => hlong l (List.mem_append_right _ hl)) hrest
    refine ⟨texts₁ :: out, ?_, ?_, ?_⟩
    · rw [feeds, hfeed, List.map_cons, List.map_cons, hout]
    · rw [List.flatten_cons, hflat]
    · intro pre r post he
      rw [feeds, hfeed] at he
      cases pre with
      | nil =>
        obtain ⟨rfl, -⟩ := List.cons.inj he
        refine ⟨?_, hleft⟩
        simp [hs]
      | cons r' pre =>
        obtain ⟨-, he⟩ := List.cons.inj he
        obtain ⟨hr, hlen⟩ := hbufs pre r post he
        refine ⟨?_, hlen⟩
        rw [hr, List.length_cons, List.take_succ_cons, List.flatten_cons, ← List.append_assoc,
          Lines.split_append (b.buffer ++ c), hs]

end LineBuffer

/-! ## The round trip -/

section RoundTrip

variable [Runtime]

/-- The line a frame is written as is the text of its object, in which nothing
looks like a delimiter. -/
theorem encode_cases {f : Frame} {wire : List UInt8} (h : encode f = .ok (wire ++ [delimiter])) :
    ∃ d, f.toDict = .ok d ∧ (Json.dict d).text.encodable = true ∧ wire = (Json.dict d).text.utf8 := by
  unfold encode at h
  split at h
  · cases h
  next d hd =>
    refine ⟨d, hd, ?_⟩
    split at h
    · cases h
    · split at h
      · cases h
      next henc =>
        refine ⟨by simpa using henc, ?_⟩
        exact (List.append_cancel_right (Except.ok.inj h)).symm

/-- **A dumped frame has no newline in it.** -/
theorem delimiter_notMem (hf : Json.FloatsVisible) {d : Dict}
    (henc : (Json.dict d).text.encodable = true) : delimiter ∉ (Json.dict d).text.utf8 := by
  intro hmem
  obtain ⟨c, hc, hval⟩ := Str.mem_utf8 henc hmem (by decide)
  have hvisible := Json.text_visible hf (.dict d) c hc
  have hten : delimiter.toNat = 10 := by decide
  omega

/-- The line is handed back as the text it was written from: it ends with a
brace, not with a carriage return. -/
theorem lineText_text {d : Dict} (henc : (Json.dict d).text.encodable = true) :
    LineBuffer.lineText (Json.dict d).text.utf8 = some (Json.dict d).text := by
  rw [LineBuffer.lineText, Str.ofUtf8_utf8 henc, Option.map_some]
  obtain ⟨front, hfront⟩ := Json.text_dict_last d
  rw [hfront, LineBuffer.stripCR, List.reverse_append]
  simp

variable [JsonErrors]

/-- The lines frames are written as hold no delimiter, and are texts that decode
to the frames. -/
theorem wires_texts {fs : List Frame} {wires : List (List UInt8)} (hfloats : Json.FloatsVisible)
    (hloads : ∀ f ∈ fs, ∀ d, f.toDict = .ok d → Runtime.loads (Json.dict d).text = .ok (.dict d))
    (hplain : ∀ f ∈ fs, f.Plain)
    (hwires : List.Forall₂ (fun f wire => encode f = .ok (wire ++ [delimiter])) fs wires) :
    (∀ l ∈ wires, delimiter ∉ l) ∧
      ∃ texts, LineBuffer.lineTexts wires = some texts ∧
        List.Forall₂ (fun line f => ∀ newId now, decode newId now line = .ok f) texts fs := by
  induction hwires with
  | nil => exact ⟨by simp, [], rfl, .nil⟩
  | @cons f wire fs wires hw _ ih =>
    obtain ⟨hall, texts, htexts, hdecode⟩ := ih
      (fun f' hf' => hloads f' (List.mem_cons_of_mem _ hf'))
      (fun f' hf' => hplain f' (List.mem_cons_of_mem _ hf'))
    obtain ⟨d, hd, henc, rfl⟩ := encode_cases hw
    refine ⟨?_, (Json.dict d).text :: texts, ?_, .cons ?_ hdecode⟩
    · intro l hl
      rcases List.mem_cons.mp hl with rfl | hl
      · exact delimiter_notMem hfloats henc
      · exact hall l hl
    · obtain ⟨front, hfront⟩ := Json.text_dict_last d
      have hkeep : LineBuffer.keep (Json.dict d).text texts = (Json.dict d).text :: texts := by
        rw [LineBuffer.keep, hfront]
        simp
      rw [LineBuffer.lineTexts, lineText_text henc, htexts, ← hkeep]
      rfl
    · intro newId now
      rw [decode, hloads f (List.mem_cons_self ..) d hd]
      show (Frame.fromDict newId now (.dict d)).mapError CodecErr.protocol = .ok f
      rw [Frame.fromDict_toDict (hplain f (List.mem_cons_self ..)) hd]
      rfl

/-- **A list of frames survives the wire**, wherever it is cut: no feed raises,
the lines decode to the frames in order, and after every chunk the buffer is the
unfinished line, no longer than allowed. -/
theorem wire_roundTrip {fs : List Frame} {wires chunks : List (List UInt8)} {maxLineBytes : Nat}
    (hfloats : Json.FloatsVisible)
    (hloads : ∀ f ∈ fs, ∀ d, f.toDict = .ok d → Runtime.loads (Json.dict d).text = .ok (.dict d))
    (hplain : ∀ f ∈ fs, f.Plain)
    (hwires : List.Forall₂ (fun f wire => encode f = .ok (wire ++ [delimiter])) fs wires)
    (hlong : ∀ wire ∈ wires, wire.length ≤ maxLineBytes)
    (hcut : chunks.flatten = (wires.map (· ++ [delimiter])).flatten) :
    ∃ out : List (List Str),
      (LineBuffer.feeds { maxLineBytes } chunks).map Prod.fst = out.map .ok ∧
      List.Forall₂ (fun line f => ∀ newId now, decode newId now line = .ok f) out.flatten fs ∧
      ∀ pre r post, LineBuffer.feeds { maxLineBytes } chunks = pre ++ r :: post →
        r.2.buffer = (Lines.split delimiter (chunks.take (pre.length + 1)).flatten).2 ∧
        delimiter ∉ r.2.buffer ∧ r.2.buffer.length ≤ maxLineBytes := by
  obtain ⟨hfree, texts, htexts, hdecode⟩ := wires_texts hfloats hloads hplain hwires
  -- The only delimiters of the stream are those between the frames.
  have hsplit : Lines.split delimiter chunks.flatten = (wires, []) := by
    have hjoin : Lines.split delimiter (Lines.join delimiter wires ++ []) = (wires, []) :=
      Lines.split_join hfree (by simp)
    rwa [List.append_nil, Lines.join, ← hcut] at hjoin
  obtain ⟨out, hout, hflat, hbufs⟩ := @LineBuffer.feeds_ok { maxLineBytes } chunks texts
    (by simp) (by rw [List.nil_append, hsplit]; exact htexts)
    (by rw [List.nil_append, hsplit]; exact hlong)
    (by rw [List.nil_append, hsplit]; exact Nat.zero_le _)
  refine ⟨out, hout, hflat ▸ hdecode, ?_⟩
  intro pre r post he
  obtain ⟨hr, hlen⟩ := hbufs pre r post he
  rw [List.nil_append] at hr
  exact ⟨hr, hr ▸ (Lines.split_notMem _).2, hlen⟩

end RoundTrip

/-! ## A character cut in two -/

namespace Sample

/-- A message with a character of three bytes, and its object. -/
def greeting : Frame :=
  { type := .msg, sender := .str "a", target := .str "b", body := .str "你", nonce := .str "n",
    id := .str "i", ts := 5 }

def greetingDict : Dict :=
  [("v", .int 1), ("id", .str "i"), ("type", .str "MSG"), ("ts", .int 5), ("from", .str "a"),
    ("to", .str "b"), ("body", .str "你"), ("n", .str "n")]

/-- A library that reads that one object. -/
@[reducible] def wireRuntime : Runtime where
  reprStr s := Str.ofString "'" ++ s ++ Str.ofString "'"
  reprFloat _ := "0.5"
  intOfStr _ := none
  loads s := if s = Str.ofString
      "\x7b\"v\":1,\"id\":\"i\",\"type\":\"MSG\",\"ts\":5,\"from\":\"a\",\"to\":\"b\",\"body\":\"你\",\"n\":\"n\"\x7d"
    then .ok (.dict greetingDict) else .error .valueError
  dumps _ := []
  realText _ := "0.5"
  scrypt _ _ := []

@[reducible] def wireErrors : JsonErrors := ⟨fun _ => some "Expecting value"⟩

end Sample

section Concrete

open Sample

attribute [local instance] wireRuntime wireErrors

/-- The line of that message, cut inside the character. -/
theorem greeting_roundTrip :
    ∃ wire, encode greeting = .ok (wire ++ [delimiter]) ∧
      ∃ out : List (List Str),
        (LineBuffer.feeds {} [wire.take 65, wire.drop 65 ++ [delimiter]]).map Prod.fst =
          out.map .ok ∧
        List.Forall₂ (fun line f => ∀ newId now, decode newId now line = .ok f) out.flatten
          [greeting] := by
  have henc : encode greeting = .ok ((Json.dict greetingDict).text.utf8 ++ [delimiter]) := by
    decide +kernel
  refine ⟨_, henc, ?_⟩
  have hplain : greeting.Plain :=
    ⟨rfl, ⟨_, rfl, by decide⟩, fun v hv => .inr (by
      simp only [List.mem_cons, List.not_mem_nil, or_false] at hv
      rcases hv with rfl | rfl | rfl | rfl <;> exact ⟨_, rfl⟩)⟩
  have hdict : greeting.toDict = .ok greetingDict := by decide +kernel
  obtain ⟨out, hout, hdecode, -⟩ := @wire_roundTrip _ _ [greeting]
    [(Json.dict greetingDict).text.utf8]
    [(Json.dict greetingDict).text.utf8.take 65,
      (Json.dict greetingDict).text.utf8.drop 65 ++ [delimiter]] maxLineBytes
    (fun x => (by decide : (Str.ofString "0.5").visible))
    (fun f hf d hd => by
      obtain rfl := List.mem_singleton.mp hf
      obtain rfl := Except.ok.inj (hdict.symm.trans hd)
      decide +kernel)
    (fun f hf => List.mem_singleton.mp hf ▸ hplain)
    (.cons henc .nil)
    (fun wire hwire => by
      obtain rfl := List.mem_singleton.mp hwire
      decide +kernel)
    (by simp [← List.append_assoc])
  exact ⟨out, hout, hdecode⟩

end Concrete

end Ciphertext
