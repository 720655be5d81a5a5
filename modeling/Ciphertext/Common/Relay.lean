import Ciphertext.Common.RoundTrip

/-!
# What decode accepts, encode can write

The other half of the codec law: it begins with a line, and so with whatever
`json.loads` makes of one. `from_dict` keeps every value of the object but those it
checks, so what `to_dict` writes holds the same strings, and the one thing that
stops `encode` is a string with a lone surrogate, which an escape can spell and
UTF-8 cannot (`decode_relays_iff`). Frames are compared value by value; a NaN is the
one object `json.loads` has for it, and equal to itself where a container compares it.

The text of a value is followed constructor by constructor (`text_encodable`), and
`Taken` is what `from_dict` keeps of an object. That every float has a text in ASCII is
assumed of `repr`.
-/

namespace Ciphertext

/-! ## Strings with no lone surrogate -/

namespace Str

/-- The characters of a literal are no surrogates. -/
theorem encodable_ofString (s : String) : (ofString s).encodable = true := by
  refine List.all_eq_true.mpr fun c hc => ?_
  obtain ⟨ch, -, rfl⟩ := List.mem_map.mp hc
  have hvalid : ch.toNat.isValidChar := ch.valid
  have hval : (Fin.ofNat 0x110000 ch.toNat).val = ch.toNat := by
    unfold Nat.isValidChar at hvalid
    exact Nat.mod_eq_of_lt (by omega)
  unfold isSurrogate
  rw [hval]
  unfold Nat.isValidChar at hvalid
  simp
  omega

theorem encodable_append_eq (a b : Str) : (a ++ b).encodable = (a.encodable && b.encodable) := List.all_append

theorem encodable_join_eq {sep : Str} (hs : sep.encodable = true) (parts : List Str) :
    (join sep parts).encodable = parts.all encodable := by
  induction parts with
  | nil => rfl
  | cons x xs ih =>
    cases xs with
    | nil => simp [join, List.intercalate]
    | cons y ys =>
      have hstep : join sep (x :: y :: ys) = x ++ (sep ++ join sep (y :: ys)) := by
        simp [join, List.intercalate]
      rw [hstep, encodable_append_eq, encodable_append_eq, hs, ih, Bool.true_and]
      rfl

end Str

namespace Json

mutual

/-- Every string in the value, keys included, has an encoding. -/
def encodable : Json → Bool
  | .str s => s.encodable
  | .list xs => encodableList xs
  | .dict kvs => encodableDict kvs
  | _ => true

def encodableList : List Json → Bool
  | [] => true
  | x :: xs => encodable x && encodableList xs

def encodableDict : List (Str × Json) → Bool
  | [] => true
  | (k, x) :: kvs => (k.encodable && encodable x) && encodableDict kvs

end

theorem encodable_dict {kvs : Dict} :
    (Json.dict kvs).encodable = true ↔ ∀ kv ∈ kvs, kv.1.encodable = true ∧ kv.2.encodable = true := by
  show encodableDict kvs = true ↔ _
  induction kvs with
  | nil => simp [encodableDict]
  | cons kv kvs ih => simp [encodableDict, ih]

theorem printable_dict {kvs : Dict} : (Json.dict kvs).printable = true ↔ ∀ kv ∈ kvs, kv.2.printable = true := by
  show printableDict kvs = true ↔ _
  induction kvs with
  | nil => simp [printableDict]
  | cons kv kvs ih => simp [printableDict, ih]

/-- What is not true has no string in it. -/
theorem encodable_of_falsy {v : Json} (h : v.truthy = false) : v.encodable = true := by
  cases v with
  | str s =>
    obtain rfl : s = [] := by simpa [truthy] using h
    rfl
  | list xs =>
    obtain rfl : xs = [] := by simpa [truthy] using h
    rfl
  | dict kvs =>
    obtain rfl : kvs = [] := by simpa [truthy] using h
    rfl
  | _ => rfl

/-! ### Their text -/

theorem hexDigit_encodable {n : Nat} (h : n < 16) : Str.isSurrogate (hexDigit n) = false := by
  have hall : ∀ n : Fin 16, Str.isSurrogate (hexDigit n.val) = false := by decide
  exact hall ⟨n, h⟩

/-- Escaping writes ASCII or the character itself. -/
theorem escape_encodable (c : CodePoint) : (escape c).encodable = !Str.isSurrogate c := by
  have hlow : c.val < 0x60 → (!Str.isSurrogate c) = true := by
    intro h
    simp [Str.isSurrogate]
    omega
  rcases escape_cases c with ⟨s, -, hascii, hesc⟩ | ⟨hcontrol, hesc⟩ | ⟨-, hesc⟩ <;> rw [hesc]
  · rw [hlow hascii]
    exact Str.encodable_ofString s
  · rw [hlow (by omega), Str.encodable_append_eq, Str.encodable_ofString]
    have h₁ : Str.isSurrogate (hexDigit (c.val / 16)) = false := hexDigit_encodable (by omega)
    have h₂ : Str.isSurrogate (hexDigit (c.val % 16)) = false := hexDigit_encodable (by omega)
    simp [Str.encodable, h₁, h₂]
  · simp [Str.encodable]

theorem quote_encodable (s : Str) : (quote s).encodable = s.encodable := by
  have hflat : Str.encodable (s.flatMap escape) = s.encodable := by
    induction s with
    | nil => rfl
    | cons c s ih =>
      rw [List.flatMap_cons, Str.encodable_append_eq, escape_encodable, ih]
      rfl
  unfold quote
  rw [Str.encodable_append_eq, Str.encodable_append_eq, hflat, Str.encodable_ofString, Bool.true_and, Bool.and_true]

variable [Runtime]

/-- `repr` of a float is text that can be encoded. -/
def FloatsEncodable : Prop := ∀ x : PyFloat, (Runtime.reprFloat x).encodable = true

theorem floatText_encodable (hf : FloatsEncodable) (x : PyFloat) : (floatText x).encodable = true := by
  cases x with
  | nan | inf | negInf => exact Str.encodable_ofString _
  | finite q => exact hf _
  | negZero => exact hf _

mutual

/-- **The text of a value** has an encoding exactly when all its strings have. -/
theorem text_encodable (hf : FloatsEncodable) : ∀ j : Json, (text j).encodable = j.encodable
  | .null => by rw [text]; exact Str.encodable_ofString _
  | .bool b => by cases b <;> rw [text] <;> exact Str.encodable_ofString _
  | .int n => by rw [text]; exact Str.encodable_ofString _
  | .float x => by rw [text]; exact floatText_encodable hf x
  | .str s => by rw [text]; exact quote_encodable s
  | .list xs => by
    rw [text, Str.encodable_append_eq, Str.encodable_append_eq, Str.encodable_join_eq (Str.encodable_ofString _),
      Str.encodable_ofString, Str.encodable_ofString, Bool.true_and, Bool.and_true]
    exact textList_encodable hf xs
  | .dict kvs => by
    rw [text, Str.encodable_append_eq, Str.encodable_append_eq, Str.encodable_join_eq (Str.encodable_ofString _),
      Str.encodable_ofString, Str.encodable_ofString, Bool.true_and, Bool.and_true]
    exact textDict_encodable hf kvs

theorem textList_encodable (hf : FloatsEncodable) : ∀ xs : List Json,
    (textList xs).all Str.encodable = encodableList xs
  | [] => rfl
  | x :: xs => by
    rw [textList, List.all_cons, text_encodable hf x, textList_encodable hf xs]
    rfl

theorem textDict_encodable (hf : FloatsEncodable) : ∀ kvs : List (Str × Json),
    (textDict kvs).all Str.encodable = encodableDict kvs
  | [] => rfl
  | (k, x) :: kvs => by
    rw [textDict, List.all_cons, Str.encodable_append_eq, Str.encodable_append_eq, quote_encodable,
      Str.encodable_ofString, Bool.and_true, text_encodable hf x, textDict_encodable hf kvs]
    rfl

end

end Json

/-! ## The object a decoded frame is written as -/

namespace Frame

section Object

variable [Runtime] {newId : Str} {now : Int} {kvs : Dict} {f : Frame}

/-- What `from_dict` has taken from the object. -/
structure Taken (newId : Str) (now : Int) (kvs : Dict) (f : Frame) : Prop where
  version : f.v = Json.getD kvs "v" protocolVersion
  known : Json.pyEq f.v protocolVersion = true
  type : Json.get kvs "type" = .str f.type.value
  ts : Json.getD kvs "ts" (.int now) = .int f.ts
  sender : f.sender = Json.get kvs "from"
  target : f.target = Json.get kvs "to"
  body : f.body = Json.get kvs "body"
  nonce : f.nonce = Json.get kvs "n"
  data : f.data = kvs.filter fun kv => !reserved.contains kv.1
  id : f.id = (Json.get kvs "id").orElse (.str newId)

theorem fromDict_taken {raw : Json} (h : fromDict newId now raw = .ok f) :
    ∃ kvs, raw = .dict kvs ∧ Taken newId now kvs f := by
  unfold fromDict at h
  split at h
  next kvs =>
    refine ⟨kvs, rfl, ?_⟩
    dsimp only at h
    split at h
    · cases h
    next hversion =>
    split at h
    · cases h
    split at h
    · cases h
    next type htype =>
    split at h
    next ts hts =>
      have hspelling : Json.get kvs "type" = .str type.value := by
        have hfound := List.find?_some htype
        exact beq_iff_eq.mp hfound
      obtain rfl := Except.ok.inj h
      exact ⟨rfl, by simpa using hversion, hspelling, hts, rfl, rfl, rfl, rfl, rfl, rfl⟩
    · cases h
  · cases h

omit [Runtime] in
theorem mem_present {key : Str} {v : Json} {kv : Str × Json} : kv ∈ present key v ↔ v ≠ .null ∧ kv = (key, v) := by
  unfold present
  by_cases hv : v = .null <;> simp [hv]

/-- The payload holds no reserved key, so there is an object. -/
theorem Taken.toDict (h : Taken newId now kvs f) : f.toDict = .ok
    (([("v", f.v), ("id", f.id), ("type", .str f.type.value), ("ts", .int f.ts)] : Dict) ++
      present "from" f.sender ++ present "to" f.target ++ present "body" f.body ++ present "n" f.nonce ++ f.data) := by
  have hfree : f.data.find? (fun kv => reserved.contains kv.1) = none := by
    refine List.find?_eq_none.mpr fun kv hkv => ?_
    rw [h.data] at hkv
    simpa using (List.mem_filter.mp hkv).2
  unfold Frame.toDict
  rw [hfree]

omit [Runtime] in
/-- The value of a key is one of the object's, if it is not the default. -/
theorem getD_mem {key : Str} {v other : Json} (h : Json.getD kvs key other = v) (hne : v ≠ other) : (key, v) ∈ kvs := by
  unfold Json.getD at h
  cases hl : kvs.lookup key with
  | none =>
    rw [hl] at h
    exact (hne h.symm).elim
  | some x =>
    rw [hl] at h
    obtain rfl : x = v := h
    obtain ⟨before, after, rfl, -⟩ := List.lookup_eq_some_iff.mp hl
    simp

omit [Runtime] in
/-- In an object with distinct keys every value is found under its key. -/
theorem getD_of_mem (hk : (kvs.map Prod.fst).Nodup) {key : Str} {v : Json} (h : (key, v) ∈ kvs) (other : Json) :
    Json.getD kvs key other = v := by
  obtain ⟨before, after, rfl⟩ := List.append_of_mem h
  have hl : (before ++ (key, v) :: after).lookup key = some v := by
    refine List.lookup_eq_some_iff.mpr ⟨before, after, rfl, fun kv hkv => bne_iff_ne.mpr fun hsame => ?_⟩
    rw [List.map_append, List.map_cons] at hk
    have hdisjoint := (List.nodup_append.mp hk).2.2
    exact hdisjoint kv.1 (List.mem_map_of_mem hkv) key (List.mem_cons_self ..) hsame.symm
  rw [Json.getD, hl]
  rfl

/-- Whatever is said of every value of the object that was read, and of the defaults, is
said of every value of the one that is written. -/
theorem Taken.values {P : Json → Prop} (h : Taken newId now kvs f) (hall : ∀ kv ∈ kvs, P kv.2)
    (hversion : P protocolVersion) (hid : P (.str newId)) (hnow : P (.int now)) {d : Dict} (hd : f.toDict = .ok d) :
    ∀ kv ∈ d, P kv.2 := by
  have hgetD : ∀ {key v other}, Json.getD kvs key other = v → P other → P v := by
    intro key v other hv ho
    by_cases hne : v = other
    · exact hne ▸ ho
    · exact hall _ (getD_mem hv hne)
  have hpresent : ∀ {key v} {kv : Str × Json}, v = Json.get kvs key → kv ∈ present key v → P kv.2 := by
    intro key v kv hv hkv
    obtain ⟨hne, rfl⟩ := mem_present.mp hkv
    exact hall _ (getD_mem hv.symm hne)
  obtain rfl := Except.ok.inj (h.toDict.symm.trans hd)
  intro kv hkv
  -- the four that are always there, the four that may be, and the payload
  simp only [List.mem_append, List.mem_cons, List.not_mem_nil, or_false] at hkv
  rcases hkv with ((((((rfl | rfl | rfl | rfl) | hkv) | hkv) | hkv) | hkv) | hkv)
  · exact hgetD h.version.symm hversion
  · show P f.id
    rw [h.id, Json.orElse]
    split
    next ht => exact hall _ (getD_mem (v := Json.get kvs "id") rfl fun hn => by rw [hn] at ht; cases ht)
    · exact hid
  · refine hall _ (getD_mem h.type ?_)
    intro hn
    cases hn
  · exact hgetD h.ts hnow
  · exact hpresent h.sender hkv
  · exact hpresent h.target hkv
  · exact hpresent h.body hkv
  · exact hpresent h.nonce hkv
  · rw [h.data] at hkv
    exact hall kv (List.mem_of_mem_filter hkv)

/-- The keys of the one that is written are the frame's own, or keys that were read. -/
theorem Taken.keys (h : Taken newId now kvs f) {d : Dict} (hd : f.toDict = .ok d) :
    ∀ kv ∈ d, kv.1 ∈ reserved ∨ kv ∈ kvs := by
  have hpresent : ∀ {key v} {kv : Str × Json}, key ∈ reserved → kv ∈ present key v → kv.1 ∈ reserved := by
    intro key v kv hkey hkv
    obtain ⟨-, rfl⟩ := mem_present.mp hkv
    exact hkey
  obtain rfl := Except.ok.inj (h.toDict.symm.trans hd)
  intro kv hkv
  simp only [List.mem_append, List.mem_cons, List.not_mem_nil, or_false] at hkv
  rcases hkv with ((((((rfl | rfl | rfl | rfl) | hkv) | hkv) | hkv) | hkv) | hkv)
  · exact .inl (by simp [reserved])
  · exact .inl (by simp [reserved])
  · exact .inl (by simp [reserved])
  · exact .inl (by simp [reserved])
  · exact .inl (hpresent (by decide) hkv)
  · exact .inl (hpresent (by decide) hkv)
  · exact .inl (hpresent (by decide) hkv)
  · exact .inl (hpresent (by decide) hkv)
  · rw [h.data] at hkv
    exact .inr (List.mem_of_mem_filter hkv)

/-- What was read is written, but for what was not there or not true, and for a version,
a type and a time in which there are no strings. -/
theorem Taken.written (h : Taken newId now kvs f) (hk : (kvs.map Prod.fst).Nodup) {d : Dict} (hd : f.toDict = .ok d)
    {kv : Str × Json} (hkv : kv ∈ kvs) : kv ∈ d ∨ kv.1 ∈ reserved ∧ kv.2.encodable = true := by
  obtain ⟨key, v⟩ := kv
  have hget : ∀ other, Json.getD kvs key other = v := getD_of_mem hk hkv
  have hpresent : ∀ {x : Json}, x = Json.get kvs key → (key, v) ∈ present key x ∨ v.encodable = true := by
    intro x hx
    obtain rfl : x = v := hx.trans (hget .null)
    by_cases hnull : x = .null
    · subst hnull
      exact .inr rfl
    · exact .inl (mem_present.mpr ⟨hnull, rfl⟩)
  obtain rfl := Except.ok.inj (h.toDict.symm.trans hd)
  simp only [List.mem_append, List.mem_cons, List.not_mem_nil, or_false]
  by_cases hres : key ∈ reserved
  case neg =>
    refine .inl (.inr ?_)
    rw [h.data]
    exact List.mem_filter.mpr ⟨hkv, by simpa using hres⟩
  -- a field at a time: `v`, `id`, `type` and `ts` are written whatever they are
  simp only [reserved, List.mem_cons, List.not_mem_nil, or_false] at hres
  rcases hres with rfl | rfl | rfl | rfl | rfl | rfl | rfl | rfl
  · have hv : f.v = v := h.version.trans (hget _)
    simp [hv]
  · have hid : f.id = v.orElse (.str newId) := by rw [h.id, Json.get, hget]
    by_cases ht : v.truthy = true
    · have hid : f.id = v := by rw [hid, Json.orElse, if_pos ht]
      simp [hid]
    · exact .inr ⟨by decide, Json.encodable_of_falsy (by simpa using ht)⟩
  · have htype : v = .str f.type.value := (hget .null).symm.trans h.type
    simp [htype]
  · have hts : v = .int f.ts := (hget _).symm.trans h.ts
    simp [hts]
  · rcases hpresent h.sender with hmem | henc
    · simp [hmem]
    · exact .inr ⟨by decide, henc⟩
  · rcases hpresent h.target with hmem | henc
    · simp [hmem]
    · exact .inr ⟨by decide, henc⟩
  · rcases hpresent h.body with hmem | henc
    · simp [hmem]
    · exact .inr ⟨by decide, henc⟩
  · rcases hpresent h.nonce with hmem | henc
    · simp [hmem]
    · exact .inr ⟨by decide, henc⟩

omit [Runtime] in
theorem reserved_encodable : ∀ key ∈ reserved, key.encodable = true := by decide

/-- **The two objects hold the same strings**, as far as having an encoding goes. -/
theorem Taken.encodable_iff (h : Taken newId now kvs f) (hk : (kvs.map Prod.fst).Nodup)
    (hid : newId.encodable = true) {d : Dict} (hd : f.toDict = .ok d) :
    (Json.dict d).encodable = true ↔ (Json.dict kvs).encodable = true := by
  rw [Json.encodable_dict, Json.encodable_dict]
  constructor
  · intro hall kv hkv
    rcases h.written hk hd hkv with hmem | ⟨hres, henc⟩
    · exact hall kv hmem
    · exact ⟨reserved_encodable _ hres, henc⟩
  · intro hall kv hkv
    refine ⟨?_, h.values (P := fun v => v.encodable = true) (fun x hx => (hall x hx).2) rfl hid rfl hd kv hkv⟩
    rcases h.keys hd kv hkv with hres | hmem
    · exact reserved_encodable _ hres
    · exact (hall kv hmem).1

end Object

end Frame

/-! ## Relaying -/

section Relay

variable [Runtime] [JsonErrors]

/-- The frame can be written, and the line that a buffer makes of it decodes to the same
frame. -/
def Relays (f : Frame) : Prop :=
  ∃ wire line, encode f = .ok (wire ++ [delimiter]) ∧ LineBuffer.lineText wire = some line ∧
    ∀ newId now, decode newId now line = .ok f

omit [JsonErrors] in
/-- An object whose integers can be printed is written exactly when its strings have an
encoding. -/
theorem encode_iff (hf : Json.FloatsEncodable) {f : Frame} {d : Dict} (hd : f.toDict = .ok d)
    (hp : (Json.dict d).printable = true) :
    (∃ wire, encode f = .ok (wire ++ [delimiter])) ↔ (Json.dict d).encodable = true := by
  rw [← Json.text_encodable hf]
  constructor
  · intro h
    obtain ⟨wire, hwire⟩ := h
    obtain ⟨d', hd', henc, -⟩ := encode_cases hwire
    obtain rfl := Except.ok.inj (hd.symm.trans hd')
    exact henc
  · intro henc
    refine ⟨(Json.dict d).text.utf8, ?_⟩
    unfold encode
    rw [hd]
    simp [hp, henc]

/-- **A frame that was decoded can be relayed** exactly when no string of the object it
was read from has a lone surrogate. Of `json.loads` it is used that the keys of an object
are distinct, that an integer it has read can be printed, and that it reads back the
object the frame is written as; of the defaults, that an id is text and not empty and
that a time can be printed. -/
theorem decode_relays_iff {line newId : Str} {now : Int} {f : Frame} (hfloats : Json.FloatsEncodable)
    (hloads : ∀ raw, Runtime.loads line = .ok raw → raw.WF ∧ raw.printable = true)
    (hreads : ∀ d, f.toDict = .ok d → Runtime.loads (Json.dict d).text = .ok (.dict d))
    (hid : newId ≠ [] ∧ newId.encodable = true) (hnow : (Json.int now).printable = true)
    (h : decode newId now line = .ok f) :
    Relays f ↔ ∀ raw, Runtime.loads line = .ok raw → raw.encodable = true := by
  obtain ⟨raw, hraw, hfrom⟩ : ∃ raw, Runtime.loads line = .ok raw ∧ Frame.fromDict newId now raw = .ok f := by
    unfold decode at h
    split at h
    · split at h <;> cases h
    next raw hraw =>
      cases hfrom : Frame.fromDict newId now raw with
      | error e =>
        rw [hfrom] at h
        cases h
      | ok g =>
        rw [hfrom] at h
        exact ⟨raw, hraw, hfrom.trans (congrArg Except.ok (Except.ok.inj h))⟩
  obtain ⟨kvs, rfl, htaken⟩ := Frame.fromDict_taken hfrom
  obtain ⟨hwf, hprintable⟩ := hloads _ hraw
  have hkeys : (kvs.map Prod.fst).Nodup := by
    cases hwf with
    | dict hk _ => exact hk
  have hd := htaken.toDict
  set d : Dict := _ with hdef
  have hone : protocolVersion.printable = true := by decide +kernel
  have hwritten : (Json.dict d).printable = true := Json.printable_dict.mpr
    (htaken.values (P := fun v => v.printable = true) (Json.printable_dict.mp hprintable) hone rfl hnow hd)
  have hsame := htaken.encodable_iff hkeys hid.2 hd
  have hboth : (∀ raw, Runtime.loads line = .ok raw → raw.encodable = true) ↔ (Json.dict kvs).encodable = true := by
    constructor
    · exact fun hall => hall _ hraw
    · intro henc raw hraw'
      rw [hraw] at hraw'
      exact Except.ok.inj hraw' ▸ henc
  rw [hboth, ← hsame, ← encode_iff hfloats hd hwritten]
  constructor
  · intro hrelays
    obtain ⟨wire, -, hwire, -⟩ := hrelays
    exact ⟨wire, hwire⟩
  · intro hwire
    obtain ⟨wire, hwire⟩ := hwire
    obtain ⟨d', hd', henc, rfl⟩ := encode_cases hwire
    obtain rfl := Except.ok.inj (hd.symm.trans hd')
    -- an id that is not true has been replaced, so decoding again replaces nothing
    have htruthy : f.id.truthy = true := by
      rw [htaken.id, Json.orElse]
      split
      next ht => exact ht
      · simpa [Json.truthy] using hid.1
    refine ⟨_, _, hwire, lineText_text henc, fun newId' now' => ?_⟩
    unfold decode
    rw [hreads _ hd]
    show (Frame.fromDict newId' now' _).mapError CodecErr.protocol = .ok f
    rw [Frame.fromDict_of_toDict htaken.known htruthy hd]
    rfl

end Relay

namespace Sample

/-- An object with an id that is a list, a `null` where a string goes, and a payload. -/
def oddLine : Str := "\x7b\"id\":[\"i\"],\"type\":\"PING\",\"ts\":5,\"body\":null,\"x\":\"\\u4f60\"\x7d"

def oddDict : Dict :=
  [("id", .list [.str "i"]), ("type", .str "PING"), ("ts", .int 5), ("body", .null), ("x", .str "你")]

/-- The object it is relayed as. -/
def oddRelayed : Dict :=
  [("v", .int 1), ("id", .list [.str "i"]), ("type", .str "PING"), ("ts", .int 5), ("x", .str "你")]

/-- A message whose text is half a surrogate pair, spelled as an escape. -/
def loneLine : Str := "\x7b\"id\":\"i\",\"type\":\"MSG\",\"ts\":5,\"body\":\"\\ud800\"\x7d"

def loneDict : Dict := [("id", .str "i"), ("type", .str "MSG"), ("ts", .int 5), ("body", .str [0xd800])]

/-- A library that reads these. -/
@[reducible] def relayRuntime : Runtime where
  reprStr s := Str.ofString "'" ++ s ++ Str.ofString "'"
  reprFloat _ := "0.5"
  intOfStr _ := none
  loads s :=
    if s = oddLine then .ok (.dict oddDict)
    else if s = Str.ofString "\x7b\"v\":1,\"id\":[\"i\"],\"type\":\"PING\",\"ts\":5,\"x\":\"你\"\x7d"
      then .ok (.dict oddRelayed)
    else if s = loneLine then .ok (.dict loneDict)
    else .error .valueError
  dumps _ := []
  realText _ := "0.5"
  scrypt _ _ := []

end Sample

section Concrete

open Sample

attribute [local instance] relayRuntime wireErrors

/-- It is read, and cannot be written. -/
theorem lone_unrelayed : ∃ f, decode "n" 0 loneLine = .ok f ∧ f.id = .str "i" ∧ ¬ Relays f := by
  refine ⟨{ type := .msg, body := .str [0xd800], id := .str "i", ts := 5 }, by decide +kernel, rfl, fun h => ?_⟩
  obtain ⟨wire, -, hwire, -⟩ := h
  have hraises : encode { type := .msg, body := .str [0xd800], id := .str "i", ts := 5 } =
      .error (.raised .unicodeEncodeError) := by decide +kernel
  rw [hraises] at hwire
  cases hwire

/-- An odd frame, but one that comes through. -/
theorem odd_relayed : Relays { type := .ping, data := [("x", .str "你")], id := .list [.str "i"], ts := 5 } := by
  have hodd : Runtime.loads oddLine = .ok (.dict oddDict) := by decide +kernel
  refine (@decode_relays_iff _ _ oddLine "n" 0 _ (fun _ => Str.encodable_ofString "0.5") (fun raw hraw => ?_)
    (fun d hd => ?_) (by decide) (by decide +kernel) (by decide +kernel)).mpr fun raw hraw => ?_
  · obtain rfl := Except.ok.inj (hodd.symm.trans hraw)
    refine ⟨.dict (by decide) fun kv hkv => ?_, by decide +kernel⟩
    simp only [oddDict, List.mem_cons, List.not_mem_nil, or_false] at hkv
    rcases hkv with rfl | rfl | rfl | rfl | rfl
    · exact .list fun x hx => List.mem_singleton.mp hx ▸ .str _
    · exact .str _
    · exact .int _
    · exact .null
    · exact .str _
  · have hobject : Frame.toDict { type := .ping, data := [("x", .str "你")], id := .list [.str "i"], ts := 5 } =
        .ok oddRelayed := by decide +kernel
    obtain rfl := Except.ok.inj (hobject.symm.trans hd)
    decide +kernel
  · obtain rfl := Except.ok.inj (hodd.symm.trans hraw)
    decide +kernel

end Concrete

end Ciphertext
