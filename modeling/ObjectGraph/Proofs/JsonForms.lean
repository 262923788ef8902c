import ObjectGraph.Value.Json
import ObjectGraph.Proofs.ContentBytes
import ObjectGraph.Proofs.JsonTrees

/-!
# Reading written forms

Each form reads back as what it was written from: a string, a whole number, an object with named
fields, and a value (`Value.ofJson?_writeJson`). A value is put into the form as it stands, its maps in
the order of their bindings; what it takes to be read back is that no map binds a key twice
(`Value.KeysOnce`), since a key that comes again hides what came before.

Whether a floating-point number reads back is not settled here: the reader rounds in several steps and
misses some numbers. What is read is the number if its text alone is read as the number
(`Binary64.ReadsBack`).
-/

set_option autoImplicit false

namespace ObjectGraph

/-! ## Strings and numbers -/

namespace Json

/-- What comes before the halves of pairs is none of them. -/
theorem not_surrogate_of_lt {u : UInt16} (h : u.toNat < 0xD800) :
    isHighSurrogate u = false ∧ isLowSurrogate u = false := by
  have hhigh : ¬ 0xD800 ≤ u := by
    rw [UInt16.le_iff_toNat_le]
    exact Nat.not_le_of_lt h
  have hlow : ¬ 0xDC00 ≤ u := by
    rw [UInt16.le_iff_toNat_le]
    exact Nat.not_le_of_lt (Nat.lt_trans h (by decide))
  simp [isHighSurrogate, isLowSurrogate, hhigh, hlow]

/-- A unit by code that comes before the halves of pairs stands for its character, whatever follows. -/
theorem Text.toChars?_code {u : UInt16} (h : u.toNat < 0xD800) (rest : Text) :
    Text.toChars? (.code u :: rest) = (Text.toChars? rest).map (Char.ofNat u.toNat :: ·) := by
  obtain ⟨hhigh, hlow⟩ := not_surrogate_of_lt h
  cases rest with
  | nil => simp [Text.toChars?, hhigh, hlow]
  | cons next rest => cases next <;> simp [Text.toChars?, hhigh, hlow]

theorem Text.toChars?_ofChar (c : Char) (rest : Text) :
    Text.toChars? (.ofChar c :: rest) = (Text.toChars? rest).map (c :: ·) := by
  unfold TextUnit.ofChar
  split
  next hcode =>
    have hcontrol : c.toNat < 32 := by simpa [isControl] using (Bool.and_eq_true_iff.mp hcode).1
    have hunit : (UInt16.ofNat c.toNat).toNat = c.toNat := by
      rw [UInt16.toNat_ofNat']
      omega
    rw [Text.toChars?_code (by omega), hunit, Char.ofNat_toNat]
  next => rfl

theorem Text.toString?_ofString (s : String) : (Text.ofString s).toString? = some s := by
  have hchars : ∀ cs : List Char, Text.toChars? (cs.map TextUnit.ofChar) = some cs := by
    intro cs
    induction cs with
    | nil => rfl
    | cons c cs ih => rw [List.map_cons, Text.toChars?_ofChar, ih, Option.map_some]
  rw [Text.toString?, Text.ofString, hchars, Option.map_some, String.ofList_toList]

theorem plain_ofString (s : String) : (ofString s).Plain := .string s

theorem string?_ofString (s : String) : (ofString s).string? = some s := Text.toString?_ofString s

theorem plain_ofInt64 (i : Int64) : (ofInt64 i).Plain := .number (Numeral.proper_ofInt i.toInt)

theorem int64?_ofInt64 (i : Int64) : (ofInt64 i).int64? = some i := Numeral.toInt64?_ofInt i

theorem plain_ofBinary64 (x : Binary64) : (ofBinary64 x).Plain := by
  unfold ofBinary64
  split
  · exact .number x.proper_compactNumeral
  · exact .null

end Json

/-- The text of the number is read as the number. -/
def Binary64.ReadsBack (x : Binary64) : Prop :=
  (Json.parse? (Json.ofBinary64 x).render).bind Json.binary64? = some x

-- the reader does miss some: the text here is 0.10003426614245159
example : ¬ (⟨4591872649202739744⟩ : Binary64).ReadsBack := by
  unfold Binary64.ReadsBack
  decide +kernel

theorem Binary64.ReadsBack.binary64? {x : Binary64} (h : x.ReadsBack) :
    (Json.ofBinary64 x).binary64? = some x := by
  rwa [ReadsBack, Json.parse?_render (Json.plain_ofBinary64 x), Option.bind_some] at h

/-! ## Named fields -/

namespace Json

theorem plain_ofFields {fields : List (String × Json)} (h : ∀ f ∈ fields, f.2.Plain) :
    (ofFields fields).Plain :=
  .object (List.forall_mem_map.mpr fun f _ => ⟨f.1, rfl⟩) (List.forall_mem_map.mpr h)

theorem namedMembers?_ofFields (fields : List (String × Json)) :
    namedMembers? (fields.map fun f => (Text.ofString f.1, f.2)) = some fields := by
  induction fields with
  | nil => rfl
  | cons f rest ih => simp only [List.map_cons, namedMembers?, Text.toString?_ofString, ih]

end Json

/-! ## Values -/

namespace Value

/-- The part is the value itself or stands somewhere inside it, as an item of a list or bound by a
map. -/
inductive Inside (part : Value) : Value → Prop
  | self : Inside part part
  | item {items : List Value} {v : Value} (hv : v ∈ items) (h : Inside part v) :
    Inside part (.array items)
  | binding {bindings : List (String × Value)} {k : String} {v : Value}
    (hv : bindings.lookup k = some v) (h : Inside part v) : Inside part (.map bindings)

/-- No map in the value binds a key twice. -/
def KeysOnce (v : Value) : Prop :=
  ∀ bindings, Inside (.map bindings) v → bindings.Pairwise fun a b => a.1 ≠ b.1

/-- Each floating-point number in the value is read back from its text. -/
def FloatsReadBack (v : Value) : Prop := ∀ x, Inside (.float x) v → x.ReadsBack

theorem KeysOnce.item {items : List Value} (h : KeysOnce (.array items)) {v : Value}
    (hv : v ∈ items) : v.KeysOnce :=
  fun bindings hbindings => h bindings (.item hv hbindings)

theorem KeysOnce.binding {bindings : List (String × Value)} (h : KeysOnce (.map bindings))
    {k : String} {v : Value} (hv : bindings.lookup k = some v) : v.KeysOnce :=
  fun inner hinner => h inner (.binding hv hinner)

theorem FloatsReadBack.item {items : List Value} (h : FloatsReadBack (.array items)) {v : Value}
    (hv : v ∈ items) : v.FloatsReadBack :=
  fun x hx => h x (.item hv hx)

theorem FloatsReadBack.binding {bindings : List (String × Value)}
    (h : FloatsReadBack (.map bindings)) {k : String} {v : Value}
    (hv : bindings.lookup k = some v) : v.FloatsReadBack :=
  fun x hx => h x (.binding hv hx)

theorem lookup_of_keysOnce {bindings : List (String × Value)} (h : KeysOnce (.map bindings))
    {b : String × Value} (hb : b ∈ bindings) : bindings.lookup b.1 = some b.2 :=
  (Table.lookup_eq_some_iff (h bindings .self)).mpr hb

theorem Kind.ofText?_text (k : Kind) : Kind.ofText? k.text = some k := by
  cases k <;> decide

theorem writeJsonItems_eq_map (items : List Value) : writeJsonItems items = items.map writeJson := by
  induction items with
  | nil => rfl
  | cons v rest ih => rw [writeJsonItems, ih, List.map_cons]

theorem writeJsonBindings_eq_map (bindings : List (String × Value)) :
    writeJsonBindings bindings =
      bindings.map fun b => (Json.Text.ofString b.1, b.2.writeJson) := by
  induction bindings with
  | nil => rfl
  | cons b rest ih => rw [writeJsonBindings, ih, List.map_cons]

theorem tagged_eq (kind : Kind) (content : Json) :
    tagged kind content = .object [(Json.Text.ofString kind.text, content)] := by
  rw [tagged, Json.ofFields, List.map_singleton]

theorem plain_tagged (kind : Kind) {content : Json} (h : content.Plain) :
    (tagged kind content).Plain :=
  Json.plain_ofFields (List.forall_mem_singleton.mpr h)

theorem plain_writeJson (v : Value) : v.writeJson.Plain := by
  induction v with
  | string s => exact plain_tagged _ (Json.plain_ofString s)
  | integer i => exact plain_tagged _ (Json.plain_ofInt64 i)
  | float x => exact plain_tagged _ (Json.plain_ofBinary64 x)
  | boolean b => exact plain_tagged _ (.boolean b)
  | dateTime millis => exact plain_tagged _ (Json.plain_ofInt64 millis)
  | array items ih =>
    refine plain_tagged _ (.array ?_)
    rw [writeJsonItems_eq_map]
    exact List.forall_mem_map.mpr ih
  | map bindings ih =>
    refine plain_tagged _ (.object ?_ ?_) <;> rw [writeJsonBindings_eq_map]
    · exact List.forall_mem_map.mpr fun b _ => ⟨b.1, rfl⟩
    · exact List.forall_mem_map.mpr ih
  | null => exact Json.plain_ofString _

/-- What a tagged form is read as depends on its content alone. -/
theorem tag_of_tagged (kind : Kind) :
    ((Json.Text.ofString kind.text).toString?.bind Kind.ofText?) = some kind := by
  rw [Json.Text.toString?_ofString, Option.bind_some, Kind.ofText?_text]

theorem ofJsonItems?_map {items : List Value} (h : ∀ v ∈ items, ofJson? v.writeJson = some v) :
    ofJsonItems? (items.map writeJson) = some items := by
  induction items with
  | nil => rw [List.map_nil, ofJsonItems?]
  | cons v rest ih =>
    obtain ⟨hv, hrest⟩ := List.forall_mem_cons.mp h
    simp only [List.map_cons, ofJsonItems?, hv, ih hrest]

theorem ofJsonMembers?_map {bindings : List (String × Value)}
    (hdistinct : bindings.Pairwise fun a b => a.1 ≠ b.1)
    (h : ∀ b ∈ bindings, ofJson? b.2.writeJson = some b.2) :
    ofJsonMembers? (bindings.map fun b => (Json.Text.ofString b.1, b.2.writeJson)) =
      some bindings := by
  induction bindings with
  | nil => rw [List.map_nil, ofJsonMembers?]
  | cons b rest ih =>
    obtain ⟨hb, hrest⟩ := List.forall_mem_cons.mp h
    obtain ⟨hfirst, hdistinct⟩ := List.pairwise_cons.mp hdistinct
    have hlater : (rest.any fun e => e.1 == b.1) = false := by
      simpa using fun k v hmem heq => hfirst (k, v) hmem heq.symm
    simp only [List.map_cons, ofJsonMembers?, Json.Text.toString?_ofString, hb, ih hdistinct hrest,
      bindUnlessLater, hlater, Bool.false_eq_true, if_false]

/-- **The form of a value is read back as the value.** -/
theorem ofJson?_writeJson {v : Value} (hkeys : v.KeysOnce) (hfloats : v.FloatsReadBack) :
    ofJson? v.writeJson = some v := by
  induction v with
  | string s =>
    simp only [writeJson, tagged_eq, ofJson?, tag_of_tagged, Json.string?_ofString, Option.map_some]
  | integer i =>
    simp only [writeJson, tagged_eq, ofJson?, tag_of_tagged, Json.int64?_ofInt64, Option.map_some]
  | float x =>
    simp only [writeJson, tagged_eq, ofJson?, tag_of_tagged, (hfloats x .self).binary64?,
      Option.map_some]
  | boolean b =>
    simp only [writeJson, tagged_eq, ofJson?, tag_of_tagged, Json.boolean?, Option.map_some]
  | dateTime millis =>
    simp only [writeJson, tagged_eq, ofJson?, tag_of_tagged, Json.int64?_ofInt64, Option.map_some]
  | array items ih =>
    have hitems := ofJsonItems?_map fun v hv => ih v hv (hkeys.item hv) (hfloats.item hv)
    simp only [writeJson, tagged_eq, ofJson?, tag_of_tagged, writeJsonItems_eq_map, hitems,
      Option.map_some]
  | map bindings ih =>
    have hbound : ∀ b ∈ bindings, ofJson? b.2.writeJson = some b.2 := fun b hb =>
      have hlookup := lookup_of_keysOnce hkeys hb
      ih b hb (hkeys.binding hlookup) (hfloats.binding hlookup)
    have hmembers := ofJsonMembers?_map (hkeys bindings .self) hbound
    simp only [writeJson, tagged_eq, ofJson?, tag_of_tagged, writeJsonBindings_eq_map, hmembers,
      Option.map_some]
  | null =>
    simp only [writeJson, Json.ofString, ofJson?, Json.Text.toString?_ofString, if_pos]

end Value

end ObjectGraph
