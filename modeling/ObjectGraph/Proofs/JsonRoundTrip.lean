import ObjectGraph.Key.Json
import ObjectGraph.Record.Json
import ObjectGraph.Proofs.ContentEquality
import ObjectGraph.Proofs.JsonForms

/-!
# JSON texts lose nothing

Values, keys and records are read back from their JSON texts (`jsonText_reads_back`), so distinct ones
never have a text in common.

An object says nothing by the order of its members. So a value or a record has a JSON text for each
order in which the members may be written (`Value.HasJsonText`, `Record.HasJsonText`), and all of them
are read alike; the text that is written here, by ascending keys, is one of these. What a value must be
for its texts to be read is said of the value: its floating-point numbers are finite, each alone is read
back from its text, and it is not nested too deeply (`Value.Expressible`).
-/

set_option autoImplicit false

namespace ObjectGraph

namespace Value

/-! ## What stands inside a normal form -/

theorem Inside.normal {part v : Value} (h : Inside part v) : Inside part.normal v.normal := by
  induction h with
  | self => exact .self
  | item hv _ ih =>
    rw [Value.normal, normalItems_eq_map]
    exact .item (List.mem_map_of_mem hv) ih
  | @binding bindings k v hv _ ih =>
    have hlookup : (normalBindings bindings).lookup k = some v.normal := by
      rw [lookup_normalBindings, hv, Option.map_some]
    exact .binding hlookup ih

/-- What stands inside a normal form is the normal form of something inside the value. -/
theorem exists_inside_of_normal {v part : Value} (h : Inside part v.normal) :
    ∃ p, Inside p v ∧ part = p.normal := by
  induction v with
  | array items ih =>
    rw [normal, normalItems_eq_map] at h
    cases h with
    | self => exact ⟨.array items, .self, by rw [normal, normalItems_eq_map]⟩
    | item hv h =>
      obtain ⟨u, hu, rfl⟩ := List.mem_map.mp hv
      obtain ⟨p, hp, heq⟩ := ih u hu h
      exact ⟨p, .item hu hp, heq⟩
  | map bindings ih =>
    rw [normal] at h
    cases h with
    | self => exact ⟨.map bindings, .self, by rw [normal]⟩
    | @binding _ k v hv h =>
      rw [lookup_normalBindings] at hv
      obtain ⟨u, hu, rfl⟩ := Option.map_eq_some_iff.mp hv
      obtain ⟨p, hp, heq⟩ := ih (k, u) (mem_of_lookup hu) h
      exact ⟨p, .binding hu hp, heq⟩
  | string s | integer i | float x | boolean b | dateTime m | null =>
    cases h
    exact ⟨_, .self, rfl⟩

theorem inside_float_normal_iff {x : Binary64} {v : Value} :
    Inside (.float x) v.normal ↔ Inside (.float x) v := by
  constructor
  · intro h
    obtain ⟨p, hp, heq⟩ := exists_inside_of_normal h
    cases p <;> cases heq
    exact hp
  · exact Inside.normal

theorem keysOnce_normal (v : Value) : v.normal.KeysOnce := by
  intro bindings h
  obtain ⟨p, -, heq⟩ := exists_inside_of_normal h
  cases p <;> cases heq
  exact (ascending_normalBindings _).imp fun hlt heq => absurd (heq ▸ hlt) (String.lt_irrefl _)

/-- A normal form is its own. -/
theorem normal_normal (v : Value) : v.normal.normal = v.normal := by
  induction v with
  | array items ih =>
    rw [normal, normal, normalItems_eq_map, normalItems_eq_map, List.map_map]
    exact congrArg _ (List.map_congr_left ih)
  | map bindings ih =>
    rw [normal, normal]
    refine congrArg _ ((ascending_normalBindings _).ext (ascending_normalBindings _) fun k => ?_)
    rw [lookup_normalBindings, lookup_normalBindings, Option.map_map]
    refine Option.map_congr fun u hu => ?_
    exact ih (k, u) (mem_of_lookup hu)
  | _ => rfl

theorem mem_normalBindings_iff {bindings : List (String × Value)} (h : KeysOnce (.map bindings))
    {b : String × Value} :
    b ∈ normalBindings bindings ↔ ∃ d ∈ bindings, b = (d.1, d.2.normal) := by
  refine ⟨Content.mem_normalBindings, ?_⟩
  rintro ⟨d, hd, rfl⟩
  apply mem_of_lookup
  rw [lookup_normalBindings, lookup_of_keysOnce h hd, Option.map_some]

/-! ## Nesting -/

theorem nesting_tagged (kind : Kind) (content : Json) :
    (tagged kind content).nesting = content.nesting + 1 := by
  simp [tagged_eq, Json.nesting, Json.nestingOfMembers]

theorem nestingOfItems_le_iff {items : List Json} {n : Nat} :
    Json.nestingOfItems items ≤ n ↔ ∀ v ∈ items, v.nesting ≤ n := by
  induction items with
  | nil => simp [Json.nestingOfItems]
  | cons v rest ih => rw [Json.nestingOfItems, Nat.max_le, ih, List.forall_mem_cons]

theorem nestingOfMembers_le_iff {members : List (Json.Text × Json)} {n : Nat} :
    Json.nestingOfMembers members ≤ n ↔ ∀ m ∈ members, m.2.nesting ≤ n := by
  induction members with
  | nil => simp [Json.nestingOfMembers]
  | cons m rest ih => rw [Json.nestingOfMembers, Nat.max_le, ih, List.forall_mem_cons]

/-- How deep a value is nested does not depend on the order of its bindings. -/
theorem nesting_writeJson_normal {v : Value} (h : v.KeysOnce) :
    v.normal.writeJson.nesting = v.writeJson.nesting := by
  induction v with
  | array items ih =>
    have hparts : Json.nestingOfItems ((normalItems items).map writeJson) =
        Json.nestingOfItems (items.map writeJson) := by
      refine eq_of_forall_ge_iff fun n => ?_
      rw [nestingOfItems_le_iff, nestingOfItems_le_iff, normalItems_eq_map]
      simp only [List.forall_mem_map]
      exact forall₂_congr fun v hv => by rw [ih v hv (h.item hv)]
    rw [normal, writeJson, writeJson, nesting_tagged, nesting_tagged, writeJsonItems_eq_map,
      writeJsonItems_eq_map, Json.nesting, Json.nesting, hparts]
  | map bindings ih =>
    have hparts : Json.nestingOfMembers (writeJsonBindings (normalBindings bindings)) =
        Json.nestingOfMembers (writeJsonBindings bindings) := by
      refine eq_of_forall_ge_iff fun n => ?_
      rw [nestingOfMembers_le_iff, nestingOfMembers_le_iff, writeJsonBindings_eq_map,
        writeJsonBindings_eq_map]
      simp only [List.forall_mem_map]
      have hbound : ∀ d ∈ bindings, d.2.normal.writeJson.nesting = d.2.writeJson.nesting :=
        fun d hd => ih d hd (h.binding (lookup_of_keysOnce h hd))
      constructor
      · intro hall d hd
        rw [← hbound d hd]
        exact hall (d.1, d.2.normal) ((mem_normalBindings_iff h).mpr ⟨d, hd, rfl⟩)
      · intro hall b hb
        obtain ⟨d, hd, rfl⟩ := Content.mem_normalBindings hb
        rw [hbound d hd]
        exact hall d hd
    rw [normal, writeJson, writeJson, nesting_tagged, nesting_tagged, Json.nesting, Json.nesting,
      hparts]
  | _ => rfl

/-! ## The texts of a value -/

/-- The text writes the value, the members of its maps in some order. -/
def HasJsonText (v : Value) (s : String) : Prop :=
  ∃ w : Value, w.KeysOnce ∧ v.Same w ∧ s = w.writeJson.render

/-- The value has texts that can be read: JSON has a form for each of its numbers, which is read as
that number, and its brackets are not too many for the reader. -/
structure Expressible (v : Value) : Prop where
  finite : ∀ x, Inside (.float x) v → x.isFinite = true
  readsBack : ∀ x, Inside (.float x) v → x.isFinite = true → x.ReadsBack
  nesting : v.toJson.nesting ≤ nestingLimit

theorem hasJsonText_jsonText (v : Value) : v.HasJsonText v.jsonText :=
  ⟨v.normal, keysOnce_normal v, normal_eq_iff.mp (normal_normal v).symm, rfl⟩

theorem parseJson?_of_hasJsonText {v : Value} {s : String} (hv : v.Expressible)
    (hs : v.HasJsonText s) : ∃ w, parseJson? s = some w ∧ v.Same w := by
  obtain ⟨w, hkeys, hsame, rfl⟩ := hs
  have hnormal : v.normal = w.normal := hsame.normal_eq
  have hfloats : w.FloatsReadBack := by
    intro x hx
    have hx : Inside (.float x) v := by
      rwa [← inside_float_normal_iff, hnormal, inside_float_normal_iff]
    exact hv.readsBack x hx (hv.finite x hx)
  have hnesting : w.writeJson.nesting ≤ nestingLimit := by
    rw [← nesting_writeJson_normal hkeys, ← hnormal]
    exact hv.nesting
  refine ⟨w, ?_, hsame⟩
  rw [parseJson?, Json.parse?_render (plain_writeJson w)]
  simp only [if_pos hnesting, ofJson?_writeJson hkeys hfloats]

/-- Values with a text in common hold the same. -/
theorem same_of_hasJsonText {v w : Value} {s : String} (hv : v.Expressible) (hw : w.Expressible)
    (hvs : v.HasJsonText s) (hws : w.HasJsonText s) : v.Same w := by
  obtain ⟨u, hread, hvu⟩ := parseJson?_of_hasJsonText hv hvs
  obtain ⟨u', hread', hwu⟩ := parseJson?_of_hasJsonText hw hws
  obtain rfl : u = u' := Option.some.inj (hread.symm.trans hread')
  exact normal_eq_iff.mp (hvu.normal_eq.trans hwu.normal_eq.symm)

end Value

/-! ## Keys -/

namespace Key

theorem normal_toValue (k : Key) : k.toValue.normal = k.toValue := by
  cases k <;> rfl

/-- Neither a map nor a floating-point number stands inside a key. -/
theorem inside_toValue {k : Key} {part : Value} (h : Value.Inside part k.toValue) :
    part = k.toValue := by
  cases k <;> cases h <;> rfl

theorem parseJson?_jsonText (k : Key) : Key.parseJson? k.jsonText = some k := by
  have hkeys : k.toValue.KeysOnce := fun bindings h => by
    cases k <;> cases inside_toValue h
  have hfloats : k.toValue.FloatsReadBack := fun x h => by
    cases k <;> cases inside_toValue h
  rw [parseJson?, jsonText, toJson, Value.toJson, normal_toValue,
    Json.parse?_render (Value.plain_writeJson _), Option.bind_some, ofJson?,
    Value.ofJson?_writeJson hkeys hfloats]
  simp only [ofValue_toValue]
  rfl

end Key

/-! ## Records -/

/-- A field is found wherever it stands. -/
theorem Fields.find?_of_perm {β : Type} {fields others : List (String × β)}
    (h : fields.Perm others) (name : String) : find? name fields = find? name others := by
  have hfilter : (fields.filter fun f => f.1 == name).Perm (others.filter fun f => f.1 == name) :=
    h.filter _
  rw [find?, find?]
  generalize fields.filter (fun f => f.1 == name) = found at hfilter
  generalize others.filter (fun f => f.1 == name) = found' at hfilter
  match found, hfilter with
  | [], hfilter => rw [hfilter.nil_eq]
  | [f], hfilter => rw [List.singleton_perm.mp hfilter]
  | f :: g :: more, hfilter =>
    have hlength := hfilter.length_eq
    match found', hlength with
    | f' :: g' :: more', _ => rfl

theorem Name.ofJson?_toJson {sort : NameSort} (n : Name sort) : ofJson? n.toJson = some n := by
  rw [ofJson?, toJson, Json.string?_ofString, Option.map_some]

theorem Name.plain_toJson {sort : NameSort} (n : Name sort) : n.toJson.Plain :=
  Json.plain_ofString n.text

namespace Record

/-- The named parts of a record. -/
def jsonFields (r : Record) : List (String × Json) := [
  (endField, .ofInt64 r.endNode),
  (relationshipField, match r.relationship with
    | some id => .ofInt64 id
    | none => .null),
  (typeField, r.edgeType.toJson),
  (startField, .ofInt64 r.startNode)]

/-- The text writes the record, its parts in some order. -/
def HasJsonText (r : Record) (s : String) : Prop :=
  ∃ fields : List (String × Json), fields.Perm r.jsonFields ∧ s = (Json.ofFields fields).render

theorem hasJsonText_jsonText (r : Record) : r.HasJsonText r.jsonText := ⟨r.jsonFields, .refl _, rfl⟩

theorem plain_jsonFields (r : Record) : ∀ f ∈ r.jsonFields, f.2.Plain := by
  have hrelationship : (match r.relationship with
      | some id => Json.ofInt64 id
      | none => Json.null).Plain := by
    cases r.relationship with
    | some id => exact Json.plain_ofInt64 id
    | none => exact .null
  simp only [jsonFields, List.forall_mem_cons]
  exact ⟨Json.plain_ofInt64 _, hrelationship, r.edgeType.plain_toJson, Json.plain_ofInt64 _,
    fun f hf => absurd hf List.not_mem_nil⟩

/-- A missing relationship and one that is there are told apart. -/
theorem orNull?_relationship (relationship : Option NativeId) :
    Json.orNull? Json.int64? (match relationship with
      | some id => .ofInt64 id
      | none => .null) = some relationship := by
  cases relationship with
  | some id =>
    have hread := Json.int64?_ofInt64 id
    rw [Json.ofInt64] at hread
    simp only [Json.ofInt64, Json.orNull?, hread, Option.map_some]
  | none => rfl

theorem ofFields?_jsonFields (r : Record) : ofFields? r.jsonFields = some r := by
  simp [ofFields?, Fields.readOr?, Fields.find?, jsonFields, startField, endField, typeField,
    relationshipField, Json.int64?_ofInt64, Name.ofJson?_toJson, orNull?_relationship]

theorem ofFields?_of_perm {fields others : List (String × Json)} (h : fields.Perm others) :
    ofFields? fields = ofFields? others := by
  simp only [ofFields?, Fields.readOr?, Fields.find?_of_perm h]

theorem parseJson?_of_hasJsonText {r : Record} {s : String} (h : r.HasJsonText s) :
    Record.parseJson? s = some r := by
  obtain ⟨fields, hperm, rfl⟩ := h
  have hplain : (Json.ofFields fields).Plain :=
    Json.plain_ofFields fun f hf => r.plain_jsonFields f (hperm.mem_iff.mp hf)
  rw [parseJson?, Json.parse?_render hplain, Option.bind_some, Json.ofFields, ofJson?,
    Json.namedMembers?_ofFields, Option.bind_some, ofFields?_of_perm hperm, ofFields?_jsonFields]

end Record

/-! ## Values, keys and records -/

/-- **JSON texts lose nothing.** Every text of an expressible value is read as what the value holds, and
the text that is written is one of them; keys and records are read back from their texts without
condition. So what has a text in common is the same. -/
theorem jsonText_reads_back :
    (∀ (v : Value) (s : String), v.Expressible → v.HasJsonText s →
      ∃ w, Value.parseJson? s = some w ∧ v.Same w) ∧
    (∀ v : Value, v.HasJsonText v.jsonText) ∧
    (∀ (v w : Value) (s : String), v.Expressible → w.Expressible → v.HasJsonText s →
      w.HasJsonText s → v.Same w) ∧
    (∀ k : Key, Key.parseJson? k.jsonText = some k) ∧
    (∀ k l : Key, k.jsonText = l.jsonText → k = l) ∧
    (∀ (r : Record) (s : String), r.HasJsonText s → Record.parseJson? s = some r) ∧
    (∀ r : Record, r.HasJsonText r.jsonText) ∧
    (∀ (r q : Record) (s : String), r.HasJsonText s → q.HasJsonText s → r = q) := by
  refine ⟨fun v s => Value.parseJson?_of_hasJsonText, Value.hasJsonText_jsonText,
    fun v w s => Value.same_of_hasJsonText, Key.parseJson?_jsonText, fun k l h => ?_,
    fun r s => Record.parseJson?_of_hasJsonText, Record.hasJsonText_jsonText, fun r q s hr hq => ?_⟩
  · have hread := Key.parseJson?_jsonText k
    rw [h, Key.parseJson?_jsonText l] at hread
    exact (Option.some.inj hread).symm
  · have hread := Record.parseJson?_of_hasJsonText hr
    rw [Record.parseJson?_of_hasJsonText hq] at hread
    exact (Option.some.inj hread).symm

/-- What a JSON text has to take care of: marks to be escaped, a negative zero, the least whole number,
and a map inside a list inside a map. -/
def remarks : Value :=
  .map [
    ("say \"\\\n\x01", .array [.float ⟨0x8000000000000000⟩, .integer Int64.minValue, .dateTime 1]),
    ("", .array [.map [("half", .float ⟨0x3FE0000000000000⟩)], .null, .string "é\t", .boolean true])]

theorem float_inside_remarks {x : Binary64} (h : Value.Inside (.float x) remarks) :
    x = ⟨0x8000000000000000⟩ ∨ x = ⟨0x3FE0000000000000⟩ := by
  cases h with
  | @binding _ k v hv h =>
    have hbound := mem_of_lookup hv
    simp only [List.mem_cons, Prod.mk.injEq, List.not_mem_nil, or_false] at hbound
    rcases hbound with ⟨-, rfl⟩ | ⟨-, rfl⟩
    · cases h with
      | item hv h =>
        simp only [List.mem_cons, List.not_mem_nil, or_false] at hv
        rcases hv with rfl | rfl | rfl <;> cases h
        exact .inl rfl
    · cases h with
      | item hv h =>
        simp only [List.mem_cons, List.not_mem_nil, or_false] at hv
        rcases hv with rfl | hv
        · cases h with
          | binding hv h =>
            have hbound := mem_of_lookup hv
            simp only [List.mem_singleton, Prod.mk.injEq] at hbound
            obtain ⟨-, rfl⟩ := hbound
            cases h
            exact .inr rfl
        · rcases hv with rfl | rfl | rfl <;> cases h

theorem expressible_remarks : remarks.Expressible := by
  have hzero : (⟨0x8000000000000000⟩ : Binary64).ReadsBack := by
    unfold Binary64.ReadsBack
    decide +kernel
  have hhalf : (⟨0x3FE0000000000000⟩ : Binary64).ReadsBack := by
    unfold Binary64.ReadsBack
    decide +kernel
  refine ⟨fun x hx => ?_, fun x hx _ => ?_, by decide +kernel⟩
  · rcases float_inside_remarks hx with rfl | rfl <;> decide
  · rcases float_inside_remarks hx with rfl | rfl
    · exact hzero
    · exact hhalf

theorem remarks_read_back :
    remarks.Expressible ∧ ∃ w, Value.parseJson? remarks.jsonText = some w ∧ remarks.Same w := by
  obtain ⟨hreads, hwritten, -⟩ := jsonText_reads_back
  exact ⟨expressible_remarks, hreads remarks _ expressible_remarks (hwritten remarks)⟩

end ObjectGraph
