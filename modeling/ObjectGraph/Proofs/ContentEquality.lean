import ObjectGraph.Proofs.ContentBytes
import Mathlib.Data.List.Sort

/-!
# Which contents have the same bytes

Two values hold the same (`Value.Same`) when they are of one form and hold the same thing in it: the
same text, number, truth value or moment, floating-point numbers bit by bit, lists item by item, and
maps key by key, in whatever order their bindings stand. That is what the normal form decides
(`Value.normal_eq_iff`).

So the bytes of a content are read in terms of what an entity holds (`Entity.Alike`), without a word on
how it is written down: entities that are alike have the same bytes, and those with the same bytes are
alike if a word can hold their lengths and sizes. The order of a table or of a map does not show in the
bytes, and the id of the entity itself shows only where the entity refers to itself
(`Entity.contentBytes_faithful`).
-/

set_option autoImplicit false

namespace ObjectGraph

/-- What is made of two optional things is the same as soon as both are there or neither is, and the
same is made of the two if they are there. -/
theorem optionMap_eq_iff {α β γ : Type} {f : α → γ} {g : β → γ} {a : Option α} {b : Option β} :
    a.map f = b.map g ↔ a.isSome = b.isSome ∧ ∀ x y, a = some x → b = some y → f x = g y := by
  cases a <;> cases b <;> simp

/-- What is looked up is on the list. -/
theorem mem_of_lookup {β : Type} {k : String} {b : β} {l : List (String × β)}
    (h : l.lookup k = some b) : (k, b) ∈ l := by
  obtain ⟨before, after, rfl, -⟩ := List.lookup_eq_some_iff.mp h
  exact List.mem_append_right _ List.mem_cons_self

/-- Sets with the same members are the same. -/
theorem NameSet.ext_mem {sort : NameSort} {s t : NameSet sort} (h : ∀ n, n ∈ s ↔ n ∈ t) : s = t := by
  have : Std.Irrefl fun a b : Name sort => a < b := ⟨Name.lt_irrefl⟩
  have : Std.Antisymm fun a b : Name sort => a < b :=
    ⟨fun a _ hab hba => absurd (Name.lt_trans hab hba) (Name.lt_irrefl a)⟩
  have hlist : s.toList = t.toList := s.ascending.eq_of_mem_iff t.ascending h
  cases s
  cases t
  cases hlist
  rfl

/-! ## Values -/

namespace Value

/-- The two values hold the same. -/
inductive Same : Value → Value → Prop
  | string (s : String) : Same (.string s) (.string s)
  | integer (i : Int64) : Same (.integer i) (.integer i)
  | float {x y : Binary64} (hbits : x.bits = y.bits) : Same (.float x) (.float y)
  | boolean (b : Bool) : Same (.boolean b) (.boolean b)
  | dateTime (millis : Int64) : Same (.dateTime millis) (.dateTime millis)
  | array {items others : List Value} (hlength : items.length = others.length)
      (hitems : ∀ (i : Nat) v w, items[i]? = some v → others[i]? = some w → Same v w) :
      Same (.array items) (.array others)
  | map {bindings others : List (String × Value)}
      (hkeys : ∀ k, (bindings.lookup k).isSome = (others.lookup k).isSome)
      (hvalues : ∀ k v w, bindings.lookup k = some v → others.lookup k = some w → Same v w) :
      Same (.map bindings) (.map others)
  | null : Same .null .null

/-- What holds the same has one normal form. -/
theorem Same.normal_eq {v w : Value} (h : v.Same w) : v.normal = w.normal := by
  induction h with
  | string | integer | boolean | dateTime | null => rfl
  | @float x y hbits =>
    cases x
    cases y
    cases hbits
    rfl
  | @array items others hlength _ ih =>
    rw [normal, normal, normalItems_eq_map, normalItems_eq_map]
    refine congrArg _ (List.ext_getElem (by simpa using hlength) fun i hi hj => ?_)
    rw [List.length_map] at hi hj
    rw [List.getElem_map, List.getElem_map]
    exact ih i _ _ (List.getElem?_eq_getElem hi) (List.getElem?_eq_getElem hj)
  | @map bindings others hkeys _ ih =>
    rw [normal, normal]
    refine congrArg _ ((ascending_normalBindings _).ext (ascending_normalBindings _) fun k => ?_)
    rw [lookup_normalBindings, lookup_normalBindings]
    exact optionMap_eq_iff.mpr ⟨hkeys k, ih k⟩

/-- What has one normal form holds the same. -/
theorem same_of_normal_eq (v : Value) : ∀ w : Value, v.normal = w.normal → v.Same w := by
  induction v with
  | string s =>
    intro w h
    cases w <;> cases h
    exact .string s
  | integer i =>
    intro w h
    cases w <;> cases h
    exact .integer i
  | float x =>
    intro w h
    cases w <;> cases h
    exact .float rfl
  | boolean b =>
    intro w h
    cases w <;> cases h
    exact .boolean b
  | dateTime m =>
    intro w h
    cases w <;> cases h
    exact .dateTime m
  | array items ih =>
    intro w h
    cases w with
    | array others =>
      rw [normal, normal, array.injEq, normalItems_eq_map, normalItems_eq_map] at h
      have hlength := congrArg List.length h
      rw [List.length_map, List.length_map] at hlength
      refine .array hlength fun i v w hv hw => ih v (List.mem_of_getElem? hv) w ?_
      have hi := congrArg (fun l : List Value => l[i]?) h
      simpa only [List.getElem?_map, hv, hw, Option.map_some, Option.some.injEq] using hi
    | _ => cases h
  | map bindings ih =>
    intro w h
    cases w with
    | map others =>
      rw [normal, normal, map.injEq] at h
      have hlookup : ∀ k, (bindings.lookup k).map normal = (others.lookup k).map normal := fun k => by
        rw [← lookup_normalBindings, ← lookup_normalBindings, h]
      refine .map (fun k => (optionMap_eq_iff.mp (hlookup k)).1) fun k v w hv hw => ?_
      exact ih (k, v) (mem_of_lookup hv) w ((optionMap_eq_iff.mp (hlookup k)).2 v w hv hw)
    | _ => cases h
  | null =>
    intro w h
    cases w <;> cases h
    exact .null

/-- The normal form decides what a value holds. -/
theorem normal_eq_iff {v w : Value} : v.normal = w.normal ↔ v.Same w :=
  ⟨same_of_normal_eq v w, Same.normal_eq⟩

theorem Same.refl (v : Value) : v.Same v := normal_eq_iff.mp rfl

end Value

/-- The order of bindings for different keys means nothing to a lookup. -/
theorem lookup_eq_of_perm {β : Type} {l m : List (String × β)}
    (hdistinct : l.Pairwise fun a b => a.1 ≠ b.1) (h : l.Perm m) (k : String) :
    l.lookup k = m.lookup k := by
  have hdistinct' : m.Pairwise fun a b => a.1 ≠ b.1 := h.pairwise hdistinct fun hne => hne.symm
  refine Option.ext fun b => ?_
  rw [Table.lookup_eq_some_iff hdistinct, Table.lookup_eq_some_iff hdistinct', h.mem_iff]

/-- Nor to the map. -/
theorem Value.same_of_perm {bindings others : List (String × Value)}
    (hdistinct : bindings.Pairwise fun a b => a.1 ≠ b.1) (h : bindings.Perm others) :
    (Value.map bindings).Same (.map others) := by
  have hlookup := lookup_eq_of_perm hdistinct h
  refine .map (fun k => by rw [hlookup]) fun k v w hv hw => ?_
  obtain rfl : v = w := Option.some.inj (hv.symm.trans ((hlookup k).trans hw))
  exact .refl v

/-! ## Entities -/

namespace Entity

/-- The two entities, each as it is in its heap, hold the same: they are of one type and wear the same
labels, each key has the same value with both, and each field leads to targets of the same id. -/
structure Alike (m : Heap) (e : Entity) (n : Heap) (f : Entity) : Prop where
  typeName : e.typeName = f.typeName
  labels : ∀ l, l ∈ e.labels ↔ l ∈ f.labels
  keys : ∀ key, e.properties.contains key = f.properties.contains key
  values : ∀ key v w, e.properties.get? key = some v → f.properties.get? key = some w → v.Same w
  fields : ∀ field, e.references.contains field = f.references.contains field
  targets : ∀ field h k, e.references.get? field = some h → f.references.get? field = some k →
    (m.get h).id = (n.get k).id

variable {m n : Heap} {e f : Entity}

/-- Those that hold the same have the same content. -/
theorem alike_iff : Alike m e n f ↔ SameContent m e n f := by
  constructor
  · intro h
    refine ⟨h.typeName, NameSet.ext_mem h.labels, ?_, ?_⟩
    · intro key
      apply optionMap_eq_iff.mpr
      exact ⟨h.keys key, fun v w hv hw => (h.values key v w hv hw).normal_eq⟩
    · intro field
      exact optionMap_eq_iff.mpr ⟨h.fields field, h.targets field⟩
  · intro h
    have hproperty := fun key => optionMap_eq_iff.mp (h.properties key)
    have hreference := fun field => optionMap_eq_iff.mp (h.references field)
    refine ⟨h.typeName, fun l => by rw [h.labels], fun key => (hproperty key).1, ?_,
      fun field => (hreference field).1, fun field => (hreference field).2⟩
    intro key v w hv hw
    exact Value.normal_eq_iff.mp ((hproperty key).2 v w hv hw)

/-- The order of properties and of references means nothing. -/
theorem alike_of_perm (htype : e.typeName = f.typeName) (hlabels : e.labels = f.labels)
    (hproperties : e.properties.entries.Perm f.properties.entries)
    (hreferences : e.references.entries.Perm f.references.entries) : Alike m e m f := by
  have hvalue : ∀ key, e.properties.get? key = f.properties.get? key :=
    lookup_eq_of_perm e.properties.distinct hproperties
  have htarget : ∀ field, e.references.get? field = f.references.get? field :=
    lookup_eq_of_perm e.references.distinct hreferences
  refine alike_iff.mpr ⟨htype, hlabels, fun key => ?_, fun field => ?_⟩
  · rw [hvalue]
  · rw [htarget]

/-! ## The id of the entity itself -/

theorem get_modify_withId {h : Handle} (ha : m.Allocated h) (id : Option NativeId) :
    (m.modify h (withId · id)).get h = (m.get h).withId id := Heap.get_modify_self ha _

/-- An entity that does not refer to itself looks the same under another id. -/
theorem alike_withId {h : Handle} (ha : m.Allocated h) (id : Option NativeId)
    (hself : ∀ field, (m.get h).references.get? field ≠ some h) :
    Alike (m.modify h (withId · id)) ((m.modify h (withId · id)).get h) m (m.get h) := by
  rw [get_modify_withId ha]
  refine alike_iff.mpr ⟨rfl, rfl, fun _ => rfl, fun field => ?_⟩
  show ((m.get h).references.get? field).map _ = ((m.get h).references.get? field).map _
  refine optionMap_eq_iff.mpr ⟨rfl, fun k k' hk hk' => ?_⟩
  obtain rfl : k = k' := Option.some.inj (hk.symm.trans hk')
  have hne : k ≠ h := fun heq => hself field (heq ▸ hk)
  rw [Heap.get_modify_of_ne hne]

/-- One that refers to itself does not. -/
theorem not_alike_withId {h : Handle} (ha : m.Allocated h) {id : Option NativeId}
    (hid : id ≠ (m.get h).id) {field : String} (hself : (m.get h).references.get? field = some h) :
    ¬ Alike (m.modify h (withId · id)) ((m.modify h (withId · id)).get h) m (m.get h) := by
  intro halike
  rw [get_modify_withId ha] at halike
  have htarget : ((m.modify h (withId · id)).get h).id = (m.get h).id :=
    halike.targets field h h hself hself
  rw [get_modify_withId ha] at htarget
  exact hid htarget

/-- No length and no size depends on the id. -/
theorem Short.withId (he : e.Short) (id : Option NativeId) : (e.withId id).Short :=
  ⟨he.typeName, he.labelCount, he.labels, he.propertyCount, he.properties, he.referenceCount,
    he.references⟩

/-! ## The bytes -/

theorem Alike.contentBytes_eq (h : Alike m e n f) : e.contentBytes m = f.contentBytes n :=
  (alike_iff.mp h).contentBytes_eq

theorem contentBytes_eq_iff_alike (he : e.Short) (hf : f.Short) :
    e.contentBytes m = f.contentBytes n ↔ Alike m e n f := by
  rw [alike_iff, contentBytes_eq_iff he hf]

theorem contentBytes_withId_ne {h : Handle} (ha : m.Allocated h) {id : Option NativeId}
    (hshort : (m.get h).Short) (hid : id ≠ (m.get h).id) {field : String}
    (hself : (m.get h).references.get? field = some h) :
    ((m.modify h (withId · id)).get h).contentBytes (m.modify h (withId · id)) ≠
      (m.get h).contentBytes m := by
  have hrenamed : ((m.modify h (withId · id)).get h).Short := by
    rw [get_modify_withId ha]
    exact hshort.withId id
  intro hbytes
  exact not_alike_withId ha hid hself ((contentBytes_eq_iff_alike hrenamed hshort).mp hbytes)

/-- **The bytes of a content say what an entity holds, and nothing else.** Of entities whose texts and
collections have lengths that a word can hold, two have the same bytes exactly when they hold the same.
No order shows: what holds the same has the same bytes, however long it is; so have entities that
differ in the order of their properties and references, and maps hold the same whatever the order of
their bindings. And the id of an entity makes no difference to its own bytes, unless it refers to
itself; then it does. -/
theorem contentBytes_faithful :
    (∀ (m n : Heap) (e f : Entity), e.Short → f.Short →
      (e.contentBytes m = f.contentBytes n ↔ Alike m e n f)) ∧
    ((∀ (m n : Heap) (e f : Entity), Alike m e n f → e.contentBytes m = f.contentBytes n) ∧
      (∀ (m : Heap) (e f : Entity), e.typeName = f.typeName → e.labels = f.labels →
        e.properties.entries.Perm f.properties.entries →
        e.references.entries.Perm f.references.entries → e.contentBytes m = f.contentBytes m) ∧
      ∀ bindings others : List (String × Value), (bindings.Pairwise fun a b => a.1 ≠ b.1) →
        bindings.Perm others → (Value.map bindings).Same (.map others)) ∧
    ∀ (m : Heap) (h : Handle) (id : Option NativeId), m.Allocated h →
      let renamed := m.modify h (withId · id)
      ((∀ field, (m.get h).references.get? field ≠ some h) →
        (renamed.get h).contentBytes renamed = (m.get h).contentBytes m) ∧
      ((m.get h).Short → id ≠ (m.get h).id →
        (∃ field, (m.get h).references.get? field = some h) →
        (renamed.get h).contentBytes renamed ≠ (m.get h).contentBytes m) := by
  refine ⟨?_, ⟨?_, ?_, ?_⟩, ?_⟩
  · intro m n e f he hf
    exact contentBytes_eq_iff_alike he hf
  · intro m n e f halike
    exact halike.contentBytes_eq
  · intro m e f htype hlabels hproperties hreferences
    exact (alike_of_perm htype hlabels hproperties hreferences).contentBytes_eq
  · intro bindings others hdistinct hperm
    exact Value.same_of_perm hdistinct hperm
  · intro m h id ha
    constructor
    · intro hself
      exact (alike_withId ha id hself).contentBytes_eq
    · rintro hshort hid ⟨field, hself⟩
      exact contentBytes_withId_ne ha hshort hid hself

/-- A document with something in it, which is its own successor if it is the first of the heap. -/
def document (v : Value) : Entity where
  typeName := ⟨"Document"⟩
  properties := Table.empty.insert "content" v
  references := Table.empty.insert "next" ⟨0⟩

/-- The heap of one document. -/
def soleDocument : Heap := ⟨#[document .null]⟩

/-- A number and the moment of as many milliseconds are told apart, and so are the two zeros; the order
of bindings is not seen; and a document that is its own successor shows its id. -/
theorem contentBytes_documents :
    (document (.integer 0)).contentBytes .empty ≠ (document (.dateTime 0)).contentBytes .empty ∧
    (document (.float ⟨0⟩)).contentBytes .empty ≠
      (document (.float ⟨0x8000000000000000⟩)).contentBytes .empty ∧
    (Value.map [("a", .null), ("b", .integer 1)]).Same (.map [("b", .integer 1), ("a", .null)]) ∧
    let numbered := soleDocument.modify ⟨0⟩ (withId · (some 1))
    (numbered.get ⟨0⟩).contentBytes numbered ≠ (soleDocument.get ⟨0⟩).contentBytes soleDocument := by
  obtain ⟨hiff, ⟨-, -, hperm⟩, hself⟩ := contentBytes_faithful
  have hcontent : ∀ v w, (document v).Short → (document w).Short → ¬ v.Same w →
      (document v).contentBytes .empty ≠ (document w).contentBytes .empty := by
    intro v w hv hw hne hbytes
    exact hne (((hiff .empty .empty _ _ hv hw).mp hbytes).values "content" v w rfl rfl)
  refine ⟨hcontent _ _ (by decide +kernel) (by decide +kernel) (by rintro ⟨⟩),
    hcontent _ _ (by decide +kernel) (by decide +kernel) ?_,
    hperm _ _ (by decide) (List.Perm.swap _ _ _), ?_⟩
  · rintro ⟨⟩
    rename_i hbits
    exact absurd hbits (by decide)
  · exact (hself soleDocument ⟨0⟩ (some 1) Nat.zero_lt_one).2 (by decide +kernel) (by decide)
      ⟨"next", rfl⟩

end Entity

end ObjectGraph
