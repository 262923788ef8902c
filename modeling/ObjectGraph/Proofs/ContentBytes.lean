import Mathlib.Algebra.Group.Nat.Defs
import ObjectGraph.Digest.Content

/-!
# The content of an entity and its bytes

Two entities have the same content (`Entity.SameContent`) when they are of one type, wear the same
labels, hold the same values under the same keys, and refer by the same fields to targets with the
same ids. Which objects the targets are, and the entity's own id, are not part of it.

The bytes of a content say neither more nor less than that (`Entity.contentBytes_eq_iff`). Each piece
of it is self-delimiting: where two byte strings begin with such a piece, the pieces are the same and
so is what follows. That takes lengths and sizes which a word can hold (`Entity.Short`), since longer
ones are cut off.
-/

set_option autoImplicit false

namespace ObjectGraph

/-! ## Sizes -/

/-- A word can hold the length or size. -/
def FitsWord (n : Nat) : Prop := n < 2 ^ 64

instance (n : Nat) : Decidable (FitsWord n) := inferInstanceAs (Decidable (n < 2 ^ 64))

/-- The length of the text fits. -/
def ShortText (s : String) : Prop := FitsWord s.utf8ByteSize

instance (s : String) : Decidable (ShortText s) := inferInstanceAs (Decidable (FitsWord _))

mutual
/-- All lengths and sizes in the value fit. -/
def Value.Short : Value → Prop
  | .string s => ShortText s
  | .array items => FitsWord items.length ∧ Value.ShortItems items
  | .map bindings => FitsWord bindings.length ∧ Value.ShortBindings bindings
  | _ => True
/-- So do those in each item. -/
def Value.ShortItems : List Value → Prop
  | [] => True
  | v :: rest => v.Short ∧ Value.ShortItems rest
/-- So do those in each binding. -/
def Value.ShortBindings : List (String × Value) → Prop
  | [] => True
  | (k, v) :: rest => ShortText k ∧ v.Short ∧ Value.ShortBindings rest
end

mutual
/-- Shortness is a finite check. -/
def Value.decideShort : ∀ v : Value, Decidable v.Short
  | .string s => inferInstanceAs (Decidable (ShortText s))
  | .array items =>
    have := Value.decideShortItems items
    inferInstanceAs (Decidable (FitsWord items.length ∧ Value.ShortItems items))
  | .map bindings =>
    have := Value.decideShortBindings bindings
    inferInstanceAs (Decidable (FitsWord bindings.length ∧ Value.ShortBindings bindings))
  | .integer _ | .float _ | .boolean _ | .dateTime _ | .null => .isTrue trivial
def Value.decideShortItems : ∀ items : List Value, Decidable (Value.ShortItems items)
  | [] => .isTrue trivial
  | v :: rest =>
    have := v.decideShort
    have := Value.decideShortItems rest
    inferInstanceAs (Decidable (v.Short ∧ Value.ShortItems rest))
def Value.decideShortBindings :
    ∀ bindings : List (String × Value), Decidable (Value.ShortBindings bindings)
  | [] => .isTrue trivial
  | (k, v) :: rest =>
    have := v.decideShort
    have := Value.decideShortBindings rest
    inferInstanceAs (Decidable (ShortText k ∧ v.Short ∧ Value.ShortBindings rest))
end

instance (v : Value) : Decidable v.Short := v.decideShort

/-- All lengths and sizes in the entity fit. -/
structure Entity.Short (e : Entity) : Prop where
  typeName : ShortText e.typeName.text
  labelCount : FitsWord e.labels.size
  labels : ∀ l ∈ e.labels, ShortText l.text
  propertyCount : FitsWord e.properties.size
  properties : ∀ b ∈ e.properties.entries, ShortText b.1 ∧ b.2.Short
  referenceCount : FitsWord e.references.size
  references : ∀ b ∈ e.references.entries, ShortText b.1

theorem Entity.short_iff {e : Entity} :
    e.Short ↔ ShortText e.typeName.text ∧ FitsWord e.labels.size ∧
      (∀ l ∈ e.labels.toList, ShortText l.text) ∧ FitsWord e.properties.size ∧
      (∀ b ∈ e.properties.entries, ShortText b.1 ∧ b.2.Short) ∧ FitsWord e.references.size ∧
      ∀ b ∈ e.references.entries, ShortText b.1 :=
  ⟨fun ⟨htype, hcount, hlabels, hsize, hproperties, hfields, hreferences⟩ =>
    ⟨htype, hcount, hlabels, hsize, hproperties, hfields, hreferences⟩,
    fun ⟨htype, hcount, hlabels, hsize, hproperties, hfields, hreferences⟩ =>
      ⟨htype, hcount, hlabels, hsize, hproperties, hfields, hreferences⟩⟩

instance (e : Entity) : Decidable e.Short := decidable_of_iff _ Entity.short_iff.symm

/-! ## Contents -/

/-- The two entities, each as it is in its heap, have the same content. -/
structure Entity.SameContent (m : Heap) (e : Entity) (n : Heap) (f : Entity) : Prop where
  typeName : e.typeName = f.typeName
  labels : e.labels = f.labels
  properties : ∀ key,
    (e.properties.get? key).map Value.normal = (f.properties.get? key).map Value.normal
  references : ∀ field,
    (e.references.get? field).map (fun h => (m.get h).id) =
      (f.references.get? field).map fun h => (n.get h).id

namespace Content

/-! ## Self-delimiting pieces -/

section Delimits

variable {α β : Type} {valid : α → Prop} {valid' : β → Prop} {code : α → List UInt8}
  {code' : β → List UInt8}

/-- Where two byte strings begin with codes, the first of them that of `a`, both are codes of `a`, and
what follows them is the same. -/
def Delimits (valid : α → Prop) (code : α → List UInt8) (a : α) : Prop :=
  ∀ b, valid b → ∀ xs ys, code a ++ xs = code b ++ ys → a = b ∧ xs = ys

/-- One code after the other. -/
theorem Delimits.pair {a : α} {a' : β} (hc : Delimits valid code a)
    (hc' : Delimits valid' code' a') :
    Delimits (fun p : α × β => valid p.1 ∧ valid' p.2) (fun p => code p.1 ++ code' p.2) (a, a') := by
  rintro ⟨b, b'⟩ hb xs ys h
  simp only [List.append_assoc] at h
  obtain ⟨rfl, hsecond⟩ := hc b hb.1 _ _ h
  obtain ⟨rfl, hrest⟩ := hc' b' hb.2 _ _ hsecond
  exact ⟨rfl, hrest⟩

/-- The codes of as many things, one after the other. -/
theorem Delimits.many {l m : List α} (hc : ∀ a ∈ l, Delimits valid code a)
    (hlength : l.length = m.length) (hm : ∀ a ∈ m, valid a) {xs ys : List UInt8}
    (h : l.flatMap code ++ xs = m.flatMap code ++ ys) : l = m ∧ xs = ys := by
  induction l generalizing m with
  | nil =>
    cases m with
    | nil => exact ⟨rfl, h⟩
    | cons b m => cases hlength
  | cons a l ih =>
    cases m with
    | nil => cases hlength
    | cons b m =>
      simp only [List.flatMap_cons, List.append_assoc] at h
      obtain ⟨rfl, htail⟩ := hc a List.mem_cons_self b (hm b List.mem_cons_self) _ _ h
      obtain ⟨rfl, hrest⟩ := ih (fun x hx => hc x (List.mem_cons_of_mem _ hx))
        (Nat.succ.inj hlength) (fun x hx => hm x (List.mem_cons_of_mem _ hx)) htail
      exact ⟨rfl, hrest⟩

end Delimits

theorem wordBytes_injective {v w : UInt64} (h : wordBytes v = wordBytes w) : v = w := by
  simp only [wordBytes, List.cons.injEq, and_true, ← UInt8.toNat_inj, UInt64.toNat_toUInt8,
    UInt64.toNat_shiftRight, Nat.shiftRight_eq_div_pow, UInt64.reduceToNat, Nat.reduceMod,
    Nat.reducePow] at h
  have hv := v.toNat_lt
  have hw := w.toNat_lt
  -- the eight bytes are the digits in base 256
  rw [← UInt64.toNat_inj]
  omega

theorem delimits_wordBytes (w : UInt64) : Delimits (fun _ => True) wordBytes w := by
  intro v _ xs ys h
  obtain ⟨hcode, hrest⟩ := List.append_inj h rfl
  exact ⟨wordBytes_injective hcode, hrest⟩

theorem delimits_int64 (i : Int64) : Delimits (fun _ => True) (fun i : Int64 => wordBytes i.toUInt64) i := by
  intro j _ xs ys h
  obtain ⟨hword, hrest⟩ := delimits_wordBytes _ _ trivial xs ys h
  have hint := congrArg UInt64.toInt64 hword
  rw [Int64.toInt64_toUInt64, Int64.toInt64_toUInt64] at hint
  exact ⟨hint, hrest⟩

theorem delimits_countBytes {n : Nat} (hn : FitsWord n) : Delimits FitsWord countBytes n := by
  intro k hk xs ys h
  obtain ⟨hword, hrest⟩ := delimits_wordBytes _ _ trivial xs ys h
  have hnat := congrArg UInt64.toNat hword
  rw [UInt64.toNat_ofNat_of_lt' hn, UInt64.toNat_ofNat_of_lt' hk] at hnat
  exact ⟨hnat, hrest⟩

theorem delimits_textBytes {s : String} (hs : ShortText s) : Delimits ShortText textBytes s := by
  intro t ht xs ys h
  simp only [textBytes, List.append_assoc] at h
  obtain ⟨hsize, htail⟩ := delimits_countBytes hs _ ht _ _ h
  obtain ⟨hbytes, hrest⟩ := List.append_inj htail hsize
  exact ⟨String.toByteArray_inj.mp (ByteArray.ext (Array.toList_inj.mp hbytes)), hrest⟩

theorem delimits_idBytes (id : Option NativeId) : Delimits (fun _ => True) idBytes id := by
  intro id' _ xs ys h
  cases id with
  | none =>
    cases id' with
    | none => exact ⟨rfl, (List.cons.inj h).2⟩
    | some j => exact absurd (List.cons.inj h).1 (by decide)
  | some i =>
    cases id' with
    | none => exact absurd (List.cons.inj h).1 (by decide)
    | some j =>
      obtain ⟨rfl, hrest⟩ := delimits_int64 i j trivial _ _ (List.cons.inj h).2
      exact ⟨rfl, hrest⟩

/-- A list behind its length. -/
theorem Delimits.counted {α : Type} {valid : α → Prop} {code : α → List UInt8} {l : List α}
    (hc : ∀ a ∈ l, Delimits valid code a) (hl : FitsWord l.length) :
    Delimits (fun l : List α => FitsWord l.length ∧ ∀ a ∈ l, valid a)
      (fun l => countBytes l.length ++ l.flatMap code) l := by
  intro m hm xs ys h
  simp only [List.append_assoc] at h
  obtain ⟨hlength, htail⟩ := delimits_countBytes hl _ hm.1 _ _ h
  exact Delimits.many hc hlength hm.2 htail

/-! ## Values -/

theorem itemsBytes_eq_flatMap (items : List Value) : itemsBytes items = items.flatMap valueBytes := by
  induction items with
  | nil => rfl
  | cons v rest ih => rw [itemsBytes, ih, List.flatMap_cons]

/-- A binding: the key and the value. -/
def bindingBytes (b : String × Value) : List UInt8 := textBytes b.1 ++ valueBytes b.2

theorem bindingsBytes_eq_flatMap (bindings : List (String × Value)) :
    bindingsBytes bindings = bindings.flatMap bindingBytes := by
  induction bindings with
  | nil => rfl
  | cons b rest ih =>
    obtain ⟨k, v⟩ := b
    rw [bindingsBytes, ih, List.flatMap_cons, bindingBytes, List.append_assoc]

theorem shortItems_iff {items : List Value} : Value.ShortItems items ↔ ∀ v ∈ items, v.Short := by
  induction items with
  | nil => exact ⟨fun _ _ hv => absurd hv List.not_mem_nil, fun _ => trivial⟩
  | cons v rest ih => rw [Value.ShortItems, ih, List.forall_mem_cons]

/-- The key and the value of the binding are short. -/
def ShortBinding (b : String × Value) : Prop := ShortText b.1 ∧ b.2.Short

theorem shortBindings_iff {bindings : List (String × Value)} :
    Value.ShortBindings bindings ↔ ∀ b ∈ bindings, ShortBinding b := by
  induction bindings with
  | nil => exact ⟨fun _ _ hb => absurd hb List.not_mem_nil, fun _ => trivial⟩
  | cons b rest ih =>
    obtain ⟨k, v⟩ := b
    rw [Value.ShortBindings, ih, List.forall_mem_cons, ShortBinding, and_assoc]

theorem delimits_valueBytes (v : Value) : v.Short → Delimits Value.Short valueBytes v := by
  induction v with
  | string s =>
    intro hs w hw xs ys h
    cases w with
    | string t =>
      obtain ⟨rfl, hrest⟩ := delimits_textBytes hs t hw xs ys (List.cons.inj h).2
      exact ⟨rfl, hrest⟩
    | _ => exact absurd (List.cons.inj h).1 (by decide)
  | integer i =>
    intro _ w hw xs ys h
    cases w with
    | integer j =>
      obtain ⟨rfl, hrest⟩ := delimits_int64 i j trivial xs ys (List.cons.inj h).2
      exact ⟨rfl, hrest⟩
    | _ => exact absurd (List.cons.inj h).1 (by decide)
  | float x =>
    intro _ w hw xs ys h
    cases w with
    | float y =>
      obtain ⟨hbits, hrest⟩ := delimits_wordBytes x.bits y.bits trivial xs ys (List.cons.inj h).2
      exact ⟨congrArg (fun b => Value.float ⟨b⟩) hbits, hrest⟩
    | _ => exact absurd (List.cons.inj h).1 (by decide)
  | boolean b =>
    intro _ w hw xs ys h
    cases w with
    | boolean c =>
      obtain ⟨hbit, hrest⟩ := List.cons.inj (List.cons.inj h).2
      refine ⟨congrArg _ ?_, hrest⟩
      cases b <;> cases c <;> first | rfl | exact absurd hbit (by decide)
    | _ => exact absurd (List.cons.inj h).1 (by decide)
  | dateTime m =>
    intro _ w hw xs ys h
    cases w with
    | dateTime n =>
      obtain ⟨rfl, hrest⟩ := delimits_int64 m n trivial xs ys (List.cons.inj h).2
      exact ⟨rfl, hrest⟩
    | _ => exact absurd (List.cons.inj h).1 (by decide)
  | array items ih =>
    intro hs w hw xs ys h
    have hitems : ∀ v ∈ items, Delimits Value.Short valueBytes v := fun v hv =>
      ih v hv (shortItems_iff.mp hs.2 v hv)
    cases w with
    | array others =>
      have htail := (List.cons.inj h).2
      rw [itemsBytes_eq_flatMap, itemsBytes_eq_flatMap] at htail
      obtain ⟨rfl, hrest⟩ := Delimits.counted hitems hs.1 others ⟨hw.1, shortItems_iff.mp hw.2⟩ xs ys
        htail
      exact ⟨rfl, hrest⟩
    | _ => exact absurd (List.cons.inj h).1 (by decide)
  | map bindings ih =>
    intro hs w hw xs ys h
    have hshort := shortBindings_iff.mp hs.2
    have hbindings : ∀ b ∈ bindings, Delimits ShortBinding bindingBytes b := fun b hb =>
      (delimits_textBytes (hshort b hb).1).pair (ih b hb (hshort b hb).2)
    cases w with
    | map others =>
      have htail := (List.cons.inj h).2
      rw [bindingsBytes_eq_flatMap, bindingsBytes_eq_flatMap] at htail
      obtain ⟨rfl, hrest⟩ := Delimits.counted hbindings hs.1 others
        ⟨hw.1, shortBindings_iff.mp hw.2⟩ xs ys htail
      exact ⟨rfl, hrest⟩
    | _ => exact absurd (List.cons.inj h).1 (by decide)
  | null =>
    intro _ w hw xs ys h
    cases w with
    | null => exact ⟨rfl, (List.cons.inj h).2⟩
    | _ => exact absurd (List.cons.inj h).1 (by decide)

theorem delimits_bindingBytes {b : String × Value} (hb : ShortBinding b) :
    Delimits ShortBinding bindingBytes b :=
  (delimits_textBytes hb.1).pair (delimits_valueBytes b.2 hb.2)

theorem length_normalBindings_le (bindings : List (String × Value)) :
    (Value.normalBindings bindings).length ≤ bindings.length := by
  have hle := KeyOrder.length_sorted_le (bindings.map fun e => (e.1, e.2.normal))
  rwa [← Value.normalBindings_eq_sorted, List.length_map] at hle

theorem mem_normalBindings {bindings : List (String × Value)} {b : String × Value}
    (h : b ∈ Value.normalBindings bindings) : ∃ d ∈ bindings, b = (d.1, d.2.normal) := by
  rw [Value.normalBindings_eq_sorted] at h
  obtain ⟨d, hd, hdb⟩ := List.mem_map.mp (KeyOrder.mem_of_mem_sorted h)
  exact ⟨d, hd, hdb.symm⟩

/-- The normal form hides bindings and adds none. -/
theorem short_normal (v : Value) : v.Short → v.normal.Short := by
  induction v with
  | string | integer | float | boolean | dateTime | null => exact id
  | array items ih =>
    rintro ⟨hlength, hitems⟩
    rw [Value.normal, Value.normalItems_eq_map]
    refine ⟨by rwa [List.length_map], shortItems_iff.mpr fun v hv => ?_⟩
    obtain ⟨w, hw, rfl⟩ := List.mem_map.mp hv
    exact ih w hw (shortItems_iff.mp hitems w hw)
  | map bindings ih =>
    rintro ⟨hlength, hbindings⟩
    refine ⟨Nat.lt_of_le_of_lt (length_normalBindings_le bindings) hlength, ?_⟩
    refine shortBindings_iff.mpr fun b hb => ?_
    obtain ⟨d, hd, rfl⟩ := mem_normalBindings hb
    have hshort := shortBindings_iff.mp hbindings d hd
    exact ⟨hshort.1, ih d hd hshort.2⟩

/-! ## The four parts of a content -/

/-- The fields of references, ascending, each with the id of its target. -/
def targets (heap : Heap) (references : Table String Handle) : List (String × Option NativeId) :=
  (KeyOrder.sorted references.entries).map fun f => (f.1, (heap.get f.2).id)

theorem lookup_targets (heap : Heap) (references : Table String Handle) (field : String) :
    (targets heap references).lookup field =
      (references.get? field).map fun h => (heap.get h).id := by
  have hmap : ∀ l : List (String × Handle),
      (l.map fun f => (f.1, (heap.get f.2).id)).lookup field =
        (l.lookup field).map fun h => (heap.get h).id := by
    intro l
    induction l with
    | nil => rfl
    | cons f l ih =>
      rw [List.map_cons, KeyOrder.lookup_cons, KeyOrder.lookup_cons, ih]
      split <;> rfl
  rw [targets, hmap, KeyOrder.lookup_sorted, Table.get?]

theorem ascending_targets (heap : Heap) (references : Table String Handle) :
    KeyOrder.Ascending (targets heap references) :=
  List.pairwise_map.mpr (KeyOrder.ascending_sorted references.entries)

/-- A content is its four parts, each written in one way. -/
theorem sameContent_iff {m n : Heap} {e f : Entity} :
    Entity.SameContent m e n f ↔
      e.typeName = f.typeName ∧ e.labels = f.labels ∧
        Value.normalBindings e.properties.entries = Value.normalBindings f.properties.entries ∧
        targets m e.references = targets n f.references := by
  constructor
  · intro h
    refine ⟨h.typeName, h.labels, ?_, ?_⟩
    · refine (Value.ascending_normalBindings _).ext (Value.ascending_normalBindings _) fun key => ?_
      rw [Value.lookup_normalBindings, Value.lookup_normalBindings]
      exact h.properties key
    · refine (ascending_targets _ _).ext (ascending_targets _ _) fun field => ?_
      rw [lookup_targets, lookup_targets]
      exact h.references field
  · rintro ⟨htype, hlabels, hproperties, hreferences⟩
    refine ⟨htype, hlabels, fun key => ?_, fun field => ?_⟩
    · have hkey := congrArg (List.lookup key) hproperties
      rwa [Value.lookup_normalBindings, Value.lookup_normalBindings] at hkey
    · have hfield := congrArg (List.lookup field) hreferences
      rwa [lookup_targets, lookup_targets] at hfield

theorem referencesBytes_eq (heap : Heap) (references : Table String Handle) :
    referencesBytes heap references = countBytes (targets heap references).length ++
      (targets heap references).flatMap fun f => textBytes f.1 ++ idBytes f.2 := by
  simp only [referencesBytes, targets, List.length_map, List.flatMap_map]

theorem delimits_labelsBytes {labels : NameSet .label} (hcount : FitsWord labels.size)
    (hs : ∀ l ∈ labels, ShortText l.text) :
    Delimits (fun ls : NameSet .label => FitsWord ls.size ∧ ∀ l ∈ ls, ShortText l.text)
      labelsBytes labels := by
  intro others hothers xs ys h
  have hlabel : ∀ l ∈ labels.toList,
      Delimits (fun l : Label => ShortText l.text) (fun l => textBytes l.text) l := by
    intro l hl k hk xs ys h
    obtain ⟨htext, hrest⟩ := delimits_textBytes (hs l hl) k.text hk xs ys h
    exact ⟨Name.ext_text htext, hrest⟩
  obtain ⟨hlist, hrest⟩ := Delimits.counted hlabel hcount others.toList hothers xs ys h
  cases labels
  cases others
  cases hlist
  exact ⟨rfl, hrest⟩

theorem delimits_propertiesBytes {bindings : List (String × Value)}
    (hcount : FitsWord bindings.length) (hs : ∀ b ∈ bindings, ShortBinding b) :
    Delimits (fun bs : List (String × Value) => FitsWord bs.length ∧ ∀ b ∈ bs, ShortBinding b)
      (fun bs => countBytes bs.length ++ bindingsBytes bs) bindings := by
  intro others hothers xs ys h
  simp only [bindingsBytes_eq_flatMap] at h
  have hbinding : ∀ b ∈ bindings, Delimits ShortBinding bindingBytes b :=
    fun b hb => delimits_bindingBytes (hs b hb)
  exact Delimits.counted hbinding hcount others hothers xs ys h

theorem delimits_targetBytes {f : String × Option NativeId} (hs : ShortText f.1) :
    Delimits (fun f : String × Option NativeId => ShortText f.1 ∧ True)
      (fun f => textBytes f.1 ++ idBytes f.2) f :=
  (delimits_textBytes hs).pair (delimits_idBytes f.2)

/-- What the short entity holds is short in normal form. -/
theorem short_properties {e : Entity} (he : e.Short) :
    FitsWord (Value.normalBindings e.properties.entries).length ∧
      ∀ b ∈ Value.normalBindings e.properties.entries, ShortBinding b := by
  refine ⟨Nat.lt_of_le_of_lt (length_normalBindings_le _) he.propertyCount, fun b hb => ?_⟩
  obtain ⟨d, hd, rfl⟩ := mem_normalBindings hb
  exact ⟨(he.properties d hd).1, short_normal d.2 (he.properties d hd).2⟩

theorem short_targets {e : Entity} (he : e.Short) (heap : Heap) :
    FitsWord (targets heap e.references).length ∧
      ∀ f ∈ targets heap e.references, ShortText f.1 ∧ True := by
  refine ⟨?_, fun f hf => ⟨?_, trivial⟩⟩
  · rw [targets, List.length_map]
    exact Nat.lt_of_le_of_lt (KeyOrder.length_sorted_le _) he.referenceCount
  · obtain ⟨b, hb, rfl⟩ := List.mem_map.mp hf
    exact he.references b (KeyOrder.mem_of_mem_sorted hb)

end Content

open Content in
/-- The bytes depend on nothing but the content. -/
theorem Entity.SameContent.contentBytes_eq {m n : Heap} {e f : Entity}
    (h : Entity.SameContent m e n f) : e.contentBytes m = f.contentBytes n := by
  obtain ⟨htype, hlabels, hproperties, hreferences⟩ := sameContent_iff.mp h
  rw [contentBytes, contentBytes, propertiesBytes, propertiesBytes, referencesBytes_eq,
    referencesBytes_eq, htype, hlabels, hproperties, hreferences]

open Content in
/-- **The bytes of a content say what the content is.** Of entities whose texts and collections are
not too long for their lengths to be written, two have the same bytes exactly when they have the same
content. -/
theorem Entity.contentBytes_eq_iff {m n : Heap} {e f : Entity} (he : e.Short) (hf : f.Short) :
    e.contentBytes m = f.contentBytes n ↔ Entity.SameContent m e n f := by
  refine ⟨fun h => sameContent_iff.mpr ?_, Entity.SameContent.contentBytes_eq⟩
  -- one part after the other, from the left
  simp only [contentBytes, referencesBytes_eq] at h
  obtain ⟨htype, hthree⟩ := delimits_textBytes he.typeName _ hf.typeName _ _ h
  obtain ⟨hlabels, htwo⟩ :=
    delimits_labelsBytes he.labelCount he.labels _ ⟨hf.labelCount, hf.labels⟩ _ _ hthree
  obtain ⟨hproperties, hone⟩ :=
    delimits_propertiesBytes (short_properties he).1 (short_properties he).2 _
      (short_properties hf) _ _ htwo
  have htarget : ∀ t ∈ targets m e.references, Delimits (fun t => ShortText t.1 ∧ True)
      (fun t => textBytes t.1 ++ idBytes t.2) t :=
    fun t ht => delimits_targetBytes ((short_targets he m).2 t ht).1
  rw [← List.append_nil (_ ++ List.flatMap _ (targets m _)),
    ← List.append_nil (_ ++ List.flatMap _ (targets n _))] at hone
  obtain ⟨hreferences, -⟩ :=
    Delimits.counted htarget (short_targets he m).1 _ (short_targets hf n) _ _ hone
  exact ⟨Name.ext_text htype, hlabels, hproperties, hreferences⟩

end ObjectGraph
