import ObjectGraph.Proofs.Hierarchy
import ObjectGraph.Proofs.TypeRemoval

/-!
# All entities of a type

Asked for the entities of a type, a session searches one of its two registers, the relationship entities
where the type has nothing but relationship types below it and the nodes otherwise. Below a concrete
type all is of its own kind, so nothing is missed; below an interface only where both kinds implement
it, and there the nodes are found and the relationship entities are not.

What is found is put in the order of the ids. Within one register each object has an id of its own, so
the order is strict, and a list in strict order is determined by its members: whichever way the register
is gone through, the answer is the same.
-/

set_option autoImplicit false

namespace ObjectGraph

open Relation Schema

/-! ## What is below a type -/

namespace Schema

variable {declared : List Declaration} {m : Domain} {d e : Declaration} {target : TypeName}

/-- There is a type of the kind below the target. -/
def ImplementedBy (declared : List Declaration) (kind : Kind) (target : TypeName) : Prop :=
  ∃ e ∈ declared, e.kind = kind ∧ TransGen (Extends declared) e.name target

/-- Types of both kinds are below the target. -/
def Mixed (declared : List Declaration) (target : TypeName) : Prop :=
  ImplementedBy declared .node target ∧ ImplementedBy declared .relationship target

namespace Domain

theorem holdsRelationships_of_concrete (hconcrete : d.kind ≠ .interface) :
    m.holdsRelationships (describe declared d) = decide (d.kind = .relationship) := by
  have hno : (describe declared d).isInterface = false := decide_eq_false hconcrete
  rw [holdsRelationships, hno]
  rfl

/-- An interface has relationships for instances if relationship types are below it and no node type
is. -/
theorem holdsRelationships_iff_of_interface (hm : build declared = .ok m)
    (hinterface : d.kind = .interface) :
    m.holdsRelationships (describe declared d) = true ↔
      ImplementedBy declared .relationship d.name ∧ ¬ ImplementedBy declared .node d.name := by
  have hyes : (describe declared d).isInterface = true := decide_eq_true hinterface
  have hall : ∀ e ∈ declared, e.kind ≠ .interface → TransGen (Extends declared) e.name d.name →
      describe declared e ∈ m.implementors d.name :=
    fun e he hconcrete hpath => (mem_implementors_iff_declared hm).mpr ⟨e, he, rfl, hconcrete, hpath⟩
  rw [holdsRelationships, hyes, if_pos rfl]
  dsimp only
  rw [Bool.and_eq_true, Bool.not_eq_true', List.isEmpty_eq_false_iff_exists_mem, List.all_eq_true]
  constructor
  · rintro ⟨⟨t, ht⟩, hrelationships⟩
    have hkind := of_decide_eq_true (hrelationships t ht)
    obtain ⟨e, he, rfl, -, hpath⟩ := (mem_implementors_iff_declared hm).mp ht
    refine ⟨⟨e, he, hkind, hpath⟩, ?_⟩
    rintro ⟨f, hf, hnode, hpath'⟩
    have hrelationship : f.kind = .relationship :=
      of_decide_eq_true (hrelationships _ (hall f hf (by simp [hnode]) hpath'))
    simp [hnode] at hrelationship
  · rintro ⟨⟨e, he, hkind, hpath⟩, hnone⟩
    refine ⟨⟨_, hall e he (by simp [hkind]) hpath⟩, fun t ht => ?_⟩
    obtain ⟨f, hf, rfl, hconcrete, hpath'⟩ := (mem_implementors_iff_declared hm).mp ht
    refine decide_eq_true (?_ : f.kind = .relationship)
    cases hkind' : f.kind with
    | node => exact absurd ⟨f, hf, hkind', hpath'⟩ hnone
    | relationship => rfl
    | interface => exact absurd hkind' hconcrete

end Domain

end Schema

namespace Session

variable {declared : List Declaration} {m : Domain} {s : Session} {heap : Heap} {d : Declaration}
  {reg : Register}

/-! ## The order of ids -/

theorem compareIds_trans {i j k : Option NativeId} (hij : (compareIds i j).isLE = true)
    (hjk : (compareIds j k).isLE = true) : (compareIds i k).isLE = true := by
  cases i with
  | none => cases k <;> rfl
  | some i =>
    cases j with
    | none => cases hij
    | some j =>
      cases k with
      | none => cases hjk
      | some k => exact Std.TransOrd.isLE_trans hij hjk

theorem compareIds_total (i j : Option NativeId) :
    ((compareIds i j).isLE || (compareIds j i).isLE) = true := by
  cases i with
  | none => cases j <;> rfl
  | some i =>
    cases j with
    | none => rfl
    | some j =>
      rw [Bool.or_eq_true]
      exact (Int64.le_total i j).imp Std.isLE_compare.mpr Std.isLE_compare.mpr

/-- By ids that go up from each object to the next. -/
def AscendingIds (heap : Heap) (l : List Handle) : Prop :=
  l.Pairwise fun x y => ∃ i j, (heap.get x).id = some i ∧ (heap.get y).id = some j ∧ i < j

theorem AscendingIds.nodup {l : List Handle} (h : AscendingIds heap l) : l.Nodup := by
  refine h.imp ?_
  rintro x _ ⟨i, j, hi, hj, hlt⟩ rfl
  exact Int64.ne_of_lt hlt (Option.some.inj (hi.symm.trans hj))

/-- There is one way to put objects in this order. -/
theorem AscendingIds.eq {l l' : List Handle} (h : AscendingIds heap l) (h' : AscendingIds heap l')
    (hmem : ∀ x, x ∈ l ↔ x ∈ l') : l = l' := by
  refine List.Perm.eq_of_pairwise (fun x y _ _ hxy hyx => ?_) h h'
    ((List.perm_ext_iff_of_nodup h.nodup h'.nodup).mpr hmem)
  obtain ⟨i, j, hi, hj, hlt⟩ := hxy
  obtain ⟨j', i', hj', hi', hlt'⟩ := hyx
  obtain rfl := Option.some.inj (hi.symm.trans hi')
  obtain rfl := Option.some.inj (hj.symm.trans hj')
  exact absurd hlt' (Int64.lt_asymm hlt)

/-- Sorting puts objects in this order that have ids of their own. -/
theorem ascendingIds_mergeSort {l : List Handle} (hids : ∀ x ∈ l, ∃ i, (heap.get x).id = some i)
    (hdistinct : l.Pairwise fun x y => (heap.get x).id ≠ (heap.get y).id) :
    AscendingIds heap (l.mergeSort (idLe heap)) := by
  have hsorted : (l.mergeSort (idLe heap)).Pairwise fun x y => idLe heap x y = true := by
    refine List.pairwise_mergeSort (fun x y z hxy hyz => ?_) (fun x y => ?_) l
    · exact compareIds_trans hxy hyz
    · exact compareIds_total (heap.get x).id (heap.get y).id
  have hperm := List.mergeSort_perm l (idLe heap)
  have hdistinct := hperm.symm.pairwise hdistinct Ne.symm
  refine (hsorted.and hdistinct).imp_of_mem fun {x y} hx hy hxy => ?_
  obtain ⟨hle, hne⟩ := hxy
  obtain ⟨i, hi⟩ := hids x (hperm.mem_iff.mp hx)
  obtain ⟨j, hj⟩ := hids y (hperm.mem_iff.mp hy)
  rw [idLe, hi, hj] at hle
  refine ⟨i, j, hi, hj, Int64.lt_of_le_of_ne (Std.isLE_compare.mp hle) ?_⟩
  rintro rfl
  exact hne (hi.trans hj.symm)

/-- The objects of a register have ids of their own. -/
theorem pairwise_ids_values (hs : m.typing.Holds ⟨heap, s⟩) :
    (s.register reg).values.Pairwise fun x y => (heap.get x).id ≠ (heap.get y).id := by
  refine List.pairwise_map.mpr ((s.register reg).distinct.imp_of_mem fun {a b} ha hb hne => ?_)
  have hida := (hs reg a.1 a.2 (Table.get?_eq_some_iff.mpr ha)).1
  have hidb := (hs reg b.1 b.2 (Table.get?_eq_some_iff.mpr hb)).1
  intro heq
  exact hne (Option.some.inj (hida.symm.trans (heq.trans hidb)))

/-! ## The register that is searched -/

/-- The register in which the entities of a type are looked for: of a concrete type that of its kind, of
an interface that of the relationship entities only if what is below is of that kind throughout. -/
structure SearchedIn (declared : List Declaration) (d : Declaration) (reg : Register) : Prop where
  ofConcrete : d.kind ≠ .interface → d.kind = reg.kind
  ofInterface : d.kind = .interface → (reg = .relationship ↔
    ImplementedBy declared .relationship d.name ∧ ¬ ImplementedBy declared .node d.name)

theorem exists_searchedIn (hm : Domain.build declared = .ok m) (hp : s.provider = m.provider)
    (hd : d ∈ declared) :
    ∃ reg, s.registerOf d.name = .ok (s.register reg) ∧ SearchedIn declared d reg := by
  have hanswer : s.provider.isRelationshipType d.name =
      .ok (m.holdsRelationships (describe declared d)) :=
    hp ▸ Domain.map_typeInfo ((Domain.get?_eq_some_iff hm).mpr ⟨d, hd, rfl, rfl⟩) _
  cases hholds : m.holdsRelationships (describe declared d) with
  | true =>
    refine ⟨.relationship, ?_, fun hconcrete => ?_, fun hinterface => ?_⟩
    · simp only [registerOf, hanswer, hholds, register]
    · rw [Domain.holdsRelationships_of_concrete hconcrete] at hholds
      exact of_decide_eq_true hholds
    · exact iff_of_true rfl ((Domain.holdsRelationships_iff_of_interface hm hinterface).mp hholds)
  | false =>
    refine ⟨.node, ?_, fun hconcrete => ?_, fun hinterface => ?_⟩
    · simp only [registerOf, hanswer, hholds, register]
    · rw [Domain.holdsRelationships_of_concrete hconcrete] at hholds
      revert hholds hconcrete
      cases d.kind <;> simp [Register.kind]
    · rw [← Domain.holdsRelationships_iff_of_interface hm hinterface, hholds]
      simp

/-- Where not both kinds are below a type, all its instances are in the register that is searched. -/
theorem SearchedIn.eq_of_reflTransGen (hsearched : SearchedIn declared d reg)
    (hm : Domain.build declared = .ok m) (hd : d ∈ declared)
    (hkinds : d.kind ≠ .interface ∨ ¬ Mixed declared d.name) {reg' : Register} {name : TypeName}
    (htype : m.typing reg' name) (hpath : ReflTransGen (Extends declared) name d.name) :
    reg' = reg := by
  obtain ⟨info, hinfo, hkind⟩ := htype
  obtain ⟨e, he, rfl, rfl⟩ := (Domain.get?_eq_some_iff hm).mp hinfo
  have hkind : e.kind = reg'.kind := hkind
  by_cases hinterface : d.kind = .interface
  · -- an interface has no instances of its own, so the type of the instance is below it
    have hnotself : d.name ≠ e.name := by
      intro hname
      obtain rfl := Domain.eq_of_name hm hd he hname
      exact reg'.kind_ne_interface (hkind.symm.trans hinterface)
    have hbelow : ImplementedBy declared reg'.kind d.name :=
      ⟨e, he, hkind, (reflTransGen_iff_eq_or_transGen.mp hpath).resolve_left hnotself⟩
    have hunmixed := hkinds.resolve_left (not_not.mpr hinterface)
    have hiff := hsearched.ofInterface hinterface
    cases reg' with
    | relationship => exact (hiff.mpr ⟨hbelow, fun hnode => hunmixed ⟨hnode, hbelow⟩⟩).symm
    | node =>
      cases reg with
      | node => rfl
      | relationship => exact absurd hbelow (hiff.mp rfl).2
  · have hsame : d.kind = e.kind := by
      rcases reflTransGen_iff_eq_or_transGen.mp hpath with hname | hpath
      · rw [Domain.eq_of_name hm hd he hname]
      · exact Domain.kind_of_transGen hm hd hinterface he hpath
    exact Register.kind_injective
      (hkind.symm.trans (hsame.symm.trans (hsearched.ofConcrete hinterface)))

/-! ## What the session answers -/

/-- The entities of a declared type are those that are found in the register that is searched: all
instances, unless types of both kinds are below it. -/
theorem exists_entitiesOf (hm : Domain.build declared = .ok m) (hp : s.provider = m.provider)
    (hs : m.typing.Holds ⟨heap, s⟩) (hd : d ∈ declared) :
    ∃ l, s.entitiesOf heap d.name = .ok l ∧ AscendingIds heap l ∧
      (d.kind ≠ .interface ∨ ¬ Mixed declared d.name → ∀ x, x ∈ l ↔
        s.Tracks x ∧ ReflTransGen (Extends declared) (heap.get x).typeName d.name) ∧
      (d.kind = .interface → Mixed declared d.name → ∀ x, x ∈ l ↔
        (∃ i, s.nodes.get? i = some x) ∧
          ReflTransGen (Extends declared) (heap.get x).typeName d.name) := by
  obtain ⟨reg, hregister, hsearched⟩ := exists_searchedIn hm hp hd
  have hids : ∀ x ∈ (s.register reg).values, ∃ i, (heap.get x).id = some i := by
    intro x hx
    obtain ⟨i, hi⟩ := Table.mem_values_iff.mp hx
    exact ⟨i, (hs reg i x hi).1⟩
  have hmem : ∀ x, x ∈ ((s.register reg).values.filter fun h =>
      m.assignable (heap.get h).typeName d.name).mergeSort (idLe heap) ↔
      (∃ i, (s.register reg).get? i = some x) ∧
        ReflTransGen (Extends declared) (heap.get x).typeName d.name := by
    intro x
    rw [List.mem_mergeSort, List.mem_filter, Table.mem_values_iff, Domain.assignable_iff hm]
    refine and_congr_right ?_
    rintro ⟨i, hi⟩
    exact and_iff_right (contains_of_typing (hs reg i x hi).2)
  refine ⟨_, entitiesOf_of_register hp hs hregister,
    ascendingIds_mergeSort (fun x hx => hids x (List.mem_filter.mp hx).1)
      ((pairwise_ids_values hs).filter _), fun hkinds x => ?_, fun hinterface hmixed x => ?_⟩
  · rw [hmem]
    constructor
    · rintro ⟨⟨i, hi⟩, hpath⟩
      exact ⟨⟨reg, i, hi⟩, hpath⟩
    · rintro ⟨⟨reg', i, hi⟩, hpath⟩
      obtain rfl := hsearched.eq_of_reflTransGen hm hd hkinds (hs reg' i x hi).2 hpath
      exact ⟨⟨i, hi⟩, hpath⟩
  · rw [hmem]
    cases reg with
    | node => rfl
    | relationship => exact absurd hmixed.1 ((hsearched.ofInterface hinterface).mp rfl).2

/-- The order in which the registers are gone through does not show in the answer. -/
theorem entitiesOf_congr {t : Session} (hm : Domain.build declared = .ok m)
    (hp : s.provider = m.provider) (hs : m.typing.Holds ⟨heap, s⟩) (hd : d ∈ declared)
    (hagrees : s.Agrees t) : t.entitiesOf heap d.name = s.entitiesOf heap d.name := by
  obtain ⟨l, hl, horder, hall, hnodes⟩ := exists_entitiesOf hm hp hs hd
  have ht : m.typing.Holds ⟨heap, t⟩ := Typing.Holds.of_agrees (w := ⟨heap, s⟩) hs hagrees
  obtain ⟨l', hl', horder', hall', hnodes'⟩ :=
    exists_entitiesOf hm (hagrees.provider.symm.trans hp) ht hd
  rw [hl, hl', horder'.eq horder fun x => ?_]
  have hnode : ∀ i, s.nodes.get? i = t.nodes.get? i := hagrees.register .node
  by_cases hkinds : d.kind ≠ .interface ∨ ¬ Mixed declared d.name
  · rw [hall hkinds, hall' hkinds, hagrees.tracks_iff]
  · obtain ⟨hinterface, hmixed⟩ : d.kind = .interface ∧ Mixed declared d.name := by
      simpa [not_or] using hkinds
    rw [hnodes hinterface hmixed, hnodes' hinterface hmixed]
    simp only [hnode]

end Session

namespace World

open Session

/-- **The entities of a type are told in the order of their ids, and all of them where one register can
hold them.** In a world that a run comes to, let what is tracked keep to the types and to the ids. Then
asking for the entities of a declared type succeeds and answers each entity once, by ascending ids, in
whatever order the registers are held. Where the type is concrete, or an interface that is not
implemented by both kinds, these are all tracked entities, nodes and relationship entities, whose type
is the target or reaches it by extending; where it is an interface of both kinds, these are the tracked
nodes among them. -/
theorem run_entitiesOf {declared : List Declaration} {m : Domain}
    (hm : Domain.build declared = .ok m) (heap : Heap) (config : Config) (ops : List Operation) :
    let w := (start heap m.provider config).run ops
    m.typing.Holds w → ∀ d ∈ declared,
      ∃ l, (∀ s, w.session.Agrees s → s.entitiesOf w.heap d.name = .ok l) ∧ l.Nodup ∧
        l.Pairwise (fun x y =>
          ∃ i j, (w.heap.get x).id = some i ∧ (w.heap.get y).id = some j ∧ i < j) ∧
        (d.kind ≠ .interface ∨ ¬ Mixed declared d.name → ∀ x, x ∈ l ↔
          w.session.Tracks x ∧ ReflTransGen (Extends declared) (w.heap.get x).typeName d.name) ∧
        (d.kind = .interface → Mixed declared d.name → ∀ x, x ∈ l ↔
          (∃ i, w.session.nodes.get? i = some x) ∧
            ReflTransGen (Extends declared) (w.heap.get x).typeName d.name) := by
  intro w hholds d hd
  have hp : w.session.provider = m.provider := provider_run (start heap m.provider config) ops
  obtain ⟨l, hl, horder, hmem⟩ := exists_entitiesOf hm hp hholds hd
  refine ⟨l, fun s hagrees => ?_, horder.nodup, horder, hmem⟩
  rw [entitiesOf_congr hm hp hholds hd hagrees, hl]

theorem person_extends_named : Extends named ⟨"Person"⟩ ⟨"Named"⟩ := by
  unfold Extends
  decide

theorem knows_extends_named : Extends named ⟨"Knows"⟩ ⟨"Named"⟩ := by
  unfold Extends
  decide

theorem named_mixed : Mixed named ⟨"Named"⟩ := by
  obtain ⟨⟨d, hd, hdname, hnode⟩, e, he, hename, hrelationship⟩ :
      (∃ d ∈ named, d.name = ⟨"Person"⟩ ∧ d.kind = .node) ∧
        ∃ e ∈ named, e.name = ⟨"Knows"⟩ ∧ e.kind = .relationship := by decide
  exact ⟨⟨d, hd, hnode, hdname ▸ .single person_extends_named⟩,
    e, he, hrelationship, hename ▸ .single knows_extends_named⟩

/-- Persons and acquaintances have names, but asked for what has a name the session tells of the persons
only. Asked for the acquaintances it tells of the acquaintance. -/
theorem entitiesOf_inTown :
    let w := (start twoPersons namedDomain.provider .standard).run inTown
    (∃ l, w.session.entitiesOf w.heap ⟨"Named"⟩ = .ok l ∧ l.Nodup ∧ ⟨0⟩ ∈ l ∧ ⟨1⟩ ∈ l ∧
      w.session.Tracks ⟨2⟩ ∧ ReflTransGen (Extends named) (w.heap.get ⟨2⟩).typeName ⟨"Named"⟩ ∧
      ⟨2⟩ ∉ l) ∧
    ∃ l, w.session.entitiesOf w.heap ⟨"Knows"⟩ = .ok l ∧ ⟨2⟩ ∈ l := by
  intro w
  have hholds : namedDomain.typing.Holds w :=
    Typing.holds_run namedDomain.typing_borneOut inTown_follows
  have htold := run_entitiesOf build_named twoPersons .standard inTown hholds
  obtain ⟨⟨d, hd, hdname, hinterface⟩, e, he, hename, hrelationship⟩ :
      (∃ d ∈ named, d.name = ⟨"Named"⟩ ∧ d.kind = .interface) ∧
        ∃ e ∈ named, e.name = ⟨"Knows"⟩ ∧ e.kind = .relationship := by decide
  obtain ⟨l, hl, hnodup, -, -, hnodes⟩ := htold d hd
  obtain ⟨l', hl', -, -, hall, -⟩ := htold e he
  rw [hdname] at hl hnodes
  rw [hename] at hl' hall
  have hnodes := hnodes hinterface named_mixed
  have hall := hall (.inl (by simp [hrelationship]))
  refine ⟨⟨l, hl w.session (.refl _), hnodup, ?_, ?_, ⟨.relationship, 5, relationship_inTown.mpr rfl⟩,
    .single knows_extends_named, fun hin => ?_⟩, l', hl' w.session (.refl _), ?_⟩
  · exact (hnodes _).mpr ⟨⟨1, node_inTown.mpr (by decide)⟩, .single person_extends_named⟩
  · exact (hnodes _).mpr ⟨⟨2, node_inTown.mpr (by decide)⟩, .single person_extends_named⟩
  · obtain ⟨⟨i, hi⟩, -⟩ := (hnodes _).mp hin
    simpa using node_inTown.mp hi
  · exact (hall _).mpr ⟨⟨.relationship, 5, relationship_inTown.mpr rfl⟩, .refl⟩

end World

end ObjectGraph
