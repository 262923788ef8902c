import ObjectGraph.Proofs.Agreement
import ObjectGraph.Proofs.Inheritance
import ObjectGraph.Proofs.Successive

/-!
# Removing a type

Removing a type looks up the instances of each concrete type below it and purges them one after the
other, each list worked out in the session that the purges before have left. It comes to the same as
purging, in any order, all entities that are instances at first: an entity that has gone by the time its
list is worked out has taken along all that it led to (`Grounded.removeConcreteType`).

For one concrete type only one register is searched. Nothing is missed, since all instances of a
concrete type are of its kind; for an interface, each instance is found by its own type, which
implements the interface.
-/

set_option autoImplicit false

namespace ObjectGraph.Session

open Schema

/-- The entity is tracked, and its type may be used where the target is expected. -/
def InstanceOf (s : Session) (heap : Heap) (target : TypeName) (x : Handle) : Prop :=
  s.Tracks x ∧ s.provider.isAssignable (heap.get x).typeName target = .ok true

section Instances

variable {declared : List Declaration} {m : Domain} {s t : Session} {heap : Heap}
  {name target : TypeName} {x : Handle} {reg : Register}

/-- A type for some register is declared. -/
theorem contains_of_typing (h : m.typing reg name) : m.contains name = true := by
  obtain ⟨info, hinfo, -⟩ := h
  exact Option.isSome_iff_exists.mpr ⟨info, hinfo⟩

/-- A type for some register is concrete. -/
theorem isInterface_of_kind {info : TypeInfo} (hkind : info.kind = reg.kind) :
    info.isInterface = false := by
  rw [TypeInfo.isInterface, hkind, decide_eq_false_iff_not]
  exact reg.kind_ne_interface

/-- A concrete type is for some register. -/
theorem exists_typing {info : TypeInfo} (hinfo : m.get? name = some info)
    (hconcrete : info.isInterface = false) : ∃ reg, m.typing reg name := by
  rw [TypeInfo.isInterface, decide_eq_false_iff_not] at hconcrete
  cases hkind : info.kind with
  | node => exact ⟨.node, info, hinfo, hkind⟩
  | relationship => exact ⟨.relationship, info, hinfo, hkind⟩
  | interface => exact absurd hkind hconcrete

theorem instanceOf_iff (hp : s.provider = m.provider) (hs : m.typing.Holds ⟨heap, s⟩) :
    s.InstanceOf heap target x ↔
      s.Tracks x ∧ m.assignable (heap.get x).typeName target = true := by
  refine and_congr_right ?_
  rintro ⟨reg, i, hx⟩
  rw [hp, Domain.isAssignable_provider (contains_of_typing (hs reg i x hx).2), Except.ok.injEq]

theorem assignable_eq_filter (hp : s.provider = m.provider) (l : List Handle)
    (hl : ∀ h ∈ l, m.contains (heap.get h).typeName = true) :
    s.assignable heap target l =
      .ok (l.filter fun h => m.assignable (heap.get h).typeName target) := by
  induction l with
  | nil => rfl
  | cons h rest ih =>
    have hfits := Domain.isAssignable_provider (hl h List.mem_cons_self) target
    rw [← hp] at hfits
    have hrest := ih fun k hk => hl k (List.mem_cons_of_mem _ hk)
    simp only [assignable, hfits, hrest, List.filter_cons]

/-- Whichever register is searched, what is found there is sorted out by its type and put in order. -/
theorem entitiesOf_of_register (hp : s.provider = m.provider) (hs : m.typing.Holds ⟨heap, s⟩)
    (hregister : s.registerOf target = .ok (s.register reg)) :
    s.entitiesOf heap target =
      .ok (((s.register reg).values.filter fun h =>
        m.assignable (heap.get h).typeName target).mergeSort (idLe heap)) := by
  have hdeclared : ∀ h ∈ (s.register reg).values, m.contains (heap.get h).typeName = true := by
    intro h hh
    obtain ⟨i, hi⟩ := Table.mem_values_iff.mp hh
    exact contains_of_typing (hs reg i h hi).2
  simp only [entitiesOf, hregister, assignable_eq_filter hp _ hdeclared, Except.map]

/-- The entities of a concrete type are all its instances, although only one register is searched. -/
theorem entitiesOf_eq (hm : Domain.build declared = .ok m) (hp : s.provider = m.provider)
    (hs : m.typing.Holds ⟨heap, s⟩) (hname : m.typing reg name) :
    ∃ entities, s.entitiesOf heap name = .ok entities ∧
      ∀ x, x ∈ entities ↔ s.InstanceOf heap name x := by
  have hregister : s.registerOf name = .ok (s.register reg) := by
    have hanswer := m.typing_borneOut reg name hname
    rw [Provider.typing, ← hp] at hanswer
    rw [registerOf, hanswer]
    cases reg <;> rfl
  refine ⟨_, entitiesOf_of_register hp hs hregister, fun x => ?_⟩
  rw [List.mem_mergeSort, List.mem_filter, Table.mem_values_iff, instanceOf_iff hp hs]
  constructor
  · rintro ⟨⟨i, hx⟩, hfits⟩
    exact ⟨⟨reg, i, hx⟩, hfits⟩
  · rintro ⟨⟨reg', i, hx⟩, hfits⟩
    -- an instance of a concrete type is of the kind of that type
    obtain ⟨info, hinfo, hkind⟩ := (hs reg' i x hx).2
    obtain ⟨info', hinfo', hkind'⟩ := hname
    have hconcrete := isInterface_of_kind hkind'
    have hsame := Domain.kind_of_assignable hm hinfo hinfo' hconcrete hfits
    rw [hkind, hkind'] at hsame
    have hreg : reg' = reg := Register.kind_injective hsame
    exact ⟨⟨i, hreg ▸ hx⟩, hfits⟩

/-- Where something is gone, the instances are those that are left. -/
theorem InstanceOf.of_without {gone : Register → NativeId → Prop} (hw : s.Without gone t)
    (h : t.InstanceOf heap target x) : s.InstanceOf heap target x := by
  obtain ⟨⟨reg, i, hx⟩, hfits⟩ := h
  rw [hw.provider] at hfits
  exact ⟨⟨reg, i, (hw.get?_register.mp hx).1⟩, hfits⟩

/-- An instance of an interface is one of the concrete types below it. -/
theorem instanceOf_iff_exists_implementor (hm : Domain.build declared = .ok m)
    (hp : s.provider = m.provider) (hs : m.typing.Holds ⟨heap, s⟩) {info : TypeInfo}
    (hinfo : m.get? target = some info) (hinterface : info.isInterface = true) :
    s.InstanceOf heap target x ↔
      ∃ c ∈ (m.implementors target).map TypeInfo.name, s.InstanceOf heap c x := by
  simp only [instanceOf_iff hp hs, List.mem_map]
  constructor
  · rintro ⟨htracked, hfits⟩
    obtain ⟨reg, i, hx⟩ := id htracked
    obtain ⟨own, hown, hkind⟩ := (hs reg i x hx).2
    have hname := Domain.name_of_get? hm hown
    have hconcrete := isInterface_of_kind hkind
    have hancestor : target ∈ own.ancestors := by
      rw [Domain.assignable, hown, Option.any_some, TypeInfo.isAssignableTo, Bool.or_eq_true,
        decide_eq_true_iff, decide_eq_true_iff] at hfits
      refine hfits.resolve_left fun hself => ?_
      rw [← hname, hself, hinfo] at hown
      obtain rfl := Option.some.inj hown
      rw [hinterface] at hconcrete
      cases hconcrete
    refine ⟨_, ⟨own, (Domain.mem_implementors_iff hm).mpr ⟨hname ▸ hown, hconcrete, hancestor⟩,
      hname⟩, htracked, ?_⟩
    exact Domain.assignable_self hm (Option.isSome_iff_exists.mpr ⟨own, hown⟩)
  · rintro ⟨_, ⟨c, hc, rfl⟩, htracked, hfits⟩
    obtain ⟨hget, -, hancestor⟩ := (Domain.mem_implementors_iff hm).mp hc
    refine ⟨htracked, Domain.assignable_trans hm hfits ?_⟩
    rw [Domain.assignable, hget, Option.any_some, TypeInfo.isAssignableTo, Bool.or_eq_true]
    exact .inr (decide_eq_true hancestor)

end Instances

/-! ## What removing a type comes to -/

section Equations

variable {m : Domain} {s : Session} {heap : Heap} {target : TypeName} {info : TypeInfo}

theorem isInterface_eq (hp : s.provider = m.provider) (hinfo : m.get? target = some info) :
    s.provider.isInterface target = .ok info.isInterface :=
  hp ▸ Domain.map_typeInfo hinfo _

theorem removeType_of_concrete (hp : s.provider = m.provider) (hinfo : m.get? target = some info)
    (hconcrete : info.isInterface = false) :
    s.removeType heap target = s.removeConcreteType heap target := by
  rw [removeType, isInterface_eq hp hinfo, hconcrete]

theorem removeType_of_interface (hp : s.provider = m.provider) (hinfo : m.get? target = some info)
    (hinterface : info.isInterface = true) :
    s.removeType heap target =
      forEach (fun s name => s.removeConcreteType heap name) s
        ((m.implementors target).map TypeInfo.name) := by
  have hnames : s.provider.implementingTypes target =
      .ok ((m.implementors target).map TypeInfo.name) := hp ▸ Domain.map_typeInfo hinfo _
  rw [removeType, isInterface_eq hp hinfo, hinterface]
  simp only [hnames]

theorem removeType_of_undeclared (hp : s.provider = m.provider) (hout : m.contains target = false) :
    s.removeType heap target = ⟨s, .error (.unknownType target)⟩ := by
  have hanswer : s.provider.isInterface target = .error (.unknownType target) :=
    hp ▸ Domain.map_typeInfo_of_undeclared hout _
  rw [removeType, hanswer]

end Equations

/-! ## The purges -/

section Removal

variable {declared : List Declaration} {m : Domain} {s t : Session} {heap : Heap}
  {name target : TypeName} {roots : Handle → Prop} {reg : Register}

/-- An instance can be purged. -/
theorem InstanceOf.wanted {x : Handle} (hx : s.InstanceOf heap name x) (hs : s.Grounded heap) :
    s.Wanted heap x x := by
  obtain ⟨⟨reg, i, hget⟩, -⟩ := hx
  exact hs.wanted_of_get? hget

/-- The instances that are left are enough: another one has gone with the others, and so has all that
is reached from it. -/
theorem reachedFrom_instances (hs : s.Grounded heap) (hw : s.Without (s.ReachedFrom heap roots) t)
    (reg : Register) (i : NativeId) :
    s.ReachedFrom heap (fun x => roots x ∨ t.InstanceOf heap name x) reg i ↔
      s.ReachedFrom heap (fun x => roots x ∨ s.InstanceOf heap name x) reg i := by
  constructor
  · rintro ⟨x, hx, hreached⟩
    exact ⟨x, hx.imp id (.of_without hw), hreached⟩
  · rintro ⟨x, hx | ⟨⟨reg', i', hget⟩, hfits⟩, hreached⟩
    · exact ⟨x, .inl hx, hreached⟩
    · by_cases hgone : s.ReachedFrom heap roots reg' i'
      · have habsorbed : s.ReachedFrom heap roots reg i := by
          refine hreached.absorbed fun hkey _ => ?_
          obtain ⟨rfl, rfl⟩ := (hs.standsFor hget).unique hkey
          exact hgone
        obtain ⟨y, hy, hreached⟩ := habsorbed
        exact ⟨y, .inl hy, hreached⟩
      · refine ⟨x, .inr ⟨⟨reg', i', hw.get?_register.mpr ⟨hget, hgone⟩⟩, ?_⟩, hreached⟩
        rw [hw.provider]
        exact hfits

/-- Removing a concrete type from what is left takes what is reached from its instances too. -/
theorem Grounded.removeConcreteType (hs : s.Grounded heap) (hm : Domain.build declared = .ok m)
    (hp : s.provider = m.provider) (hholds : m.typing.Holds ⟨heap, s⟩) (hname : m.typing reg name)
    (hw : s.Without (s.ReachedFrom heap roots) t) :
    ∃ u, t.removeConcreteType heap name = ⟨u, .ok ()⟩ ∧
      s.Without (s.ReachedFrom heap fun x => roots x ∨ s.InstanceOf heap name x) u := by
  obtain ⟨entities, hentities, hmem⟩ :=
    entitiesOf_eq hm (hw.provider.trans hp) (holds_without hholds hw) hname
  have hwanted : ∀ x ∈ entities, s.Wanted heap x x :=
    fun x hx => (InstanceOf.of_without hw ((hmem x).mp hx)).wanted hs
  obtain ⟨u, hu, hwithout⟩ := hs.purge_each hw hwanted
  refine ⟨u, ?_, hwithout.congr fun reg i => ?_⟩
  · simp only [Session.removeConcreteType, hentities, hu]
  · exact (reachedFrom_congr (fun x => or_congr_right (hmem x)) reg i).trans
      (reachedFrom_instances hs hw reg i)

/-- Removing some concrete types one after the other takes what is reached from any of their
instances. -/
theorem Grounded.removeConcreteTypes (hs : s.Grounded heap) (hm : Domain.build declared = .ok m)
    (hp : s.provider = m.provider) (hholds : m.typing.Holds ⟨heap, s⟩) {names : List TypeName}
    (hnames : ∀ c ∈ names, ∃ reg, m.typing reg c) :
    ∃ t, forEach (fun s name => s.removeConcreteType heap name) s names = ⟨t, .ok ()⟩ ∧
      s.Without (s.ReachedFrom heap fun x => ∃ c ∈ names, s.InstanceOf heap c x) t := by
  refine forEach_induction
    (P := fun done t => s.Without (s.ReachedFrom heap fun x => ∃ c ∈ done, s.InstanceOf heap c x) t)
    ?_ ?_
  · intro done t c hc ht
    obtain ⟨reg, hname⟩ := hnames c hc
    obtain ⟨u, hu, hwithout⟩ := hs.removeConcreteType hm hp hholds hname ht
    refine ⟨u, hu, hwithout.congr (reachedFrom_congr fun x => ?_)⟩
    simp only [List.mem_append, List.mem_singleton, or_and_right, exists_or, exists_eq_left]
  · exact (without_reachedFrom_nothing s heap).congr (reachedFrom_congr fun x => by simp)

/-- Removing a declared type takes what is reached from its instances. -/
theorem Grounded.removeType (hs : s.Grounded heap) (hm : Domain.build declared = .ok m)
    (hp : s.provider = m.provider) (hholds : m.typing.Holds ⟨heap, s⟩)
    (hdeclared : m.contains target = true) :
    ∃ t, s.removeType heap target = ⟨t, .ok ()⟩ ∧
      s.Without (s.ReachedFrom heap (s.InstanceOf heap target)) t := by
  obtain ⟨info, hinfo⟩ := Option.isSome_iff_exists.mp hdeclared
  have hinfo : m.get? target = some info := hinfo
  cases hinterface : info.isInterface with
  | false =>
    obtain ⟨reg, hname⟩ := exists_typing hinfo hinterface
    obtain ⟨t, ht, hwithout⟩ :=
      hs.removeConcreteType hm hp hholds hname (without_reachedFrom_nothing s heap)
    rw [removeType_of_concrete hp hinfo hinterface]
    exact ⟨t, ht, hwithout.congr (reachedFrom_congr fun x => by rw [false_or])⟩
  | true =>
    have hnames : ∀ c ∈ (m.implementors target).map TypeInfo.name, ∃ reg, m.typing reg c := by
      intro c hc
      obtain ⟨own, hown, rfl⟩ := List.mem_map.mp hc
      obtain ⟨hget, hconcrete, -⟩ := (Domain.mem_implementors_iff hm).mp hown
      exact exists_typing hget hconcrete
    obtain ⟨t, ht, hwithout⟩ := hs.removeConcreteTypes hm hp hholds hnames
    rw [removeType_of_interface hp hinfo hinterface]
    exact ⟨t, ht, hwithout.congr (reachedFrom_congr fun x =>
      (instanceOf_iff_exists_implementor hm hp hholds hinfo hinterface).symm)⟩

/-- Where all that is reached from the instances has gone, no instance is left. -/
theorem isAssignable_of_rest (hs : s.Grounded heap) (hp : s.provider = m.provider)
    (hholds : m.typing.Holds ⟨heap, s⟩)
    (hw : s.Without (s.ReachedFrom heap (s.InstanceOf heap target)) t) {x : Handle}
    (hx : t.Tracks x) : t.provider.isAssignable (heap.get x).typeName target = .ok false := by
  obtain ⟨reg, i, hget⟩ := hx
  obtain ⟨hold, hstays⟩ := hw.get?_register.mp hget
  have hanswer := Domain.isAssignable_provider (contains_of_typing (hholds reg i x hold).2) target
  rw [← hp] at hanswer
  rw [hw.provider, hanswer, Except.ok.injEq, Bool.eq_false_iff]
  intro hfits
  rw [hfits] at hanswer
  exact hstays ⟨x, ⟨⟨reg, i, hold⟩, hanswer⟩,
    .root (hs.standsFor hold) (Option.isSome_iff_exists.mpr ⟨x, hold⟩)⟩

end Removal

end ObjectGraph.Session

namespace ObjectGraph.World

open Session

/-- **Removing a type is purging its instances, in any order.** In a world that a run comes to, the
records in whatever order, let what is tracked keep to the types and to the ids, and let the ends of
relationship entities be nodes. Then removing a declared type succeeds and leaves the session without
what is reached from any tracked entity, node or relationship entity, that is an instance of the type;
nothing of the type is left; and purging exactly those instances one after the other, in any order,
succeeds and leaves the same. Removing a type that is not declared is refused and changes nothing. -/
theorem run_removeType {declared : List Schema.Declaration} {m : Schema.Domain}
    (hm : Schema.Domain.build declared = .ok m) (heap : Heap) (config : Config)
    (ops : List Operation) (order : RecordSet) :
    let w := (start heap m.provider config).run ops
    let s := { w.session with records := order }
    (∀ q, q ∈ order ↔ q ∈ w.session.records) → m.typing.Holds ⟨w.heap, s⟩ →
    (∀ r h k, s.relationships.get? r = some h → s.EndOf w.heap h k →
      m.typing .node (w.heap.get k).typeName) →
    ∀ target,
      (m.contains target = true → ∃ t, s.removeType w.heap target = ⟨t, .ok ()⟩ ∧
        s.Without (s.ReachedFrom w.heap (s.InstanceOf w.heap target)) t ∧
        (∀ x, t.Tracks x → t.provider.isAssignable (w.heap.get x).typeName target = .ok false) ∧
        ∀ items : List Handle, (∀ x, x ∈ items ↔ s.InstanceOf w.heap target x) →
          ∃ u, forEach (fun s h => s.purge w.heap h) s items = ⟨u, .ok ()⟩ ∧ t.Agrees u) ∧
      (m.contains target = false →
        s.removeType w.heap target = ⟨s, .error (.unknownType target)⟩) := by
  intro w s horder hholds hends target
  obtain ⟨hp, hbacked, hindex⟩ : s.provider = m.provider ∧ s.Backed ∧ s.IndexCoherent :=
    run_reordered m heap config ops horder
  have hs : s.Grounded w.heap := grounded (w := ⟨w.heap, s⟩) hp hholds hbacked hends
  refine ⟨fun hdeclared => ?_, removeType_of_undeclared hp⟩
  obtain ⟨t, ht, hwithout⟩ := hs.removeType hm hp hholds hdeclared
  have htindex : t.IndexCoherent := by
    have hshrinks := removeType_shrinks s w.heap target
    rw [ht] at hshrinks
    exact hshrinks.keeps .of_loses hindex
  refine ⟨t, ht, hwithout, fun x hx => isAssignable_of_rest hs hp hholds hwithout hx,
    fun items hitems => ?_⟩
  have hwanted : ∀ x ∈ items, s.Wanted w.heap x x := fun x hx => ((hitems x).mp hx).wanted hs
  obtain ⟨u, hu, hwithout'⟩ := hs.purge_each (without_reachedFrom_nothing s w.heap) hwanted
  have huindex : u.IndexCoherent := by
    have hshrinks := forEach_shrinks (fun t h => purge_shrinks t w.heap h) s items
    rw [hu] at hshrinks
    exact hshrinks.keeps .of_loses hindex
  refine ⟨u, hu, hwithout.agrees (hwithout'.congr (reachedFrom_congr fun x => ?_)) htindex huindex⟩
  rw [false_or, hitems x]

/-- The two acquainted persons, and a city. -/
def inTown : List Operation :=
  acquainted ++ [.create { typeName := ⟨"City"⟩, id := some 9 }, .registerNode ⟨3⟩]

theorem inTown_follows :
    (start twoPersons Schema.namedDomain.provider .standard).Follows Schema.namedDomain.typing.Allows
      inTown :=
  ⟨⟨_, rfl, rfl⟩, ⟨_, rfl, rfl⟩, ⟨⟨_, rfl, rfl⟩, rfl⟩, trivial, trivial, ⟨_, rfl, rfl⟩, trivial⟩

theorem node_inTown {i : NativeId} {x : Handle} :
    ((start twoPersons Schema.namedDomain.provider .standard).run inTown).session.nodes.get? i = some x ↔
      (i, x) ∈ [((1 : NativeId), Handle.mk 0), (2, ⟨1⟩), (9, ⟨3⟩)] := by
  have hentries : ((start twoPersons Schema.namedDomain.provider .standard).run
      inTown).session.nodes.entries = [(1, ⟨0⟩), (2, ⟨1⟩), (9, ⟨3⟩)] := by decide +kernel
  rw [Table.get?_eq_some_iff, hentries]

theorem relationship_inTown {i : NativeId} {x : Handle} :
    ((start twoPersons Schema.namedDomain.provider .standard).run inTown).session.relationships.get? i =
      some x ↔ (i, x) = (5, ⟨2⟩) := by
  have hentries : ((start twoPersons Schema.namedDomain.provider .standard).run
      inTown).session.relationships.entries = [(5, ⟨2⟩)] := by decide +kernel
  rw [Table.get?_eq_some_iff, hentries, List.mem_singleton]

/-- All that has a name goes, in whichever order, although the first purge takes the others along. -/
theorem removeType_named :
    let w := (start twoPersons Schema.namedDomain.provider .standard).run inTown
    ∃ t u, w.session.removeType w.heap ⟨"Named"⟩ = ⟨t, .ok ()⟩ ∧
      forEach (fun s h => s.purge w.heap h) w.session [⟨1⟩, ⟨2⟩, ⟨0⟩] = ⟨u, .ok ()⟩ ∧ t.Agrees u ∧
      ∀ x, t.Tracks x → t.provider.isAssignable (w.heap.get x).typeName ⟨"Named"⟩ = .ok false := by
  intro w
  have hholds : Schema.namedDomain.typing.Holds w :=
    Typing.holds_run Schema.namedDomain.typing_borneOut inTown_follows
  have hends : w.session.endpoints (w.heap.get ⟨2⟩) = .ok (some ⟨0⟩, some ⟨1⟩) := by decide +kernel
  obtain ⟨hremove, -⟩ := run_removeType Schema.build_named twoPersons .standard inTown
    w.session.records (fun _ => Iff.rfl) hholds (fun r h k hh hk => by
      obtain ⟨rfl, rfl⟩ := Prod.mk.inj (relationship_inTown.mp hh)
      rcases (endOf_iff hends).mp hk with hk | hk <;> obtain rfl := Option.some.inj hk <;>
        exact ⟨_, rfl, rfl⟩) ⟨"Named"⟩
  have hinstances : ∀ x, x ∈ [Handle.mk 1, ⟨2⟩, ⟨0⟩] ↔ w.session.InstanceOf w.heap ⟨"Named"⟩ x := by
    intro x
    refine Iff.trans ?_ (instanceOf_iff (s := w.session) (provider_run _ inTown) hholds).symm
    constructor
    · intro hx
      simp only [List.mem_cons, List.not_mem_nil, or_false] at hx
      rcases hx with rfl | rfl | rfl
      · exact ⟨⟨.node, 2, node_inTown.mpr (by decide)⟩, by decide +kernel⟩
      · exact ⟨⟨.relationship, 5, relationship_inTown.mpr rfl⟩, by decide +kernel⟩
      · exact ⟨⟨.node, 1, node_inTown.mpr (by decide)⟩, by decide +kernel⟩
    · rintro ⟨⟨reg, i, hx⟩, hfits⟩
      cases reg with
      | node =>
        have hentry := node_inTown.mp hx
        simp only [List.mem_cons, List.not_mem_nil, or_false, Prod.mk.injEq] at hentry
        rcases hentry with ⟨-, rfl⟩ | ⟨-, rfl⟩ | ⟨-, rfl⟩
        · decide
        · decide
        · revert hfits
          decide +kernel
      | relationship =>
        obtain ⟨-, rfl⟩ := Prod.mk.inj (relationship_inTown.mp hx)
        decide
  obtain ⟨t, ht, -, hnone, hsame⟩ := hremove rfl
  obtain ⟨u, hu, hagrees⟩ := hsame [⟨1⟩, ⟨2⟩, ⟨0⟩] hinstances
  exact ⟨t, u, ht, hu, hagrees, hnone⟩

end ObjectGraph.World
