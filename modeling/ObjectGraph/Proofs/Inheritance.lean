import ObjectGraph.Proofs.Building
import ObjectGraph.Schema.Provider
import Mathlib.Data.List.Nodup
import Mathlib.Logic.Relation

/-!
# What a domain inherits

The walk for ancestors goes through the declared parents with a stack of names still to be looked at. It
finds neither more nor less than what a type reaches by extending in one step or more
(`mem_ancestors_iff`).

A list of declarations makes up a domain exactly when it is `WellFormed`: names are declared once,
parents are declared and of a fitting kind, only node types have an index, and nothing extends itself.
These are conditions on single steps. What they give along whole paths is what sessions rely on: being
assignable (`Domain.assignable`) is transitive, leads to declared types only, and below a concrete type
there are only types of its kind (`Domain.kind_of_assignable`).
-/

set_option autoImplicit false

namespace ObjectGraph.Schema

/-! ## The walk -/

/-- One declared step up. -/
def Extends (declared : List Declaration) (name parent : TypeName) : Prop :=
  parent ∈ parentsOf declared name

section Walk

variable {declared : List Declaration} {stack : List TypeName} {found : NameSet .entity}
  {name : TypeName}

/-- Whatever is on the stack is found. -/
theorem mem_reach_of_stack (h : name ∈ stack) : name ∈ reach declared stack found := by
  fun_induction reach declared stack found with
  | case1 found => exact absurd h List.not_mem_nil
  | case2 found next rest hin ih =>
    rcases List.mem_cons.mp h with rfl | h
    · exact mem_reach_of_found hin
    · exact ih h
  | case3 found next rest hnew ih =>
    rcases List.mem_cons.mp h with rfl | h
    · exact mem_reach_of_found (NameSet.mem_insert.mpr (.inl rfl))
    · exact ih (List.mem_append_right _ h)

/-- What is found was found before, or lies on a path from something on the stack. -/
theorem path_of_mem_reach (h : name ∈ reach declared stack found) :
    name ∈ found ∨ ∃ p ∈ stack, Relation.ReflTransGen (Extends declared) p name := by
  fun_induction reach declared stack found with
  | case1 found => exact .inl h
  | case2 found next rest hin ih =>
    refine (ih h).imp id ?_
    rintro ⟨p, hp, hpath⟩
    exact ⟨p, List.mem_cons_of_mem _ hp, hpath⟩
  | case3 found next rest hnew ih =>
    rcases ih h with hin | ⟨p, hp, hpath⟩
    · rcases NameSet.mem_insert.mp hin with rfl | hin
      · exact .inr ⟨name, List.mem_cons_self, .refl⟩
      · exact .inl hin
    · right
      rcases List.mem_append.mp hp with hp | hp
      · exact ⟨next, List.mem_cons_self, .head (List.mem_reverse.mp hp) hpath⟩
      · exact ⟨p, List.mem_cons_of_mem _ hp, hpath⟩

/-- As long as the parents of what is found are found or on the stack, the search ends with a set that holds
the parents of all its members. -/
theorem reach_closed (hclosed : ∀ n ∈ found, ∀ p, Extends declared n p → p ∈ found ∨ p ∈ stack)
    (h : name ∈ reach declared stack found) {parent : TypeName} (hp : Extends declared name parent) :
    parent ∈ reach declared stack found := by
  fun_induction reach declared stack found with
  | case1 found => exact (hclosed name h parent hp).resolve_right List.not_mem_nil
  | case2 found next rest hin ih =>
    refine ih (fun n hn p hnp => ?_) h
    rcases hclosed n hn p hnp with hfound | hstack
    · exact .inl hfound
    · rcases List.mem_cons.mp hstack with rfl | hrest
      · exact .inl hin
      · exact .inr hrest
  | case3 found next rest hnew ih =>
    refine ih (fun n hn p hnp => ?_) h
    rcases NameSet.mem_insert.mp hn with rfl | hn
    · exact .inr (List.mem_append_left _ (List.mem_reverse.mpr hnp))
    · rcases hclosed n hn p hnp with hfound | hstack
      · exact .inl (NameSet.mem_insert.mpr (.inr hfound))
      · rcases List.mem_cons.mp hstack with rfl | hrest
        · exact .inl (NameSet.mem_insert.mpr (.inl rfl))
        · exact .inr (List.mem_append_right _ hrest)

/-- The ancestors of a declared type are what it reaches by extending in one step or more. -/
theorem mem_ancestors_iff {d : Declaration} (hd : find? declared d.name = some d) :
    name ∈ ancestors declared d ↔ Relation.TransGen (Extends declared) d.name name := by
  have hparents : parentsOf declared d.name = d.parents := by rw [parentsOf, hd]
  constructor
  · intro h
    rcases path_of_mem_reach h with hin | ⟨p, hp, hpath⟩
    · exact absurd hin (NameSet.not_mem_empty name)
    · rw [List.mem_reverse, ← hparents] at hp
      exact .head' hp hpath
  · intro h
    induction h with
    | single hstep => exact mem_reach_of_stack (List.mem_reverse.mpr (hparents ▸ hstep))
    | tail _ hstep ih =>
      exact reach_closed (fun n hn => absurd hn (NameSet.not_mem_empty n)) ih hstep

end Walk

/-! ## Declarations that fit together -/

/-- The declarations make up a domain. -/
structure WellFormed (declared : List Declaration) : Prop where
  distinct : (declared.map Declaration.name).Nodup
  parents : ∀ d ∈ declared, ∀ p ∈ d.parents,
    ∃ e, find? declared p = some e ∧ d.kind.mayExtend e.kind = true
  index : ∀ d ∈ declared, d.kind = .node ∨ d.index = none
  acyclic : ∀ d ∈ declared, d.name ∉ ancestors declared d

theorem repetition?_eq_none_iff {declared : List Declaration} {seen : List TypeName} :
    repetition? seen declared = none ↔
      (declared.map Declaration.name).Nodup ∧ ∀ d ∈ declared, d.name ∉ seen := by
  induction declared generalizing seen with
  | nil => simp [repetition?]
  | cons d rest ih =>
    rw [repetition?]
    split
    next hseen => simp [hseen]
    next hnew =>
      rw [ih, List.map_cons, List.nodup_cons]
      constructor
      · rintro ⟨hrest, hout⟩
        refine ⟨⟨fun hmem => ?_, hrest⟩, List.forall_mem_cons.mpr ⟨hnew, fun e he hin => ?_⟩⟩
        · obtain ⟨e, he, hname⟩ := List.mem_map.mp hmem
          exact hout e he (hname ▸ List.mem_cons_self)
        · exact hout e he (List.mem_cons_of_mem _ hin)
      · rintro ⟨⟨hd, hrest⟩, hout⟩
        refine ⟨hrest, fun e he hin => ?_⟩
        rcases List.mem_cons.mp hin with hname | hin
        · exact hd (hname ▸ List.mem_map_of_mem he)
        · exact hout e (List.mem_cons_of_mem _ he) hin

theorem parentDefect?_eq_none_iff {declared : List Declaration} {d : Declaration}
    {parent : TypeName} : parentDefect? declared d parent = none ↔
      ∃ e, find? declared parent = some e ∧ d.kind.mayExtend e.kind = true := by
  unfold parentDefect?
  split
  next hnone => simp [hnone]
  next p hp => simp [hp]

theorem declarationDefect?_eq_none_iff {declared : List Declaration} {d : Declaration} :
    declarationDefect? declared d = none ↔
      (∀ p ∈ d.parents, ∃ e, find? declared p = some e ∧ d.kind.mayExtend e.kind = true) ∧
        (d.kind = .node ∨ d.index = none) := by
  rw [declarationDefect?, Option.or_eq_none_iff, List.findSome?_eq_none_iff]
  refine and_congr (forall₂_congr fun p _ => parentDefect?_eq_none_iff) ?_
  cases d.index <;> simp

theorem cycleDefect?_eq_none_iff {declared : List Declaration} {d : Declaration} :
    cycleDefect? declared d = none ↔ d.name ∉ ancestors declared d := by
  simp [cycleDefect?]

/-- A list of declarations has no defect exactly when it makes up a domain. -/
theorem firstDefect?_eq_none_iff {declared : List Declaration} :
    firstDefect? declared = none ↔ WellFormed declared := by
  simp only [firstDefect?, misfit?, Option.or_eq_none_iff, List.findSome?_eq_none_iff,
    cycleDefect?_eq_none_iff, declarationDefect?_eq_none_iff, repetition?_eq_none_iff,
    List.not_mem_nil, not_false_eq_true, implies_true, and_true]
  constructor
  · rintro ⟨⟨hdistinct, hfit⟩, hacyclic⟩
    exact ⟨hdistinct, fun d hd => (hfit d hd).1, fun d hd => (hfit d hd).2, hacyclic⟩
  · intro h
    exact ⟨⟨h.distinct, fun d hd => ⟨h.parents d hd, h.index d hd⟩⟩, h.acyclic⟩

/-- Where names are declared once, a declaration is found under its name. -/
theorem find?_of_mem {declared : List Declaration} (h : (declared.map Declaration.name).Nodup)
    {d : Declaration} (hd : d ∈ declared) : find? declared d.name = some d := by
  cases hfound : find? declared d.name with
  | none => simpa using List.find?_eq_none.mp hfound d hd
  | some e =>
    have hname : e.name = d.name := find?_name hfound
    exact congrArg some (List.inj_on_of_nodup_map h (mem_of_find? hfound) hd hname)

/-! ## The description of a type -/

namespace Domain

variable {declared : List Declaration} {m : Domain}

theorem wellFormed_of_build (hm : build declared = .ok m) : WellFormed declared := by
  refine firstDefect?_eq_none_iff.mp ?_
  cases hfirst : firstDefect? declared with
  | none => rfl
  | some defect =>
    rw [build_eq, hfirst] at hm
    cases hm

/-- A domain keeps the declared types in the order of their declaration. -/
theorem entries_of_build (hm : build declared = .ok m) :
    m.types.entries = declared.map fun d => (d.name, describe declared d) := by
  have hwell := wellFormed_of_build hm
  rw [build_eq, firstDefect?_eq_none_iff.mpr hwell] at hm
  obtain rfl := Except.ok.inj hm
  refine Table.entries_ofList ?_
  rw [List.pairwise_map]
  exact List.pairwise_map.mp hwell.distinct

/-- The description of a name is that of its declaration. -/
theorem get?_eq_some_iff (hm : build declared = .ok m) {name : TypeName} {t : TypeInfo} :
    m.get? name = some t ↔ ∃ d ∈ declared, d.name = name ∧ t = describe declared d := by
  rw [Domain.get?, Table.get?_eq_some_iff, entries_of_build hm, List.mem_map]
  refine exists_congr fun d => and_congr_right fun _ => ?_
  rw [Prod.mk.injEq, eq_comm (a := t)]

theorem name_of_get? (hm : build declared = .ok m) {name : TypeName} {t : TypeInfo}
    (ht : m.get? name = some t) : t.name = name := by
  obtain ⟨d, -, rfl, rfl⟩ := (get?_eq_some_iff hm).mp ht
  rfl

theorem mem_ancestors_of_get? (hm : build declared = .ok m) {name ancestor : TypeName}
    {t : TypeInfo} (ht : m.get? name = some t) :
    ancestor ∈ t.ancestors ↔ Relation.TransGen (Extends declared) name ancestor := by
  obtain ⟨d, hd, rfl, rfl⟩ := (get?_eq_some_iff hm).mp ht
  exact mem_ancestors_iff (find?_of_mem (wellFormed_of_build hm).distinct hd)

/-- One step up leads from a declared type to a declared type that it may extend. -/
theorem declared_of_extends (hm : build declared = .ok m) {name parent : TypeName}
    (h : Extends declared name parent) :
    ∃ t p, m.get? name = some t ∧ m.get? parent = some p ∧ t.kind.mayExtend p.kind = true := by
  unfold Extends parentsOf at h
  split at h
  next d hd =>
    obtain ⟨e, he, hfits⟩ := (wellFormed_of_build hm).parents d (mem_of_find? hd) parent h
    exact ⟨describe declared d, describe declared e,
      (get?_eq_some_iff hm).mpr ⟨d, mem_of_find? hd, find?_name hd, rfl⟩,
      (get?_eq_some_iff hm).mpr ⟨e, mem_of_find? he, find?_name he, rfl⟩, hfits⟩
  next => exact absurd h List.not_mem_nil

/-! ## Assignable types -/

/-- An instance of the first type, which is declared, may be used where the second is expected. -/
def assignable (m : Domain) (name target : TypeName) : Bool :=
  (m.get? name).any fun t => t.isAssignableTo target

/-- The answer of a domain on a declared type. -/
theorem isAssignable_provider {name : TypeName} (h : m.contains name = true) (target : TypeName) :
    m.provider.isAssignable name target = .ok (m.assignable name target) := by
  obtain ⟨t, ht⟩ := Option.isSome_iff_exists.mp h
  have ht : m.get? name = some t := ht
  rw [assignable, ht]
  exact map_typeInfo ht _

/-- Being assignable is reaching by extending in any number of steps. -/
theorem assignable_iff (hm : build declared = .ok m) {name target : TypeName} :
    m.assignable name target = true ↔
      m.contains name = true ∧ Relation.ReflTransGen (Extends declared) name target := by
  have hcontains : m.contains name = (m.get? name).isSome := rfl
  rw [assignable, hcontains]
  cases ht : m.get? name with
  | none => simp
  | some t =>
    rw [Option.any_some, Option.isSome_some, TypeInfo.isAssignableTo, Bool.or_eq_true,
      decide_eq_true_iff, decide_eq_true_iff, name_of_get? hm ht, mem_ancestors_of_get? hm ht,
      Relation.reflTransGen_iff_eq_or_transGen, eq_comm (a := target)]
    exact (and_iff_right rfl).symm

theorem assignable_self (hm : build declared = .ok m) {name : TypeName}
    (h : m.contains name = true) : m.assignable name name = true :=
  (assignable_iff hm).mpr ⟨h, .refl⟩

theorem assignable_trans (hm : build declared = .ok m) {a b c : TypeName}
    (hab : m.assignable a b = true) (hbc : m.assignable b c = true) : m.assignable a c = true := by
  rw [assignable_iff hm] at hab hbc ⊢
  exact ⟨hab.1, hab.2.trans hbc.2⟩

/-- A type is assignable to declared types only. -/
theorem contains_of_assignable (hm : build declared = .ok m) {name target : TypeName}
    (h : m.assignable name target = true) : m.contains target = true := by
  obtain ⟨hname, hpath⟩ := (assignable_iff hm).mp h
  rcases Relation.ReflTransGen.cases_tail hpath with rfl | ⟨c, -, hstep⟩
  · exact hname
  · obtain ⟨-, u, -, hu, -⟩ := declared_of_extends hm hstep
    exact Option.isSome_iff_exists.mpr ⟨u, hu⟩

/-- Only types of its own kind are assignable to a concrete type. -/
theorem kind_of_assignable (hm : build declared = .ok m) {name target : TypeName} {t u : TypeInfo}
    (ht : m.get? name = some t) (hu : m.get? target = some u) (hconcrete : u.isInterface = false)
    (h : m.assignable name target = true) : t.kind = u.kind := by
  have hpath := ((assignable_iff hm).mp h).2
  -- from the target downwards: below a concrete type there is a concrete type of the same kind
  clear h
  induction hpath generalizing u with
  | refl => rw [Option.some.inj (ht.symm.trans hu)]
  | tail _ hstep ih =>
    obtain ⟨v, w, hv, hw, hfits⟩ := declared_of_extends hm hstep
    obtain rfl := Option.some.inj (hw.symm.trans hu)
    have hkind : v.kind = w.kind := by
      rw [TypeInfo.isInterface, decide_eq_false_iff_not] at hconcrete
      revert hfits hconcrete
      cases v.kind <;> cases w.kind <;> simp [Kind.mayExtend]
    have hconcrete' : v.isInterface = false := by
      rw [TypeInfo.isInterface, hkind]
      exact hconcrete
    exact (ih hv hconcrete').trans hkind

/-- The implementors of a type are the concrete types with it among their ancestors. -/
theorem mem_implementors_iff (hm : build declared = .ok m) {name : TypeName} {t : TypeInfo} :
    t ∈ m.implementors name ↔
      m.get? t.name = some t ∧ t.isInterface = false ∧ name ∈ t.ancestors := by
  have hvalues : t ∈ m.types.values ↔ m.get? t.name = some t := by
    rw [Domain.get?, Table.get?_eq_some_iff, Table.values, entries_of_build hm, List.map_map,
      List.mem_map, List.mem_map]
    refine exists_congr fun d => and_congr_right fun _ => ?_
    constructor
    · rintro rfl
      rfl
    · exact fun h => (Prod.mk.inj h).2
  simp [implementors, hvalues]

end Domain

/-! ## A small hierarchy -/

/-- Persons and what they know of each other have names, and cities do not count among them. An
employee is found by the name of a person. -/
def named : List Declaration :=
  [{ name := ⟨"Named"⟩, role := .interface },
    { name := ⟨"Person"⟩, role := .node, parents := [⟨"Named"⟩], index := some "name" },
    { name := ⟨"Employee"⟩, role := .node, parents := [⟨"Person"⟩] },
    { name := ⟨"Knows"⟩, role := .relationship "from" "to", parents := [⟨"Named"⟩] },
    { name := ⟨"City"⟩, role := .node }]

def namedDomain : Domain := ⟨.ofList (named.map fun d => (d.name, describe named d))⟩

theorem build_named : Domain.build named = .ok namedDomain := by
  have hsound : firstDefect? named = none := by decide +kernel
  rw [Domain.build_eq, hsound]
  rfl

end ObjectGraph.Schema
