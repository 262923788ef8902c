import ObjectGraph.Proofs.FirstDefect

/-!
# The order of the types

What a domain has been checked for is said of single steps: a parent is declared and of a fitting kind.
Only cycles are looked for along whole paths. From the two together it follows that the types of a
domain are partially ordered by what they may be used as, and that kinds do not mix: whatever a type
reaches by extending, in any number of steps, it might have extended in one (`mayExtend_of_transGen`).

`hierarchy_of_build` puts together all that a domain answers about its hierarchy, as statements on the
declarations that it was built from.
-/

set_option autoImplicit false

namespace ObjectGraph.Schema.Domain

open Relation

variable {declared : List Declaration} {m : Domain} {a b c name target : TypeName}
  {d e : Declaration}

/-! ## Paths -/

/-- Extending never leads back. -/
theorem not_transGen_self (hm : build declared = .ok m) (name : TypeName) :
    ¬ TransGen (Extends declared) name name := by
  intro hpath
  -- the first step of a path is one of a declared type
  obtain ⟨_, hstep, -⟩ := TransGen.head'_iff.mp hpath
  obtain ⟨t, _, ht, -, -⟩ := declared_of_extends hm hstep
  obtain ⟨d, hd, rfl, rfl⟩ := (get?_eq_some_iff hm).mp ht
  have hwell := wellFormed_of_build hm
  exact hwell.acyclic d hd ((mem_ancestors_iff (find?_of_mem hwell.distinct hd)).mpr hpath)

/-- Of two types that reach each other there is one. -/
theorem eq_of_reflTransGen (hm : build declared = .ok m) (hab : ReflTransGen (Extends declared) a b)
    (hba : ReflTransGen (Extends declared) b a) : a = b := by
  rcases reflTransGen_iff_eq_or_transGen.mp hab with rfl | hpath
  · rfl
  · exact absurd (hpath.trans_left hba) (not_transGen_self hm a)

/-- To reach in one step or more is to reach another type. -/
theorem transGen_iff (hm : build declared = .ok m) :
    TransGen (Extends declared) a b ↔ a ≠ b ∧ ReflTransGen (Extends declared) a b := by
  constructor
  · intro hpath
    refine ⟨?_, hpath.to_reflTransGen⟩
    rintro rfl
    exact not_transGen_self hm a hpath
  · rintro ⟨hne, hpath⟩
    exact (reflTransGen_iff_eq_or_transGen.mp hpath).resolve_left hne.symm

/-- One step up leads to a type that may be extended. -/
theorem mayExtend_of_extends (hm : build declared = .ok m) (hd : d ∈ declared)
    (h : Extends declared d.name a) : MayExtend declared d a := by
  have hwell := wellFormed_of_build hm
  rw [Extends, parentsOf, find?_of_mem hwell.distinct hd] at h
  exact (mayExtend_iff hwell.distinct).mpr (hwell.parents d hd a h)

/-- Whatever a type reaches it might extend itself: the kinds along a path are that of the first type,
until the path comes to interfaces and stays there. -/
theorem mayExtend_of_transGen (hm : build declared = .ok m) (hd : d ∈ declared)
    (hpath : TransGen (Extends declared) d.name a) : MayExtend declared d a := by
  induction hpath with
  | single hstep => exact mayExtend_of_extends hm hd hstep
  | tail _ hstep ih =>
    obtain ⟨e, he, rfl, hkind⟩ := ih
    obtain ⟨f, hf, hname, hkind'⟩ := mayExtend_of_extends hm he hstep
    refine ⟨f, hf, hname, ?_⟩
    rcases hkind' with hinterface | hsame
    · exact .inl hinterface
    · rw [hsame]
      exact hkind

theorem eq_of_name (hm : build declared = .ok m) (hd : d ∈ declared) (he : e ∈ declared)
    (hname : d.name = e.name) : d = e :=
  List.inj_on_of_nodup_map (wellFormed_of_build hm).distinct hd he hname

/-- What is below a concrete type is of its kind. -/
theorem kind_of_transGen (hm : build declared = .ok m) (hd : d ∈ declared)
    (hconcrete : d.kind ≠ .interface) (he : e ∈ declared)
    (hpath : TransGen (Extends declared) e.name d.name) : d.kind = e.kind := by
  obtain ⟨f, hf, hname, hkind⟩ := mayExtend_of_transGen hm he hpath
  obtain rfl := eq_of_name hm hf hd hname
  exact hkind.resolve_left hconcrete

/-! ## What a domain answers -/

theorem contains_iff (hm : build declared = .ok m) :
    m.contains name = true ↔ ∃ d ∈ declared, d.name = name := by
  rw [Domain.contains, Table.contains_iff, Table.keys, entries_of_build hm, List.map_map]
  exact List.mem_map

theorem typeInfo_of_mem (hm : build declared = .ok m) (hd : d ∈ declared) :
    m.typeInfo d.name = .ok (describe declared d) := by
  rw [typeInfo, (get?_eq_some_iff hm).mpr ⟨d, hd, rfl, rfl⟩]

/-- A type may be used as another if it is declared and reaches the other. -/
theorem isAssignable_iff (hm : build declared = .ok m) :
    m.provider.isAssignable a b = .ok true ↔
      (∃ d ∈ declared, d.name = a) ∧ ReflTransGen (Extends declared) a b := by
  rw [← contains_iff hm, ← assignable_iff hm]
  cases hin : m.contains a with
  | true => rw [isAssignable_provider hin, Except.ok.injEq]
  | false =>
    have hrefused : m.provider.isAssignable a b = .error (.unknownType a) :=
      map_typeInfo_of_undeclared hin _
    have hno : ¬ m.assignable a b = true := by
      rw [assignable_iff hm, hin]
      simp
    simp [hrefused, hno]

/-- The concrete types below a type are named in the order in which they are declared. -/
theorem implementors_sublist (hm : build declared = .ok m) (target : TypeName) :
    ((m.implementors target).map TypeInfo.name).Sublist (declared.map Declaration.name) := by
  have hnames : m.types.values.map TypeInfo.name = declared.map Declaration.name := by
    rw [Table.values, entries_of_build hm, List.map_map, List.map_map]
    rfl
  rw [← hnames]
  exact List.filter_sublist.map TypeInfo.name

/-- The implementors of a type are the descriptions of the concrete types that reach it. -/
theorem mem_implementors_iff_declared (hm : build declared = .ok m) {t : TypeInfo} :
    t ∈ m.implementors target ↔ ∃ d ∈ declared, describe declared d = t ∧ d.kind ≠ .interface ∧
      TransGen (Extends declared) d.name target := by
  rw [mem_implementors_iff hm]
  constructor
  · rintro ⟨hget, hconcrete, hancestor⟩
    have hpath := (mem_ancestors_of_get? hm hget).mp hancestor
    obtain ⟨d, hd, hname, rfl⟩ := (get?_eq_some_iff hm).mp hget
    exact ⟨d, hd, rfl, of_decide_eq_false hconcrete, hpath⟩
  · rintro ⟨d, hd, rfl, hconcrete, hpath⟩
    have hget : m.get? d.name = some (describe declared d) :=
      (get?_eq_some_iff hm).mpr ⟨d, hd, rfl, rfl⟩
    exact ⟨hget, decide_eq_false hconcrete, (mem_ancestors_of_get? hm hget).mpr hpath⟩

theorem mem_implementors_names_iff (hm : build declared = .ok m) :
    c ∈ (m.implementors target).map TypeInfo.name ↔
      ∃ d ∈ declared, d.name = c ∧ d.kind ≠ .interface ∧ TransGen (Extends declared) c target := by
  simp only [List.mem_map, mem_implementors_iff_declared hm]
  constructor
  · rintro ⟨_, ⟨d, hd, rfl, hconcrete, hpath⟩, rfl⟩
    exact ⟨d, hd, rfl, hconcrete, hpath⟩
  · rintro ⟨d, hd, rfl, hconcrete, hpath⟩
    exact ⟨describe declared d, ⟨d, hd, rfl, hconcrete, hpath⟩, rfl⟩

/-- A question for an end is answered where a type is declared that has the end. -/
theorem end_eq_ok_iff (hm : build declared = .ok m) (side : TypeInfo → Option Field) {f : Field} :
    (m.typeInfo name).bind (fun t => Provider.orNotARelationship name (side t)) = .ok f ↔
      ∃ d ∈ declared, d.name = name ∧ side (describe declared d) = some f := by
  have hanswer : ∀ field : Option Field, Provider.orNotARelationship name field = .ok f ↔
      field = some f := by
    intro field
    cases field <;> simp [Provider.orNotARelationship]
  cases hget : m.get? name with
  | none =>
    have hno : ¬ ∃ d ∈ declared, d.name = name ∧ side (describe declared d) = some f := by
      rintro ⟨d, hd, rfl, -⟩
      rw [(get?_eq_some_iff hm).mpr ⟨d, hd, rfl, rfl⟩] at hget
      cases hget
    simp [typeInfo, hget, hno, Except.bind]
  | some t =>
    have hbind : (m.typeInfo name).bind (fun t => Provider.orNotARelationship name (side t)) =
        Provider.orNotARelationship name (side t) := by
      rw [typeInfo, hget]
      rfl
    rw [hbind, hanswer]
    constructor
    · intro hside
      obtain ⟨d, hd, hname, rfl⟩ := (get?_eq_some_iff hm).mp hget
      exact ⟨d, hd, hname, hside⟩
    · rintro ⟨d, hd, rfl, hside⟩
      rw [(get?_eq_some_iff hm).mpr ⟨d, hd, rfl, rfl⟩] at hget
      obtain rfl := Option.some.inj hget
      exact hside

theorem startField_eq_ok_iff (hm : build declared = .ok m) {f : Field} :
    m.provider.startField name = .ok f ↔
      ∃ d ∈ declared, d.name = name ∧ ∃ start stop, d.role = .relationship start stop ∧
        f = .reference start := by
  refine (end_eq_ok_iff hm TypeInfo.startField).trans ?_
  refine exists_congr fun d => and_congr_right fun _ => and_congr_right fun _ => ?_
  rw [TypeInfo.startField, describe]
  cases d.role <;> simp [eq_comm]

theorem endField_eq_ok_iff (hm : build declared = .ok m) {f : Field} :
    m.provider.endField name = .ok f ↔
      ∃ d ∈ declared, d.name = name ∧ ∃ start stop, d.role = .relationship start stop ∧
        f = .reference stop := by
  refine (end_eq_ok_iff hm TypeInfo.endField).trans ?_
  refine exists_congr fun d => and_congr_right fun _ => and_congr_right fun _ => ?_
  rw [TypeInfo.endField, describe]
  cases d.role <;> simp [eq_comm]

/-- **A domain knows its hierarchy from end to end.** Of every list of declarations that makes up a
domain: the ancestors of a type are the names that it reaches by extending in one step or more. A
declared type may be used as another exactly if it reaches it in any number of steps, which orders the
declared types partially. The implementing types of a declared type are the other concrete types that
may be used as it, each once and in the order of the declarations. What a type reaches is declared, and
an interface or of the kind of the type, so an interface where the type is one. And the ends of a type
can be told exactly if it is declared as a relationship, and are those of its own declaration. -/
theorem hierarchy_of_build (hm : build declared = .ok m) :
    (∀ d ∈ declared, ∃ t, m.typeInfo d.name = .ok t ∧
      ∀ a, a ∈ t.ancestors ↔ TransGen (Extends declared) d.name a) ∧
    (∀ d ∈ declared, ∀ b, ∃ answer, m.provider.isAssignable d.name b = .ok answer ∧
      (answer = true ↔ ReflTransGen (Extends declared) d.name b)) ∧
    ((∀ d ∈ declared, m.provider.isAssignable d.name d.name = .ok true) ∧
      (∀ a b c, m.provider.isAssignable a b = .ok true → m.provider.isAssignable b c = .ok true →
        m.provider.isAssignable a c = .ok true) ∧
      ∀ a b, m.provider.isAssignable a b = .ok true → m.provider.isAssignable b a = .ok true →
        a = b) ∧
    (∀ d ∈ declared, ∃ names, m.provider.implementingTypes d.name = .ok names ∧ names.Nodup ∧
      names.Sublist (declared.map Declaration.name) ∧
      ∀ c, c ∈ names ↔ c ≠ d.name ∧ m.provider.isAssignable c d.name = .ok true ∧
        ∃ e ∈ declared, e.name = c ∧ e.kind ≠ .interface) ∧
    (∀ d ∈ declared, ∀ a, TransGen (Extends declared) d.name a →
      ∃ e ∈ declared, e.name = a ∧ (e.kind = .interface ∨ e.kind = d.kind)) ∧
    ∀ name f,
      (m.provider.startField name = .ok f ↔ ∃ d ∈ declared, d.name = name ∧
        ∃ start stop, d.role = .relationship start stop ∧ f = .reference start) ∧
      (m.provider.endField name = .ok f ↔ ∃ d ∈ declared, d.name = name ∧
        ∃ start stop, d.role = .relationship start stop ∧ f = .reference stop) := by
  refine ⟨fun d hd => ?_, fun d hd b => ?_,
    ⟨fun d hd => ?_, fun a b c hab hbc => ?_, fun a b hab hba => ?_⟩, fun d hd => ?_,
    fun d hd a hpath => mayExtend_of_transGen hm hd hpath,
    fun name f => ⟨startField_eq_ok_iff hm, endField_eq_ok_iff hm⟩⟩
  · have hget : m.get? d.name = some (describe declared d) :=
      (get?_eq_some_iff hm).mpr ⟨d, hd, rfl, rfl⟩
    exact ⟨describe declared d, typeInfo_of_mem hm hd, fun a => mem_ancestors_of_get? hm hget⟩
  · have hin : m.contains d.name = true := (contains_iff hm).mpr ⟨d, hd, rfl⟩
    refine ⟨m.assignable d.name b, isAssignable_provider hin b, ?_⟩
    rw [assignable_iff hm]
    exact and_iff_right hin
  · exact (isAssignable_iff hm).mpr ⟨⟨d, hd, rfl⟩, .refl⟩
  · rw [isAssignable_iff hm] at hab hbc ⊢
    exact ⟨hab.1, hab.2.trans hbc.2⟩
  · rw [isAssignable_iff hm] at hab hba
    exact eq_of_reflTransGen hm hab.2 hba.2
  · have hsublist := implementors_sublist hm d.name
    refine ⟨_, ?_, hsublist.nodup (wellFormed_of_build hm).distinct, hsublist, fun c => ?_⟩
    · exact map_typeInfo ((get?_eq_some_iff hm).mpr ⟨d, hd, rfl, rfl⟩) _
    · rw [mem_implementors_names_iff hm, transGen_iff hm, isAssignable_iff hm]
      constructor
      · rintro ⟨e, he, rfl, hconcrete, hne, hpath⟩
        exact ⟨hne, ⟨⟨e, he, rfl⟩, hpath⟩, e, he, rfl, hconcrete⟩
      · rintro ⟨hne, ⟨-, hpath⟩, e, he, rfl, hconcrete⟩
        exact ⟨e, he, rfl, hconcrete, hne, hpath⟩

/-- To befriend somebody is to know them, but it has ends of its own. It is declared before what it
extends, and has a name by itself and by the acquaintance. -/
def befriending : List Declaration :=
  { name := ⟨"Befriends"⟩, role := .relationship "who" "whom", parents := [⟨"Knows"⟩, ⟨"Named"⟩] } ::
    named

def befriendingDomain : Domain :=
  ⟨.ofList (befriending.map fun d => (d.name, describe befriending d))⟩

theorem build_befriending : build befriending = .ok befriendingDomain := by
  have hsound : firstDefect? befriending = none := by decide +kernel
  rw [build_eq, hsound]
  rfl

/-- It may be used as what has a name, and not the other way round. It implements the name, and it
does not take over the ends of the acquaintance. -/
theorem hierarchy_of_befriending :
    befriendingDomain.provider.isAssignable ⟨"Befriends"⟩ ⟨"Named"⟩ = .ok true ∧
      befriendingDomain.provider.isAssignable ⟨"Named"⟩ ⟨"Befriends"⟩ ≠ .ok true ∧
      (∃ names, befriendingDomain.provider.implementingTypes ⟨"Named"⟩ = .ok names ∧
        ⟨"Befriends"⟩ ∈ names ∧ ⟨"Named"⟩ ∉ names) ∧
      befriendingDomain.provider.startField ⟨"Befriends"⟩ = .ok (.reference "who") ∧
      befriendingDomain.provider.startField ⟨"Knows"⟩ = .ok (.reference "from") := by
  obtain ⟨-, hanswers, ⟨-, -, hantisymm⟩, himplementors, -, hends⟩ :=
    hierarchy_of_build build_befriending
  obtain ⟨hbefriends, hknows, hnamed⟩ : (∃ d ∈ befriending, d.name = ⟨"Befriends"⟩ ∧
      d.role = .relationship "who" "whom") ∧ (∃ d ∈ befriending, d.name = ⟨"Knows"⟩ ∧
      d.role = .relationship "from" "to") ∧ ∃ d ∈ befriending, d.name = ⟨"Named"⟩ := by decide
  obtain ⟨d, hd, hname, hrole⟩ := hbefriends
  obtain ⟨e, he, hename, herole⟩ := hknows
  obtain ⟨i, hi, hiname⟩ := hnamed
  have hpath : ReflTransGen (Extends befriending) d.name ⟨"Named"⟩ := by
    have hstep : ⟨"Named"⟩ ∈ parentsOf befriending ⟨"Befriends"⟩ := by decide
    exact .single (hname ▸ hstep)
  have hup : befriendingDomain.provider.isAssignable ⟨"Befriends"⟩ ⟨"Named"⟩ = .ok true := by
    obtain ⟨answer, hanswer, hiff⟩ := hanswers d hd ⟨"Named"⟩
    rw [← hname, hanswer, hiff.mpr hpath]
  obtain ⟨names, hnames, -, -, hmem⟩ := himplementors i hi
  rw [hiname] at hnames hmem
  refine ⟨hup, fun hdown => ?_, ⟨names, hnames, (hmem _).mpr ⟨by decide, hup, d, hd, hname, ?_⟩, ?_⟩,
    ?_, ?_⟩
  · exact absurd (hantisymm _ _ hup hdown) (by decide)
  · rw [Declaration.kind, hrole]
    decide
  · exact fun hin => ((hmem _).mp hin).1 rfl
  · exact (hends _ _).1.mpr ⟨d, hd, hname, "who", "whom", hrole, rfl⟩
  · exact (hends _ _).1.mpr ⟨e, he, hename, "from", "to", herole, rfl⟩

end ObjectGraph.Schema.Domain
