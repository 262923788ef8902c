import ObjectGraph.Proofs.ContentEquality
import ObjectGraph.Proofs.FirstDefect
import ObjectGraph.Proofs.Hierarchy
import ObjectGraph.Proofs.NearestIndex

/-!
# The order of declarations

A declaration is looked up by its name, and names are declared once. So of a list of declarations all
that matters is what it holds: in another order it makes up a domain just the same, with the same
description of each type (`Domain.build_of_perm`). The parents of one declaration are in order, and that
order does matter: it decides between primary indexes that are equally near
(`Domain.indexField_of_build`).
-/

set_option autoImplicit false

namespace ObjectGraph.Schema

open Relation

variable {declared declared' : List Declaration}

/-! ## What is looked up by name -/

/-- Where names are declared once, the order of declarations does not show in what is looked up. -/
theorem find?_eq_of_perm (hdistinct : (declared.map Declaration.name).Nodup)
    (hperm : declared.Perm declared') (name : TypeName) :
    find? declared name = find? declared' name := by
  have hdistinct' := (hperm.map Declaration.name).nodup hdistinct
  cases hfound : find? declared name with
  | none =>
    symm
    apply List.find?_eq_none.mpr
    intro d hd
    exact List.find?_eq_none.mp hfound d (hperm.mem_iff.mpr hd)
  | some d =>
    rw [← find?_name hfound]
    exact (find?_of_mem hdistinct' (hperm.mem_iff.mp (mem_of_find? hfound))).symm

section Congr

variable (hsame : ∀ name, find? declared name = find? declared' name)

include hsame

theorem parentsOf_congr (name : TypeName) : parentsOf declared name = parentsOf declared' name := by
  rw [parentsOf, parentsOf, hsame]

theorem extends_congr : Extends declared = Extends declared' := by
  funext name parent
  rw [Extends, Extends, parentsOf_congr hsame]

theorem unseenParents_congr (parents : List TypeName) (seen : NameSet .entity) :
    unseenParents declared parents seen = unseenParents declared' parents seen := by
  induction parents generalizing seen with
  | nil => rfl
  | cons name rest ih => rw [unseenParents, unseenParents, ih, ih, hsame]

theorem nearestIndex_congr (queue : List Declaration) (seen : NameSet .entity) :
    nearestIndex declared queue seen = nearestIndex declared' queue seen := by
  fun_induction nearestIndex declared queue seen with
  | case1 => rw [nearestIndex]
  | case2 seen d rest key hindex => rw [nearestIndex, hindex]
  | case3 seen d rest hindex ih => rw [nearestIndex, hindex, ih, unseenParents_congr hsame]

theorem ancestors_congr {d : Declaration} (hd : find? declared d.name = some d) :
    ancestors declared d = ancestors declared' d := by
  have hd' : find? declared' d.name = some d := hsame d.name ▸ hd
  refine NameSet.ext_mem fun name => ?_
  rw [mem_ancestors_iff hd, mem_ancestors_iff hd', extends_congr hsame]

/-- A declaration is described by what is looked up. -/
theorem describe_congr {d : Declaration} (hd : find? declared d.name = some d) :
    describe declared d = describe declared' d := by
  have hindex : primaryIndex declared d = primaryIndex declared' d := by
    rw [primaryIndex, primaryIndex, nearestIndex_congr hsame]
  rw [describe, describe, hindex, ancestors_congr hsame hd]

end Congr

/-- Declarations fit together in any order. -/
theorem WellFormed.of_perm (h : WellFormed declared) (hperm : declared.Perm declared') :
    WellFormed declared' := by
  have hsame := find?_eq_of_perm h.distinct hperm
  refine ⟨(hperm.map Declaration.name).nodup h.distinct, fun d hd p hp => ?_,
    fun d hd => h.index d (hperm.mem_iff.mpr hd), fun d hd => ?_⟩
  · rw [← hsame]
    exact h.parents d (hperm.mem_iff.mpr hd) p hp
  · have hd := hperm.mem_iff.mpr hd
    rw [← ancestors_congr hsame (find?_of_mem h.distinct hd)]
    exact h.acyclic d hd

namespace Domain

variable {m : Domain}

theorem exists_build_iff : (∃ m, build declared = .ok m) ↔ WellFormed declared :=
  build_eq_ok_iff.trans firstDefect?_eq_none_iff

/-- Another order gives a domain that answers the same of each type. -/
theorem build_of_perm (hm : build declared = .ok m) (hperm : declared.Perm declared') :
    ∃ m', build declared' = .ok m' ∧ ∀ name, m.typeInfo name = m'.typeInfo name := by
  have hwell := wellFormed_of_build hm
  obtain ⟨m', hm'⟩ := exists_build_iff.mpr (hwell.of_perm hperm)
  have hdescribe : ∀ d ∈ declared, describe declared d = describe declared' d := fun d hd =>
    describe_congr (find?_eq_of_perm hwell.distinct hperm) (find?_of_mem hwell.distinct hd)
  refine ⟨m', hm', fun name => ?_⟩
  have hget : m.get? name = m'.get? name := by
    refine Option.ext fun t => ?_
    rw [get?_eq_some_iff hm, get?_eq_some_iff hm']
    constructor
    · rintro ⟨d, hd, rfl, rfl⟩
      exact ⟨d, hperm.mem_iff.mp hd, rfl, hdescribe d hd⟩
    · rintro ⟨d, hd, rfl, rfl⟩
      have hd := hperm.mem_iff.mpr hd
      exact ⟨d, hd, rfl, (hdescribe d hd).symm⟩
  rw [typeInfo, typeInfo, hget]

/-- What is refused is refused in any order, though the defect that is named may be another. -/
theorem build_perm_cases (hperm : declared.Perm declared') :
    (∃ defect defect', build declared = .error defect ∧ build declared' = .error defect') ∨
      ∃ m m', build declared = .ok m ∧ build declared' = .ok m' ∧
        ∀ name, m.typeInfo name = m'.typeInfo name := by
  cases hm : build declared with
  | ok m =>
    obtain ⟨m', hm', hsame⟩ := build_of_perm hm hperm
    exact .inr ⟨m, m', rfl, hm', hsame⟩
  | error defect =>
    cases hm' : build declared' with
    | error defect' => exact .inl ⟨defect, defect', rfl, rfl⟩
    | ok m' =>
      obtain ⟨m, hm'', -⟩ := build_of_perm hm' hperm.symm
      rw [hm] at hm''
      cases hm''

/-- The index field of a declared type is that of its primary index. -/
theorem indexField_of_mem (hm : build declared = .ok m) {d : Declaration} (hd : d ∈ declared) :
    m.provider.indexField d.name = .ok ((primaryIndex declared d).map .property) :=
  map_typeInfo ((get?_eq_some_iff hm).mpr ⟨d, hd, rfl, rfl⟩) TypeInfo.indexField

/-- **A node type takes its primary index from the nearest type that declares one, and the order of
declarations makes no difference.** In every domain the index field of a type that is no node type is
none. That of a node type is none exactly if neither the type nor any ancestor declares an index, and
otherwise the property that it inherits: of the types that declare one, that with the least number of
steps up to it, and among several of those the one whose lexicographically least path of that length
precedes the others'. Declarations in another order are accepted or refused together with the original
ones, and if they are accepted every type is described alike and has the same index and end fields. -/
theorem indexField_of_build :
    (∀ declared m, build declared = .ok m → ∀ d ∈ declared,
      ∃ t answer, m.typeInfo d.name = .ok t ∧ m.provider.indexField d.name = .ok answer ∧
        (d.kind ≠ .node → answer = none) ∧
        (d.kind = .node →
          (answer = none ↔
            ∀ e ∈ declared, e.name = d.name ∨ e.name ∈ t.ancestors → e.index = none) ∧
          ∀ field, answer = some field ↔
            ∃ key, field = .property key ∧ Inherits declared d.name key)) ∧
    ∀ declared declared' : List Declaration, declared.Perm declared' →
      (∃ defect defect', build declared = .error defect ∧ build declared' = .error defect') ∨
      ∃ m m', build declared = .ok m ∧ build declared' = .ok m' ∧ ∀ name,
        m.typeInfo name = m'.typeInfo name ∧
        m.provider.indexField name = m'.provider.indexField name ∧
        m.provider.startField name = m'.provider.startField name ∧
        m.provider.endField name = m'.provider.endField name := by
  constructor
  · intro declared m hm d hd
    have hget : m.get? d.name = some (describe declared d) :=
      (get?_eq_some_iff hm).mpr ⟨d, hd, rfl, rfl⟩
    refine ⟨_, _, typeInfo_of_mem hm hd, indexField_of_mem hm hd, fun hkind => ?_,
      fun hkind => ⟨?_, fun field => ?_⟩⟩
    · rw [primaryIndex, if_neg hkind, Option.map_none]
    · have hnone : primaryIndex declared d = none ↔ ¬ ∃ key, Inherits declared d.name key := by
        simp only [← primaryIndex_eq_some_iff hm hd hkind, ← Option.isSome_iff_exists,
          Option.not_isSome_iff_eq_none]
      rw [Option.map_eq_none_iff, hnone, exists_inherits_iff hm]
      push Not
      refine forall₂_congr fun e _ => imp_congr_left ?_
      rw [mem_ancestors_of_get? hm hget, reflTransGen_iff_eq_or_transGen]
    · simp only [Option.map_eq_some_iff, primaryIndex_eq_some_iff hm hd hkind]
      exact exists_congr fun key => and_comm.trans (and_congr_left fun _ => eq_comm)
  · intro declared declared' hperm
    refine (build_perm_cases hperm).imp_right ?_
    rintro ⟨m, m', hm, hm', hsame⟩
    have hanswers : ∀ {α : Type} (ask : TypeInfo → Except Error α) (name : TypeName),
        (m.typeInfo name).bind ask = (m'.typeInfo name).bind ask := fun ask name => by rw [hsame]
    refine ⟨m, m', hm, hm', fun name => ⟨hsame name, ?_, hanswers _ name, hanswers _ name⟩⟩
    exact congrArg (Except.map TypeInfo.indexField) (hsame name)

/-- An apprentice is an employee, and so a person, and a student, and so enrolled and insured. -/
def apprenticeship : List Declaration :=
  [{ name := ⟨"Apprentice"⟩, role := .node, parents := [⟨"Employee"⟩, ⟨"Student"⟩] },
    { name := ⟨"Employee"⟩, role := .node, parents := [⟨"Person"⟩] },
    { name := ⟨"Student"⟩, role := .node, parents := [⟨"Enrolled"⟩, ⟨"Insured"⟩] },
    { name := ⟨"Person"⟩, role := .node, parents := [⟨"Being"⟩] },
    { name := ⟨"Being"⟩, role := .node, index := some "name" },
    { name := ⟨"Insured"⟩, role := .node, index := some "policy" },
    { name := ⟨"Enrolled"⟩, role := .node, index := some "number" }]

def apprenticeshipDomain : Domain :=
  ⟨.ofList (apprenticeship.map fun d => (d.name, describe apprenticeship d))⟩

theorem build_apprenticeship : build apprenticeship = .ok apprenticeshipDomain := by
  have hsound : firstDefect? apprenticeship = none := by decide +kernel
  rw [build_eq, hsound]
  rfl

/-- An apprentice is found by the number of enrolment: the name is one step further up, and the policy
comes later on the student's list of parents. It is so in whatever order the types are declared. -/
theorem indexField_apprentice :
    apprenticeshipDomain.provider.indexField ⟨"Apprentice"⟩ = .ok (some (.property "number")) ∧
      Inherits apprenticeship ⟨"Apprentice"⟩ "number" ∧
      ∃ m, build apprenticeship.reverse = .ok m ∧
        m.provider.indexField ⟨"Apprentice"⟩ = .ok (some (.property "number")) := by
  have hindex : primaryIndex apprenticeship (apprenticeship.head (by decide)) = some "number" := by
    decide +kernel
  have hfield :
      apprenticeshipDomain.provider.indexField ⟨"Apprentice"⟩ = .ok (some (.property "number")) :=
    (indexField_of_mem build_apprenticeship (List.head_mem _)).trans (by rw [hindex]; rfl)
  obtain ⟨hnearest, horder⟩ := indexField_of_build
  refine ⟨hfield, ?_, ?_⟩
  · obtain ⟨t, answer, -, hanswer, -, hnode⟩ :=
      hnearest apprenticeship apprenticeshipDomain build_apprenticeship _ List.mem_cons_self
    obtain rfl := Except.ok.inj (hfield.symm.trans hanswer)
    obtain ⟨key, hkey, hinherits⟩ := ((hnode rfl).2 _).mp rfl
    obtain rfl := Field.property.inj hkey
    exact hinherits
  · rcases horder apprenticeship apprenticeship.reverse (List.reverse_perm _).symm with
      ⟨_, _, hrefused, -⟩ | ⟨m, m', hm, hm', hsame⟩
    · rw [build_apprenticeship] at hrefused
      cases hrefused
    · rw [build_apprenticeship] at hm
      obtain rfl := Except.ok.inj hm
      exact ⟨m', hm', (hsame _).2.1.symm.trans hfield⟩

end Domain

end ObjectGraph.Schema
