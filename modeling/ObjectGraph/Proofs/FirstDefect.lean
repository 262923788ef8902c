import ObjectGraph.Proofs.Inheritance

/-!
# Which declaration is to blame

A list of declarations that makes up no domain is refused for one reason. `Blames` says which, in terms
of the list alone: the first declaration that repeats an earlier name; if names are distinct, the first
declaration that does not fit the others, for its first parent that it may not extend or else for its
index; and if all of them fit, the first type that lies on a cycle of its own. A type that only leads
into a cycle is not blamed.

Building a domain fails for exactly that reason, and succeeds exactly where there is none
(`Domain.build_outcome`).
-/

set_option autoImplicit false

namespace ObjectGraph.Schema

/-! ## Reasons -/

/-- The first of a list that is bad. -/
def First {α : Type} (bad : α → Prop) (l : List α) (a : α) : Prop :=
  ∃ before after, l = before ++ a :: after ∧ (∀ b ∈ before, ¬ bad b) ∧ bad a

/-- The parent is declared, and an interface or of the kind of the type. -/
def MayExtend (declared : List Declaration) (d : Declaration) (parent : TypeName) : Prop :=
  ∃ e ∈ declared, e.name = parent ∧ (e.kind = .interface ∨ e.kind = d.kind)

/-- A declaration fits the others. -/
structure Fits (declared : List Declaration) (d : Declaration) : Prop where
  parents : ∀ p ∈ d.parents, MayExtend declared d p
  index : d.index.isSome = true → d.kind = .node

/-- The type extends itself, in one step or more. -/
def OnCycle (declared : List Declaration) (d : Declaration) : Prop :=
  Relation.TransGen (Extends declared) d.name d.name

/-- The reason to refuse a list of declarations. -/
inductive Blames (declared : List Declaration) : Defect → Prop
  | declaredTwice {before after : List Declaration} {d : Declaration}
      (hlist : declared = before ++ d :: after) (hdistinct : (before.map Declaration.name).Nodup)
      (hagain : d.name ∈ before.map Declaration.name) : Blames declared (.declaredTwice d.name)
  | undeclaredParent {d : Declaration} {p : TypeName}
      (hdistinct : (declared.map Declaration.name).Nodup)
      (hd : First (fun c => ¬ Fits declared c) declared d)
      (hp : First (fun q => ¬ MayExtend declared d q) d.parents p)
      (hout : p ∉ declared.map Declaration.name) : Blames declared (.undeclaredParent d.name p)
  | incompatibleParent {d e : Declaration}
      (hdistinct : (declared.map Declaration.name).Nodup)
      (hd : First (fun c => ¬ Fits declared c) declared d)
      (hp : First (fun q => ¬ MayExtend declared d q) d.parents e.name) (he : e ∈ declared) :
      Blames declared (.incompatibleParent d.name d.kind e.name e.kind)
  | indexOnNonNode {d : Declaration} (hdistinct : (declared.map Declaration.name).Nodup)
      (hd : First (fun c => ¬ Fits declared c) declared d)
      (hparents : ∀ p ∈ d.parents, MayExtend declared d p) :
      Blames declared (.indexOnNonNode d.name)
  | inheritanceCycle {d : Declaration} (hdistinct : (declared.map Declaration.name).Nodup)
      (hfit : ∀ c ∈ declared, Fits declared c) (hd : First (OnCycle declared) declared d) :
      Blames declared (.inheritanceCycle d.name)

theorem First.mem {α : Type} {bad : α → Prop} {l : List α} {a : α} (h : First bad l a) : a ∈ l := by
  obtain ⟨before, after, rfl, -, -⟩ := h
  exact List.mem_append_right _ List.mem_cons_self

theorem First.bad {α : Type} {bad : α → Prop} {l : List α} {a : α} (h : First bad l a) : bad a := by
  obtain ⟨_, _, -, -, hbad⟩ := h
  exact hbad

/-- A search for a defect stops at the first of the list that has one. -/
theorem findSome?_eq_some_iff_first {α β : Type} {f : α → Option β} {bad : α → Prop} {l : List α}
    (hf : ∀ a ∈ l, f a = none ↔ ¬ bad a) {b : β} :
    l.findSome? f = some b ↔ ∃ a, First bad l a ∧ f a = some b := by
  rw [List.findSome?_eq_some_iff]
  constructor
  · rintro ⟨before, a, after, rfl, hb, hnone⟩
    have hbad : bad a := by
      refine Classical.not_not.mp fun hgood => ?_
      rw [(hf a (List.mem_append_right _ List.mem_cons_self)).mpr hgood] at hb
      cases hb
    exact ⟨a, ⟨before, after, rfl, fun c hc => (hf c (List.mem_append_left _ hc)).mp (hnone c hc),
      hbad⟩, hb⟩
  · rintro ⟨a, ⟨before, after, rfl, hgood, -⟩, hb⟩
    exact ⟨before, a, after, rfl, hb,
      fun c hc => (hf c (List.mem_append_left _ hc)).mpr (hgood c hc)⟩

/-! ## One declaration -/

section Declarations

variable {declared : List Declaration} {d : Declaration} {defect : Defect}

theorem repetition?_eq_some_iff {seen : List TypeName} :
    repetition? seen declared = some defect ↔
      ∃ before d after, declared = before ++ d :: after ∧ repetition? seen before = none ∧
        (d.name ∈ seen ∨ d.name ∈ before.map Declaration.name) ∧ defect = .declaredTwice d.name := by
  induction declared generalizing seen with
  | nil => simp [repetition?]
  | cons c rest ih =>
    rw [repetition?]
    split
    next hseen =>
      constructor
      · intro h
        exact ⟨[], c, rest, rfl, rfl, .inl hseen, (Option.some.inj h).symm⟩
      · rintro ⟨before, d, after, hlist, hnone, -, rfl⟩
        cases before with
        | nil =>
          obtain ⟨rfl, -⟩ := List.cons.inj hlist
          rfl
        | cons b before =>
          obtain ⟨rfl, -⟩ := List.cons.inj hlist
          rw [repetition?, if_pos hseen] at hnone
          cases hnone
    next hnew =>
      rw [ih]
      constructor
      · rintro ⟨before, d, after, rfl, hnone, hagain, rfl⟩
        refine ⟨c :: before, d, after, rfl, ?_, ?_, rfl⟩
        · rw [repetition?, if_neg hnew, hnone]
        · simpa only [List.mem_cons, List.map_cons, or_assoc, or_left_comm] using hagain
      · rintro ⟨before, d, after, hlist, hnone, hagain, rfl⟩
        cases before with
        | nil =>
          obtain ⟨rfl, -⟩ := List.cons.inj hlist
          exact absurd (hagain.resolve_right List.not_mem_nil) hnew
        | cons b before =>
          obtain ⟨rfl, rfl⟩ := List.cons.inj hlist
          rw [repetition?, if_neg hnew] at hnone
          refine ⟨before, d, after, rfl, hnone, ?_, rfl⟩
          simpa only [List.mem_cons, List.map_cons, or_assoc, or_left_comm] using hagain

theorem mayExtend_iff_kind {child parent : Kind} :
    child.mayExtend parent = true ↔ parent = .interface ∨ parent = child := by
  cases child <;> cases parent <;> simp [Kind.mayExtend]

/-- Where names are declared once, looking a parent up finds whether a type may extend it. -/
theorem mayExtend_iff (hdistinct : (declared.map Declaration.name).Nodup) {p : TypeName} :
    MayExtend declared d p ↔ ∃ e, find? declared p = some e ∧ d.kind.mayExtend e.kind = true := by
  constructor
  · rintro ⟨e, he, rfl, hkind⟩
    exact ⟨e, find?_of_mem hdistinct he, mayExtend_iff_kind.mpr hkind⟩
  · rintro ⟨e, he, hkind⟩
    exact ⟨e, mem_of_find? he, find?_name he, mayExtend_iff_kind.mp hkind⟩

theorem parentDefect?_none_iff (hdistinct : (declared.map Declaration.name).Nodup) {p : TypeName} :
    parentDefect? declared d p = none ↔ MayExtend declared d p :=
  parentDefect?_eq_none_iff.trans (mayExtend_iff hdistinct).symm

theorem declarationDefect?_none_iff (hdistinct : (declared.map Declaration.name).Nodup) :
    declarationDefect? declared d = none ↔ Fits declared d := by
  rw [declarationDefect?_eq_none_iff]
  simp only [← mayExtend_iff hdistinct]
  constructor
  · rintro ⟨hparents, hindex⟩
    refine ⟨hparents, fun hsome => hindex.resolve_right fun hnone => ?_⟩
    rw [hnone] at hsome
    cases hsome
  · intro h
    refine ⟨h.parents, ?_⟩
    cases hindex : d.index with
    | none => exact .inr rfl
    | some field => exact .inl (h.index (by rw [hindex]; rfl))

theorem cycleDefect?_none_iff (hdistinct : (declared.map Declaration.name).Nodup) (hd : d ∈ declared) :
    cycleDefect? declared d = none ↔ ¬ OnCycle declared d :=
  cycleDefect?_eq_none_iff.trans (not_congr (mem_ancestors_iff (find?_of_mem hdistinct hd)))

theorem find?_eq_none_iff {p : TypeName} :
    find? declared p = none ↔ p ∉ declared.map Declaration.name := by
  simp [find?]

/-- What is wrong with a parent. -/
theorem parentDefect?_eq_some_iff (hdistinct : (declared.map Declaration.name).Nodup) {p : TypeName} :
    parentDefect? declared d p = some defect ↔
      ¬ MayExtend declared d p ∧
        (p ∉ declared.map Declaration.name ∧ defect = .undeclaredParent d.name p ∨
          ∃ e ∈ declared, e.name = p ∧ defect = .incompatibleParent d.name d.kind p e.kind) := by
  rw [← parentDefect?_none_iff hdistinct, ← find?_eq_none_iff]
  unfold parentDefect?
  cases hfound : find? declared p with
  | none =>
    have hno : ¬ ∃ e ∈ declared, e.name = p ∧
        defect = .incompatibleParent d.name d.kind p e.kind := by
      rintro ⟨e, he, rfl, -⟩
      rw [find?_of_mem hdistinct he] at hfound
      cases hfound
    simp only [hno, or_false, reduceCtorEq, not_false_eq_true, true_and, Option.some.injEq]
    exact eq_comm
  | some e =>
    obtain rfl := find?_name hfound
    have honly : (∃ f ∈ declared, f.name = e.name ∧
        defect = .incompatibleParent d.name d.kind e.name f.kind) ↔
          defect = .incompatibleParent d.name d.kind e.name e.kind := by
      constructor
      · rintro ⟨f, hf, hname, rfl⟩
        rw [List.inj_on_of_nodup_map hdistinct hf (mem_of_find? hfound) hname]
      · exact fun h => ⟨e, mem_of_find? hfound, rfl, h⟩
    rw [honly]
    by_cases hfits : d.kind.mayExtend e.kind = true <;> simp [hfits, eq_comm]

/-- What is wrong with a declaration: its first bad parent, or its index if all parents are fine. -/
theorem declarationDefect?_eq_some_iff (hdistinct : (declared.map Declaration.name).Nodup) :
    declarationDefect? declared d = some defect ↔
      (∃ p, First (fun q => ¬ MayExtend declared d q) d.parents p ∧
        parentDefect? declared d p = some defect) ∨
      (∀ p ∈ d.parents, MayExtend declared d p) ∧ ¬ Fits declared d ∧
        defect = .indexOnNonNode d.name := by
  have hparent : ∀ q ∈ d.parents, parentDefect? declared d q = none ↔ ¬ ¬ MayExtend declared d q :=
    fun q _ => (parentDefect?_none_iff hdistinct).trans Classical.not_not.symm
  rw [declarationDefect?, Option.or_eq_some_iff, findSome?_eq_some_iff_first hparent,
    List.findSome?_eq_none_iff]
  simp only [parentDefect?_none_iff hdistinct]
  refine or_congr_right (and_congr_right fun hparents => ?_)
  have hindex : (d.kind ≠ .node ∧ d.index.isSome = true) ↔ ¬ Fits declared d := by
    constructor
    · exact fun h hfits => h.1 (hfits.index h.2)
    · refine fun hno => Classical.byContradiction fun hfine => hno ⟨hparents, fun hsome => ?_⟩
      exact Classical.byContradiction fun hkind => hfine ⟨hkind, hsome⟩
  rw [← hindex]
  by_cases h : d.kind ≠ .node ∧ d.index.isSome = true
  · rw [if_pos h, Option.some.injEq, eq_comm]
    exact (and_iff_right h).symm
  · rw [if_neg h]
    constructor
    · intro hnone
      cases hnone
    · intro hwrong
      exact absurd hwrong.1 h

end Declarations

/-! ## The first defect -/

section

variable {declared : List Declaration} {defect : Defect}

/-- The first declaration with a defect is the first that does not fit. -/
theorem findSome?_declarationDefect?_iff (hdistinct : (declared.map Declaration.name).Nodup) :
    declared.findSome? (declarationDefect? declared) = some defect ↔
      ∃ d, First (fun c => ¬ Fits declared c) declared d ∧
        declarationDefect? declared d = some defect :=
  findSome?_eq_some_iff_first fun _ _ =>
    (declarationDefect?_none_iff hdistinct).trans Classical.not_not.symm

theorem findSome?_cycleDefect?_iff (hdistinct : (declared.map Declaration.name).Nodup) :
    declared.findSome? (cycleDefect? declared) = some defect ↔
      ∃ d, First (OnCycle declared) declared d ∧ cycleDefect? declared d = some defect :=
  findSome?_eq_some_iff_first fun _ hd => cycleDefect?_none_iff hdistinct hd

/-- A defect that is found is to blame. -/
theorem blames_of_firstDefect? (h : firstDefect? declared = some defect) :
    Blames declared defect := by
  rw [firstDefect?, misfit?, Option.or_eq_some_iff, Option.or_eq_some_iff, Option.or_eq_none_iff] at h
  rcases h with (hrepeats | ⟨honce, hunfit⟩) | ⟨⟨honce, hfit⟩, hcycle⟩
  · obtain ⟨before, d, after, hlist, hbefore, hagain, rfl⟩ := repetition?_eq_some_iff.mp hrepeats
    exact .declaredTwice hlist (repetition?_eq_none_iff.mp hbefore).1
      (hagain.resolve_left List.not_mem_nil)
  · have hdistinct := (repetition?_eq_none_iff.mp honce).1
    obtain ⟨d, hd, hdefect⟩ := (findSome?_declarationDefect?_iff hdistinct).mp hunfit
    rcases (declarationDefect?_eq_some_iff hdistinct).mp hdefect with
      ⟨p, hp, hparent⟩ | ⟨hparents, -, rfl⟩
    · rcases ((parentDefect?_eq_some_iff hdistinct).mp hparent).2 with
        ⟨hout, rfl⟩ | ⟨e, he, rfl, rfl⟩
      · exact .undeclaredParent hdistinct hd hp hout
      · exact .incompatibleParent hdistinct hd hp he
    · exact .indexOnNonNode hdistinct hd hparents
  · have hdistinct := (repetition?_eq_none_iff.mp honce).1
    obtain ⟨d, hd, hdefect⟩ := (findSome?_cycleDefect?_iff hdistinct).mp hcycle
    have hfit : ∀ c ∈ declared, Fits declared c := fun c hc =>
      (declarationDefect?_none_iff hdistinct).mp (List.findSome?_eq_none_iff.mp hfit c hc)
    unfold cycleDefect? at hdefect
    split at hdefect
    · obtain rfl := Option.some.inj hdefect
      exact .inheritanceCycle hdistinct hfit hd
    · cases hdefect

/-- What is to blame is found. -/
theorem Blames.firstDefect?_eq (h : Blames declared defect) : firstDefect? declared = some defect := by
  rw [firstDefect?, misfit?, Option.or_eq_some_iff, Option.or_eq_some_iff, Option.or_eq_none_iff]
  have honce : (declared.map Declaration.name).Nodup → repetition? [] declared = none := by
    intro hdistinct
    exact repetition?_eq_none_iff.mpr ⟨hdistinct, fun _ _ => List.not_mem_nil⟩
  have hunfit : ∀ {d}, (declared.map Declaration.name).Nodup →
      First (fun c => ¬ Fits declared c) declared d → declarationDefect? declared d = some defect →
      repetition? [] declared = none ∧
        declared.findSome? (declarationDefect? declared) = some defect := by
    intro d hdistinct hd hdefect
    exact ⟨honce hdistinct, (findSome?_declarationDefect?_iff hdistinct).mpr ⟨d, hd, hdefect⟩⟩
  cases h with
  | @declaredTwice before after d hlist hdistinct hagain =>
    refine .inl (.inl (repetition?_eq_some_iff.mpr ⟨before, d, after, hlist, ?_, .inr hagain, rfl⟩))
    exact repetition?_eq_none_iff.mpr ⟨hdistinct, fun _ _ => List.not_mem_nil⟩
  | undeclaredParent hdistinct hd hp hout =>
    have hparent := (parentDefect?_eq_some_iff hdistinct).mpr ⟨hp.bad, .inl ⟨hout, rfl⟩⟩
    refine .inl (.inr (hunfit hdistinct hd ?_))
    exact (declarationDefect?_eq_some_iff hdistinct).mpr (.inl ⟨_, hp, hparent⟩)
  | @incompatibleParent d e hdistinct hd hp he =>
    have hparent := (parentDefect?_eq_some_iff hdistinct).mpr ⟨hp.bad, .inr ⟨e, he, rfl, rfl⟩⟩
    refine .inl (.inr (hunfit hdistinct hd ?_))
    exact (declarationDefect?_eq_some_iff hdistinct).mpr (.inl ⟨_, hp, hparent⟩)
  | indexOnNonNode hdistinct hd hparents =>
    refine .inl (.inr (hunfit hdistinct hd ?_))
    exact (declarationDefect?_eq_some_iff hdistinct).mpr (.inr ⟨hparents, hd.bad, rfl⟩)
  | @inheritanceCycle d hdistinct hfit hd =>
    have hcycle : cycleDefect? declared d = some (.inheritanceCycle d.name) :=
      if_pos ((mem_ancestors_iff (find?_of_mem hdistinct hd.mem)).mpr hd.bad)
    refine .inr ⟨⟨honce hdistinct, List.findSome?_eq_none_iff.mpr fun c hc => ?_⟩,
      (findSome?_cycleDefect?_iff hdistinct).mpr ⟨d, hd, hcycle⟩⟩
    exact (declarationDefect?_none_iff hdistinct).mpr (hfit c hc)

end

namespace Domain

theorem build_eq_error_iff {declared : List Declaration} {defect : Defect} :
    build declared = .error defect ↔ firstDefect? declared = some defect := by
  rw [build_eq]
  cases firstDefect? declared <;> simp

theorem build_eq_ok_iff {declared : List Declaration} :
    (∃ m, build declared = .ok m) ↔ firstDefect? declared = none := by
  rw [build_eq]
  cases firstDefect? declared <;> simp

/-- **A list of declarations is a domain exactly if it is well formed, and otherwise the first
offender is named.** Building succeeds exactly if names are distinct, every declaration fits the others
and no type lies on a cycle; and it fails with exactly the defect that is to blame. -/
theorem build_outcome (declared : List Declaration) :
    ((∃ m, build declared = .ok m) ↔
      (declared.map Declaration.name).Nodup ∧ (∀ d ∈ declared, Fits declared d) ∧
        ∀ d ∈ declared, ¬ OnCycle declared d) ∧
    ∀ defect, build declared = .error defect ↔ Blames declared defect := by
  refine ⟨?_, fun defect => ?_⟩
  · rw [build_eq_ok_iff, firstDefect?, misfit?, Option.or_eq_none_iff, Option.or_eq_none_iff,
      List.findSome?_eq_none_iff, List.findSome?_eq_none_iff, repetition?_eq_none_iff, and_assoc]
    have honce : (declared.map Declaration.name).Nodup ∧ (∀ d ∈ declared, d.name ∉ []) ↔
        (declared.map Declaration.name).Nodup := and_iff_left fun _ _ => List.not_mem_nil
    rw [honce]
    refine and_congr_right fun hdistinct => and_congr ?_ ?_
    · exact forall₂_congr fun d _ => declarationDefect?_none_iff hdistinct
    · exact forall₂_congr fun d hd => cycleDefect?_none_iff hdistinct hd
  · exact build_eq_error_iff.trans ⟨blames_of_firstDefect?, Blames.firstDefect?_eq⟩

end Domain

/-- Of a type that leads into a cycle and two on it, the first on it is blamed. -/
example : firstDefect?
    [{ name := ⟨"Guest"⟩, role := .node, parents := [⟨"Member"⟩] },
      { name := ⟨"Member"⟩, role := .node, parents := [⟨"Person"⟩] },
      { name := ⟨"Person"⟩, role := .node, parents := [⟨"Person"⟩, ⟨"Member"⟩] }] =
    some (.inheritanceCycle ⟨"Member"⟩) := by decide +kernel

end ObjectGraph.Schema
