import ObjectGraph.Proofs.Inheritance
import Mathlib.Data.List.Shortlex

/-!
# Where an inherited primary index comes from

A path leads up from a type, and each step of it is the place of a parent on the list of parents
(`climb`). Of two paths the shorter one precedes, and of two that are as long the lexicographically
smaller one (`Precedes`), so among the paths to one type there is a first one (`LeastPath`): it is as
long as the type is far away, and of the paths of that length it turns to earlier parents. A type
inherits its primary index from the declaring type to which the first of these paths leads
(`Inherits`).

The search keeps a queue, and each declaration on the queue has been come upon along some path
(`Lead`). The queue is in the order of these paths, and whatever may join it later comes after all of
it; what has been seen has been come upon along a path that comes before any that may still join
(`Search`). So a name that is seen again is passed over rightly: the least of all paths with an index
at the end is not among those given up, and some part of it leads to a declaration on the queue until
its end is at the front (`Search.onWay_step`). All this holds of cyclic declarations as well
(`nearestIndex_eq_some_iff`).
-/

set_option autoImplicit false

namespace ObjectGraph.Schema

open Relation

/-! ## Paths -/

/-- The type that a path leads up to. Each step is the place of a parent on the list of parents. -/
def climb (declared : List Declaration) : List Nat → TypeName → Option TypeName
  | [], name => some name
  | place :: path, name => (parentsOf declared name)[place]?.bind (climb declared path)

/-- The first path is shorter, or it is as long and lexicographically not greater. -/
def Precedes (p q : List Nat) : Prop := p.length < q.length ∨ (p.length = q.length ∧ p ≤ q)

theorem Precedes.trans {p q r : List Nat} (hpq : Precedes p q) (hqr : Precedes q r) :
    Precedes p r := by
  rcases hpq with hshorter | ⟨hlength, hle⟩
  · rcases hqr with hshorter' | ⟨hlength', -⟩
    · exact .inl (Nat.lt_trans hshorter hshorter')
    · exact .inl (hlength' ▸ hshorter)
  · rcases hqr with hshorter' | ⟨hlength', hle'⟩
    · exact .inl (hlength.symm ▸ hshorter')
    · exact .inr ⟨hlength.trans hlength', le_trans hle hle'⟩

/-- The first path comes strictly before the second. -/
abbrev Before : List Nat → List Nat → Prop := List.Shortlex fun i j => i < j

theorem precedes_iff_not_before {p q : List Nat} : Precedes p q ↔ ¬ Before q p := by
  rw [Precedes, Before, List.shortlex_def, List.lex_lt]
  rcases Nat.lt_trichotomy p.length q.length with hlt | heq | hgt
  · simp [hlt, Nat.lt_asymm hlt, Nat.ne_of_gt hlt]
  · simp [heq]
  · simp [hgt, Nat.lt_asymm hgt, Nat.ne_of_gt hgt]

/-- Prolonging two paths by as many steps keeps their order. -/
theorem Before.append {p q : List Nat} (h : Before p q) {r s : List Nat} (hlength : r.length = s.length) :
    Before (p ++ r) (q ++ s) := by
  rcases List.shortlex_def.mp h with hshorter | ⟨heq, hlex⟩
  · refine .of_length_lt ?_
    rw [List.length_append, List.length_append, hlength]
    exact Nat.add_lt_add_right hshorter _
  · refine .of_lex (by rw [List.length_append, List.length_append, heq, hlength]) ?_
    clear h
    induction hlex with
    | nil => cases heq
    | cons _ ih => exact .cons (ih (Nat.succ.inj heq))
    | rel hless => exact .rel hless

/-- Of some paths one precedes all. -/
theorem exists_precedes {P : List Nat → Prop} (h : ∃ p, P p) :
    ∃ p, P p ∧ ∀ q, P q → Precedes p q := by
  obtain ⟨p, hp, hmin⟩ := (List.Shortlex.wf Nat.lt_wfRel.wf).has_min {p | P p} h
  exact ⟨p, hp, fun q hq => precedes_iff_not_before.mpr (hmin q hq)⟩

/-- The path leads from the first type to the second, and precedes all others that do: none is shorter,
and of those that are as long it is the lexicographically least. -/
def LeastPath (declared : List Declaration) (name target : TypeName) (p : List Nat) : Prop :=
  climb declared p name = some target ∧
    ∀ q, climb declared q name = some target → Precedes p q

/-- The index that a type declares itself. -/
def ownIndex (declared : List Declaration) (name : TypeName) : Option String :=
  (find? declared name).bind Declaration.index

/-- The type has its index from a type that declares one and is nearest: of the least paths to the
types that declare one, the least path to that type precedes all. -/
def Inherits (declared : List Declaration) (name : TypeName) (key : String) : Prop :=
  ∃ source p, LeastPath declared name source p ∧ ownIndex declared source = some key ∧
    ∀ other q, LeastPath declared name other q → (ownIndex declared other).isSome = true →
      Precedes p q

section Paths

variable {declared : List Declaration} {name target : TypeName} {key : String} {p : List Nat}

/-- A path is what reaching in any number of steps takes. -/
theorem exists_climb_iff :
    (∃ p, climb declared p name = some target) ↔ ReflTransGen (Extends declared) name target := by
  constructor
  · rintro ⟨p, hp⟩
    induction p generalizing name with
    | nil =>
      obtain rfl := Option.some.inj hp
      exact .refl
    | cons place p ih =>
      obtain ⟨parent, hparent, hrest⟩ := Option.bind_eq_some_iff.mp hp
      exact .head (List.mem_of_getElem? hparent) (ih hrest)
  · intro h
    induction h using ReflTransGen.head_induction_on with
    | refl => exact ⟨[], rfl⟩
    | head hstep _ ih =>
      obtain ⟨p, hp⟩ := ih
      obtain ⟨place, hplace⟩ := List.mem_iff_getElem?.mp hstep
      exact ⟨place :: p, by rw [climb, hplace, Option.bind_some, hp]⟩

/-- The index at the end of a path. -/
def indexAlong (declared : List Declaration) (p : List Nat) (name : TypeName) : Option String :=
  (climb declared p name).bind (ownIndex declared)

/-- A path goes on from where its first part leads. -/
theorem climb_append (declared : List Declaration) (p q : List Nat) (name : TypeName) :
    climb declared (p ++ q) name = (climb declared p name).bind (climb declared q) := by
  induction p generalizing name with
  | nil => rfl
  | cons place p ih =>
    rw [List.cons_append, climb, climb, Option.bind_assoc]
    exact congrArg _ (funext ih)

theorem climb_concat (declared : List Declaration) (p : List Nat) (place : Nat) (name : TypeName) :
    climb declared (p ++ [place]) name =
      (climb declared p name).bind fun target => (parentsOf declared target)[place]? := by
  rw [climb_append]
  refine congrArg _ (funext fun target => ?_)
  rw [climb]
  cases (parentsOf declared target)[place]? <;> rfl

theorem indexAlong_append (declared : List Declaration) (p q : List Nat) (name : TypeName) :
    indexAlong declared (p ++ q) name = (climb declared p name).bind (indexAlong declared q) := by
  rw [indexAlong, climb_append, Option.bind_assoc]
  rfl

/-- The first part of the least path with an index is the least path to where it leads. -/
theorem precedes_of_append {tail r : List Nat}
    (hleast : ∀ q, (indexAlong declared q name).isSome = true → Precedes (p ++ tail) q)
    (htail : indexAlong declared tail target = some key) (hr : climb declared r name = some target) :
    Precedes p r := by
  rw [precedes_iff_not_before]
  intro hbefore
  refine precedes_iff_not_before.mp (hleast (r ++ tail) ?_) (hbefore.append rfl)
  rw [indexAlong_append, hr, Option.bind_some, htail]
  rfl

/-- Nothing is declared above what is not declared. -/
theorem indexAlong_of_undeclared (h : find? declared name = none) : indexAlong declared p name = none := by
  cases p with
  | nil => rw [indexAlong, climb, Option.bind_some, ownIndex, h, Option.bind_none]
  | cons place p => rw [indexAlong, climb, parentsOf, h, List.getElem?_nil, Option.bind_none, Option.bind_none]

/-- To inherit an index is to find it at the end of a path that precedes all that end with an index. -/
theorem inherits_iff :
    Inherits declared name key ↔ ∃ p, indexAlong declared p name = some key ∧
      ∀ q, (indexAlong declared q name).isSome = true → Precedes p q := by
  constructor
  · rintro ⟨source, p, ⟨hp, -⟩, hkey, hfirst⟩
    refine ⟨p, by rw [indexAlong, hp, Option.bind_some, hkey], fun q hq => ?_⟩
    obtain ⟨index, hindex⟩ := Option.isSome_iff_exists.mp hq
    obtain ⟨other, hother, hown⟩ := Option.bind_eq_some_iff.mp hindex
    -- the path need not be the least one to its end, but that one precedes it
    obtain ⟨r, hr, hleast⟩ := exists_precedes (P := fun r => climb declared r name = some other) ⟨q, hother⟩
    exact (hfirst other r ⟨hr, hleast⟩ (by rw [hown]; rfl)).trans (hleast q hother)
  · rintro ⟨p, hp, hfirst⟩
    obtain ⟨source, hsource, hown⟩ := Option.bind_eq_some_iff.mp hp
    refine ⟨source, p, ⟨hsource, fun q hq => hfirst q ?_⟩, hown, fun other q hq hindex => hfirst q ?_⟩
    · rw [indexAlong, hq, Option.bind_some, hown]
      rfl
    · rw [indexAlong, hq.1, Option.bind_some]
      exact hindex

end Paths

/-! ## Parents that join the queue -/

section Parents

variable {declared : List Declaration} {parents : List TypeName} {seen : NameSet .entity}
  {name : TypeName} {e : Declaration}

/-- All parents have been seen then. -/
theorem mem_seen_unseenParents :
    name ∈ (unseenParents declared parents seen).2 ↔ name ∈ seen ∨ name ∈ parents := by
  induction parents generalizing seen with
  | nil => simp [unseenParents]
  | cons parent rest ih =>
    rw [unseenParents, List.mem_cons]
    split
    next hin =>
      rw [ih]
      constructor
      · rintro (h | h)
        · exact .inl h
        · exact .inr (.inr h)
      · rintro (h | rfl | h)
        · exact .inl h
        · exact .inl hin
        · exact .inr h
    next => rw [ih, NameSet.mem_insert, or_assoc, or_left_comm]

/-- The parents that join the queue are those that are declared and have not been seen. -/
theorem mem_unseenParents :
    e ∈ (unseenParents declared parents seen).1 ↔
      e.name ∈ parents ∧ e.name ∉ seen ∧ find? declared e.name = some e := by
  induction parents generalizing seen with
  | nil => simp [unseenParents]
  | cons parent rest ih =>
    rw [unseenParents, List.mem_cons]
    split
    next hin =>
      rw [ih]
      refine and_congr_left fun h => (or_iff_right ?_).symm
      rintro rfl
      exact h.1 hin
    next hnew =>
      rw [List.mem_append, ih, Option.mem_toList, NameSet.mem_insert]
      by_cases he : e.name = parent
      · subst he
        simp [hnew]
      · have hother : find? declared parent ≠ some e := fun h => he (find?_name h)
        simp [he, hother]

/-- The first place of a member is not behind any other. -/
theorem idxOf_le_of_getElem? {place : Nat} (h : parents[place]? = some name) :
    parents.idxOf name ≤ place := by
  obtain ⟨hplace, rfl⟩ := List.getElem?_eq_some_iff.mp h
  by_contra hlt
  have hne := List.not_of_lt_findIdx (Nat.lt_of_not_le hlt)
  rw [beq_self_eq_true] at hne
  cases hne

/-- They join it in the order of their first places on the list of parents. -/
theorem pairwise_unseenParents :
    (unseenParents declared parents seen).1.Pairwise fun a b =>
      parents.idxOf a.name < parents.idxOf b.name := by
  induction parents generalizing seen with
  | nil => exact .nil
  | cons parent rest ih =>
    -- what is behind the first parent has another name, and so the place is one more
    have hbehind : ∀ {later : NameSet .entity}, parent ∈ later →
        ∀ a ∈ (unseenParents declared rest later).1,
          (parent :: rest).idxOf a.name = rest.idxOf a.name + 1 := by
      intro later hin a ha
      refine List.idxOf_cons_ne _ ?_
      rintro rfl
      exact (mem_unseenParents.mp ha).2.1 hin
    have hrest : ∀ {later : NameSet .entity}, parent ∈ later →
        (unseenParents declared rest later).1.Pairwise fun a b =>
          (parent :: rest).idxOf a.name < (parent :: rest).idxOf b.name := by
      intro later hin
      refine ih.imp_of_mem fun ha hb h => ?_
      rw [hbehind hin _ ha, hbehind hin _ hb]
      exact Nat.succ_lt_succ h
    rw [unseenParents]
    split
    next hin => exact hrest hin
    next =>
      have hin : parent ∈ seen.insert parent := NameSet.mem_insert.mpr (.inl rfl)
      refine List.pairwise_append.mpr ⟨?_, hrest hin, fun a ha b hb => ?_⟩
      · cases find? declared parent with
        | none => exact .nil
        | some d => exact List.pairwise_singleton _ d
      · rw [hbehind hin b hb, find?_name (Option.mem_toList.mp ha), List.idxOf_cons_self]
        exact Nat.succ_pos _

end Parents

/-! ## The search -/

/-- A declaration and the path along which the search has come upon it. -/
structure Lead where
  type : Declaration
  path : List Nat

/-- The path comes before every path that goes one step further than one of the leads. -/
def Ahead (p : List Nat) (queue : List Lead) : Prop :=
  ∀ x ∈ queue, ∀ place, Before p (x.path ++ [place])

/-- What holds of a search from a type whenever the next declaration is taken from the queue. -/
structure Search (declared : List Declaration) (start : TypeName) (queue : List Lead)
    (seen : NameSet .entity) : Prop where
  found : ∀ x ∈ queue, find? declared x.type.name = some x.type
  reached : ∀ x ∈ queue, climb declared x.path start = some x.type.name
  /-- The queue is in the order of the paths. -/
  ordered : queue.Pairwise fun x y => Before x.path y.path
  /-- No lead is behind what may still join the queue. -/
  ahead : ∀ x ∈ queue, Ahead x.path queue
  /-- What has been seen was come upon earlier than it could be again. -/
  known : ∀ name ∈ seen, ∃ p, climb declared p start = some name ∧ Ahead p queue

/-- A first part of the path leads to the queue. -/
def OnWay (q : List Nat) (queue : List Lead) : Prop := ∃ x ∈ queue, x.path <+: q

/-- What joins the queue when a lead has no index. -/
def Lead.further (declared : List Declaration) (x : Lead) (seen : NameSet .entity) : List Lead :=
  (unseenParents declared x.type.parents seen).1.map fun e =>
    ⟨e, x.path ++ [x.type.parents.idxOf e.name]⟩

section Search

variable {declared : List Declaration} {start name : TypeName} {x y : Lead} {queue rest : List Lead}
  {seen : NameSet .entity} {p q : List Nat} {key : String}

theorem map_type_further (declared : List Declaration) (x : Lead) (seen : NameSet .entity) :
    (x.further declared seen).map Lead.type = (unseenParents declared x.type.parents seen).1 := by
  rw [Lead.further, List.map_map]
  exact List.map_id' _

theorem mem_further : y ∈ x.further declared seen ↔
    (y.type.name ∈ x.type.parents ∧ y.type.name ∉ seen ∧ find? declared y.type.name = some y.type) ∧
      y.path = x.path ++ [x.type.parents.idxOf y.type.name] := by
  rw [Lead.further, List.mem_map]
  constructor
  · rintro ⟨e, he, rfl⟩
    exact ⟨mem_unseenParents.mp he, rfl⟩
  · rintro ⟨he, hpath⟩
    exact ⟨y.type, mem_unseenParents.mpr he, by rw [← hpath]⟩

/-- What is ahead of the queue stays ahead of it. -/
theorem Ahead.step (h : Ahead p (x :: rest)) : Ahead p (rest ++ x.further declared seen) := by
  intro y hy place
  rcases List.mem_append.mp hy with hy | hy
  · exact h y (List.mem_cons_of_mem _ hy) place
  · rw [(mem_further.mp hy).2]
    exact (h x List.mem_cons_self _).append_right [place]

namespace Search

variable (hs : Search declared start (x :: rest) seen)

include hs

/-- The parents of the first lead are found where a step further leads to. -/
theorem climb_parent (place : Nat) :
    climb declared (x.path ++ [place]) start = x.type.parents[place]? := by
  rw [climb_concat, hs.reached x List.mem_cons_self, Option.bind_some, parentsOf,
    hs.found x List.mem_cons_self]

/-- A step further than the first lead is ahead of the queue without that lead. -/
theorem ahead_parent (place : Nat) : Ahead (x.path ++ [place]) (rest ++ x.further declared seen) := by
  intro y hy place'
  rcases List.mem_append.mp hy with hy | hy
  · exact (List.rel_of_pairwise_cons hs.ordered hy).append rfl
  · rw [(mem_further.mp hy).2]
    exact .of_length_lt (by simp)

/-- The search goes on as it began. -/
theorem step :
    Search declared start (rest ++ x.further declared seen)
      (unseenParents declared x.type.parents seen).2 := by
  have hold : ∀ y ∈ rest, y ∈ x :: rest := fun y hy => List.mem_cons_of_mem _ hy
  have hparents : ∀ {name}, name ∈ x.type.parents →
      climb declared (x.path ++ [x.type.parents.idxOf name]) start = some name := fun hname =>
    (hs.climb_parent _).trans (List.getElem?_idxOf hname)
  refine ⟨fun y hy => ?_, fun y hy => ?_, ?_, fun y hy => ?_, fun name hname => ?_⟩
  · rcases List.mem_append.mp hy with hy | hy
    · exact hs.found y (hold y hy)
    · exact (mem_further.mp hy).1.2.2
  · rcases List.mem_append.mp hy with hy | hy
    · exact hs.reached y (hold y hy)
    · obtain ⟨⟨hparent, -, -⟩, hpath⟩ := mem_further.mp hy
      rw [hpath]
      exact hparents hparent
  · refine List.pairwise_append.mpr ⟨hs.ordered.of_cons, ?_, fun y hy z hz => ?_⟩
    · refine List.pairwise_map.mpr (pairwise_unseenParents.imp fun h => ?_)
      exact ((List.shortlex_singleton_iff _ _).mpr h).append_left x.path
    · rw [(mem_further.mp hz).2]
      exact hs.ahead y (hold y hy) x List.mem_cons_self _
  · rcases List.mem_append.mp hy with hy | hy
    · exact (hs.ahead y (hold y hy)).step
    · rw [(mem_further.mp hy).2]
      exact hs.ahead_parent _
  · rcases mem_seen_unseenParents.mp hname with hseen | hparent
    · obtain ⟨p, hp, hahead⟩ := hs.known name hseen
      exact ⟨p, hp, hahead.step⟩
    · exact ⟨_, hparents hparent, hs.ahead_parent _⟩

/-- The index of the first lead is at the end of its path. -/
theorem indexAlong_first : indexAlong declared x.path start = x.type.index := by
  rw [indexAlong, hs.reached x List.mem_cons_self, Option.bind_some, ownIndex,
    hs.found x List.mem_cons_self, Option.bind_some]

variable (hq : (indexAlong declared q start).isSome = true)
  (hleast : ∀ p, (indexAlong declared p start).isSome = true → Precedes q p)

include hleast in
/-- If the first lead has an index, the least path with an index has come to its end. -/
theorem path_first (hindex : x.type.index.isSome = true) (hway : OnWay q (x :: rest)) :
    x.path = q := by
  have hfirst : ¬ Before x.path q := by
    rw [← precedes_iff_not_before]
    exact hleast x.path (by rw [hs.indexAlong_first]; exact hindex)
  obtain ⟨y, hy, tail, rfl⟩ := hway
  rcases List.mem_cons.mp hy with rfl | hy
  · cases tail with
    | nil => exact (List.append_nil _).symm
    | cons place tail => exact absurd (.of_length_lt (by simp)) hfirst
  · exact absurd ((List.rel_of_pairwise_cons hs.ordered hy).append_right tail) hfirst

include hq hleast in
/-- If the first lead has no index, a part of the least path with an index still leads to the queue:
where the path goes on from that lead, the next type has not been seen yet, and this is the first place
of it, since otherwise there were a smaller path to it. -/
theorem onWay_step (hindex : x.type.index = none) (hway : OnWay q (x :: rest)) :
    OnWay q (rest ++ x.further declared seen) := by
  obtain ⟨y, hy, tail, rfl⟩ := hway
  rcases List.mem_cons.mp hy with rfl | hy
  · cases tail with
    | nil =>
      rw [List.append_nil, hs.indexAlong_first, hindex] at hq
      cases hq
    | cons place tail =>
      rw [List.append_cons] at hq hleast
      obtain ⟨key, hkey⟩ := Option.isSome_iff_exists.mp hq
      rw [indexAlong_append, hs.climb_parent] at hkey
      obtain ⟨name, hplace, htail⟩ := Option.bind_eq_some_iff.mp hkey
      have hmem : name ∈ y.type.parents := List.mem_of_getElem? hplace
      have hsmallest : ∀ p, climb declared p start = some name → ¬ Before p (y.path ++ [place]) :=
        fun p hp => precedes_iff_not_before.mp (precedes_of_append hleast htail hp)
      have hfirst : y.type.parents.idxOf name = place := by
        refine (idxOf_le_of_getElem? hplace).eq_of_not_lt fun hless => ?_
        refine hsmallest _ ((hs.climb_parent _).trans (List.getElem?_idxOf hmem)) ?_
        exact ((List.shortlex_singleton_iff _ _).mpr hless).append_left y.path
      have hnew : name ∉ seen := by
        intro hseen
        obtain ⟨p, hp, hahead⟩ := hs.known name hseen
        exact hsmallest p hp (hahead y List.mem_cons_self place)
      cases hfound : find? declared name with
      | none =>
        rw [indexAlong_of_undeclared hfound] at htail
        cases htail
      | some e =>
        obtain rfl := find?_name hfound
        have hjoins : ⟨e, y.path ++ [place]⟩ ∈ y.further declared seen :=
          mem_further.mpr ⟨⟨hmem, hnew, hfound⟩, by rw [hfirst]⟩
        exact ⟨_, List.mem_append_right _ hjoins, tail, (List.append_cons _ _ _).symm⟩
  · exact ⟨y, List.mem_append_left _ hy, List.prefix_append _ _⟩

end Search

/-- A search from one type begins with that type and nothing seen. -/
theorem Search.begin {d : Declaration} (hd : find? declared d.name = some d) :
    Search declared d.name [⟨d, []⟩] .empty where
  found x hx := by
    obtain rfl := List.mem_singleton.mp hx
    exact hd
  reached x hx := by
    obtain rfl := List.mem_singleton.mp hx
    rfl
  ordered := List.pairwise_singleton _ _
  ahead x hx y hy place := by
    obtain rfl := List.mem_singleton.mp hx
    obtain rfl := List.mem_singleton.mp hy
    exact .of_length_lt (by simp)
  known name hname := absurd hname (NameSet.not_mem_empty name)

/-- What the search answers is declared at the end of some path. -/
theorem Search.exists_indexAlong (hs : Search declared start queue seen)
    (h : nearestIndex declared (queue.map Lead.type) seen = some key) :
    ∃ p, indexAlong declared p start = some key := by
  generalize htypes : queue.map Lead.type = types at h
  fun_induction nearestIndex declared types seen generalizing queue with
  | case1 => cases h
  | case2 seen d rest key' hindex =>
    obtain ⟨x, queue, rfl, rfl, rfl⟩ := List.map_eq_cons_iff.mp htypes
    exact ⟨x.path, by rw [hs.indexAlong_first, hindex, h]⟩
  | case3 seen d rest hindex ih =>
    obtain ⟨x, queue, rfl, rfl, rfl⟩ := List.map_eq_cons_iff.mp htypes
    exact ih hs.step (by rw [List.map_append, map_type_further]) h

/-- As long as a part of the least path with an index leads to the queue, the search will answer with
that index. -/
theorem Search.nearestIndex_eq (hs : Search declared start queue seen)
    (hq : indexAlong declared q start = some key)
    (hleast : ∀ p, (indexAlong declared p start).isSome = true → Precedes q p)
    (hway : OnWay q queue) :
    nearestIndex declared (queue.map Lead.type) seen = some key := by
  generalize htypes : queue.map Lead.type = types
  fun_induction nearestIndex declared types seen generalizing queue with
  | case1 =>
    obtain ⟨y, hy, -⟩ := hway
    rw [List.map_eq_nil_iff.mp htypes] at hy
    exact absurd hy List.not_mem_nil
  | case2 seen d rest key' hindex =>
    obtain ⟨x, queue, rfl, rfl, rfl⟩ := List.map_eq_cons_iff.mp htypes
    rw [← hq, ← hs.path_first hleast (by rw [hindex]; rfl) hway, hs.indexAlong_first, hindex]
  | case3 seen d rest hindex ih =>
    obtain ⟨x, queue, rfl, rfl, rfl⟩ := List.map_eq_cons_iff.mp htypes
    exact ih hs.step (hs.onWay_step (by rw [hq]; rfl) hleast hindex hway)
      (by rw [List.map_append, map_type_further])

/-- The search from a type finds exactly what the type inherits, also where types extend each other in
a circle. -/
theorem nearestIndex_eq_some_iff {d : Declaration} (hd : find? declared d.name = some d) :
    nearestIndex declared [d] .empty = some key ↔ Inherits declared d.name key := by
  have hs := Search.begin hd
  have honWay : ∀ q, OnWay q [⟨d, []⟩] := fun q =>
    ⟨_, List.mem_singleton_self _, List.nil_prefix⟩
  constructor
  · intro h
    obtain ⟨p, hp⟩ := hs.exists_indexAlong h
    obtain ⟨q, hq, hleast⟩ := exists_precedes
      (P := fun q => (indexAlong declared q d.name).isSome = true) ⟨p, by rw [hp]; rfl⟩
    obtain ⟨key', hkey'⟩ := Option.isSome_iff_exists.mp hq
    obtain rfl := Option.some.inj (h.symm.trans (hs.nearestIndex_eq hkey' hleast (honWay q)))
    exact inherits_iff.mpr ⟨q, hkey', hleast⟩
  · intro h
    obtain ⟨q, hq, hleast⟩ := inherits_iff.mp h
    exact hs.nearestIndex_eq hq hleast (honWay q)

/-- Members and persons extend each other. The search from a guest goes round once, and then further up. -/
example :
    let guest : Declaration := { name := ⟨"Guest"⟩, role := .node, parents := [⟨"Member"⟩] }
    primaryIndex [guest, { name := ⟨"Member"⟩, role := .node, parents := [⟨"Person"⟩] },
      { name := ⟨"Person"⟩, role := .node, parents := [⟨"Member"⟩, ⟨"Being"⟩] },
      { name := ⟨"Being"⟩, role := .node, index := some "name" }] guest = some "name" := by
  decide +kernel

end Search

namespace Domain

variable {declared : List Declaration} {m : Domain} {d : Declaration} {name : TypeName} {key : String}

/-- A node type has the index that it inherits. -/
theorem primaryIndex_eq_some_iff (hm : build declared = .ok m) (hd : d ∈ declared)
    (hkind : d.kind = .node) :
    primaryIndex declared d = some key ↔ Inherits declared d.name key := by
  rw [primaryIndex, if_pos hkind]
  exact nearestIndex_eq_some_iff (find?_of_mem (wellFormed_of_build hm).distinct hd)

/-- Something is inherited exactly if the type or an ancestor declares something. -/
theorem exists_inherits_iff (hm : build declared = .ok m) :
    (∃ key, Inherits declared name key) ↔
      ∃ e ∈ declared, ReflTransGen (Extends declared) name e.name ∧ e.index ≠ none := by
  have hdistinct := (wellFormed_of_build hm).distinct
  constructor
  · rintro ⟨key, source, p, ⟨hp, -⟩, hown, -⟩
    obtain ⟨e, hfound, hindex⟩ := Option.bind_eq_some_iff.mp hown
    refine ⟨e, mem_of_find? hfound, ?_, by simp [hindex]⟩
    rw [find?_name hfound]
    exact exists_climb_iff.mp ⟨p, hp⟩
  · rintro ⟨e, he, hpath, hindex⟩
    obtain ⟨p, hp⟩ := exists_climb_iff.mpr hpath
    have hsome : (indexAlong declared p name).isSome = true := by
      rw [indexAlong, hp, Option.bind_some, ownIndex, find?_of_mem hdistinct he, Option.bind_some]
      exact Option.isSome_iff_ne_none.mpr hindex
    obtain ⟨q, hq, hfirst⟩ := exists_precedes (P := fun r => (indexAlong declared r name).isSome = true) ⟨p, hsome⟩
    obtain ⟨key, hkey⟩ := Option.isSome_iff_exists.mp hq
    exact ⟨key, inherits_iff.mpr ⟨q, hkey, hfirst⟩⟩

end Domain

end ObjectGraph.Schema
