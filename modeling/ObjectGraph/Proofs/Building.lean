import ObjectGraph.Schema.Domain

/-!
# Building in one look

A build describes one type after the other and stops at the first that lies on a cycle. What it comes to
can be said at once: each declaration has its set of ancestors, whether it lies on a cycle or not
(`ancestors`), and so its description and its defect; the build answers with the first defect of all,
or else with all descriptions (`Domain.build_eq`).
-/

set_option autoImplicit false

namespace ObjectGraph.Schema

/-! ## A walk that never gives up -/

/-- Everything that the names on the stack reach in no step or more, on top of what is found already. -/
def reach (declared : List Declaration) (stack : List TypeName) (found : NameSet .entity) :
    NameSet .entity :=
  match stack with
  | [] => found
  | name :: rest =>
    if name ∈ found then reach declared rest found
    else reach declared ((parentsOf declared name).reverse ++ rest) (found.insert name)
termination_by stackWeight declared stack found
decreasing_by
  next => exact stackWeight_lt_cons declared name rest found
  next hn => exact stackWeight_insert_lt declared hn rest

def ancestors (declared : List Declaration) (d : Declaration) : NameSet .entity :=
  reach declared d.parents.reverse .empty

section Walk

variable {declared : List Declaration} {stack : List TypeName} {found : NameSet .entity}
  {name start : TypeName}

/-- The walk keeps what it has found. -/
theorem mem_reach_of_found (h : name ∈ found) : name ∈ reach declared stack found := by
  fun_induction reach declared stack found with
  | case1 found => exact h
  | case2 found next rest hin ih => exact ih h
  | case3 found next rest hnew ih => exact ih (NameSet.mem_insert.mpr (.inr h))

/-- A walk gives up exactly where it would come upon its start. -/
theorem walk_eq (hstart : start ∉ found) :
    walk declared start stack found =
      if start ∈ reach declared stack found then .error (.inheritanceCycle start)
      else .ok (reach declared stack found) := by
  fun_induction walk declared start stack found with
  | case1 found => rw [reach, if_neg hstart]
  | case2 found rest =>
    rw [reach, if_neg hstart, if_pos (mem_reach_of_found (NameSet.mem_insert.mpr (.inl rfl)))]
  | case3 found name rest hne hin ih => rw [ih hstart, reach, if_pos hin]
  | case4 found name rest hne hnew ih =>
    have hstart' : start ∉ found.insert name := by
      rw [NameSet.mem_insert]
      rintro (rfl | hin)
      · exact hne rfl
      · exact hstart hin
    rw [ih hstart', reach, if_neg hnew]

end Walk

/-! ## Each declaration by itself -/

/-- The defect of a type that is its own ancestor. -/
def cycleDefect? (declared : List Declaration) (d : Declaration) : Option Defect :=
  if d.name ∈ ancestors declared d then some (.inheritanceCycle d.name) else none

/-- The first defect of a list of declarations. -/
def firstDefect? (declared : List Declaration) : Option Defect :=
  (misfit? declared).or (declared.findSome? (cycleDefect? declared))

/-- The description of a declared type. -/
def describe (declared : List Declaration) (d : Declaration) : TypeInfo where
  name := d.name
  role := d.role
  index := primaryIndex declared d
  ancestors := ancestors declared d

theorem describe?_eq (declared : List Declaration) (d : Declaration) :
    describe? declared d = (cycleDefect? declared d).elim (.ok (describe declared d)) .error := by
  rw [describe?, ancestors?, walk_eq (NameSet.not_mem_empty d.name), cycleDefect?, ancestors]
  split <;> rfl

/-! ## One after the other -/

/-- Going through a list ends with the first refusal, or with all results. -/
theorem mapM_eq_of_findSome? {α β ε : Type} {f : α → Except ε β} {refusal : α → Option ε}
    {result : α → β} (hf : ∀ a, f a = (refusal a).elim (.ok (result a)) .error) (l : List α) :
    l.mapM f = (l.findSome? refusal).elim (.ok (l.map result)) .error := by
  induction l with
  | nil => rfl
  | cons a rest ih =>
    rw [List.mapM_cons, hf, ih, List.findSome?_cons]
    cases refusal a with
    | some e => rfl
    | none => cases rest.findSome? refusal <;> rfl

namespace Domain

/-- A build answers with the first defect, or with the description of every type. -/
theorem build_eq (declared : List Declaration) :
    build declared = (firstDefect? declared).elim
      (.ok ⟨.ofList (declared.map fun d => (d.name, describe declared d))⟩) .error := by
  rw [build, mapM_eq_of_findSome? (describe?_eq declared), firstDefect?]
  cases misfit? declared with
  | some defect => rfl
  | none =>
    cases declared.findSome? (cycleDefect? declared) with
    | some defect => rfl
    | none =>
      show Except.ok (mk (.ofList ((declared.map (describe declared)).map fun t => (t.name, t)))) = _
      rw [List.map_map]
      rfl

end Domain

end ObjectGraph.Schema
