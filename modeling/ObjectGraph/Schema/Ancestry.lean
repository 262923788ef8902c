import ObjectGraph.Schema.Remaining

/-!
# Ancestors

The ancestors of a type are the types that it reaches by extending, in one step or more. They are
collected with a stack of names still to be looked at. A name is looked at once: when it is found, its
own parents are put on the stack, and the last of them is looked at next. A type that lies on a cycle
comes upon itself, and then the walk gives up. A type that only leads into a cycle does not, and its
walk goes round the cycle once.
-/

set_option autoImplicit false

namespace ObjectGraph.Schema

/-- The parents that a name is declared with; none if it is not declared. -/
def parentsOf (declared : List Declaration) (name : TypeName) : List TypeName :=
  match find? declared name with
  | some d => d.parents
  | none => []

/-- How many names there are to look at: those on the stack, and those that may still be put there. -/
def stackWeight (declared : List Declaration) (stack : List TypeName) (found : NameSet .entity) : Nat :=
  stack.length + remaining (fun d => d.parents.length) found declared

theorem stackWeight_lt_cons (declared : List Declaration) (name : TypeName) (rest : List TypeName)
    (found : NameSet .entity) : stackWeight declared rest found < stackWeight declared (name :: rest) found :=
  Nat.add_lt_add_right (Nat.lt_succ_self _) _

/-- With a new name there is less to look at, although its parents are put on the stack. -/
theorem stackWeight_insert_lt (declared : List Declaration) {name : TypeName} {found : NameSet .entity}
    (hn : name ∉ found) (rest : List TypeName) :
    stackWeight declared ((parentsOf declared name).reverse ++ rest) (found.insert name) <
      stackWeight declared (name :: rest) found := by
  have hless := remaining_insert_add (fun d => d.parents.length) declared hn
  have hparents : (parentsOf declared name).length =
      (find? declared name).elim 0 fun d => d.parents.length := by
    rw [parentsOf]
    cases find? declared name <;> rfl
  simp only [stackWeight, List.length_append, List.length_reverse, List.length_cons]
  omega

/-- The walk up from a type, with the top of the stack in front. -/
def walk (declared : List Declaration) (start : TypeName) (stack : List TypeName)
    (found : NameSet .entity) : Except Defect (NameSet .entity) :=
  match stack with
  | [] => .ok found
  | name :: rest =>
    if name = start then .error (.inheritanceCycle start)
    else if name ∈ found then walk declared start rest found
    else walk declared start ((parentsOf declared name).reverse ++ rest) (found.insert name)
termination_by stackWeight declared stack found
decreasing_by
  next => exact stackWeight_lt_cons declared name rest found
  next hn => exact stackWeight_insert_lt declared hn rest

/-- The ancestors of a type, or that it lies on a cycle. -/
def ancestors? (declared : List Declaration) (d : Declaration) : Except Defect (NameSet .entity) :=
  walk declared d.name d.parents.reverse .empty

end ObjectGraph.Schema
