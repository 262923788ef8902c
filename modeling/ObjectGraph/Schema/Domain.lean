import ObjectGraph.Schema.Ancestry
import ObjectGraph.Schema.PrimaryIndex
import ObjectGraph.Schema.TypeInfo
import ObjectGraph.Table

/-!
# Domains

A domain is a list of declarations that fit together, each type with its ancestors and its primary
index worked out. `build` refuses a list for its first defect: a repeated name before anything else,
then a declaration whose parents or whose index will not do. Only then are the types described, one
after the other, and the first type that lies on a cycle stops it. The types described before that one
may lead into the cycle, so both walks up from a type have to end on cycles too.
-/

set_option autoImplicit false

namespace ObjectGraph.Schema

/-- The first declaration whose name is among the given ones or was declared before it. -/
def repetition? (seen : List TypeName) : List Declaration → Option Defect
  | [] => none
  | d :: rest =>
    if d.name ∈ seen then some (.declaredTwice d.name) else repetition? (d.name :: seen) rest

/-- What is wrong with one parent of a declaration. -/
def parentDefect? (declared : List Declaration) (d : Declaration) (parent : TypeName) : Option Defect :=
  match find? declared parent with
  | none => some (.undeclaredParent d.name parent)
  | some p =>
    if d.kind.mayExtend p.kind then none
    else some (.incompatibleParent d.name d.kind parent p.kind)

/-- What is wrong with a declaration among the others: the first bad parent, else a misplaced index. -/
def declarationDefect? (declared : List Declaration) (d : Declaration) : Option Defect :=
  (d.parents.findSome? (parentDefect? declared d)).or <|
    if d.kind ≠ .node ∧ d.index.isSome then some (.indexOnNonNode d.name) else none

/-- The first repetition, else the first declaration that does not fit the others. -/
def misfit? (declared : List Declaration) : Option Defect :=
  (repetition? [] declared).or (declared.findSome? (declarationDefect? declared))

/-- The description of a declared type, with what it inherits, or that it lies on a cycle. -/
def describe? (declared : List Declaration) (d : Declaration) : Except Defect TypeInfo := do
  let ancestors ← ancestors? declared d
  return { name := d.name, role := d.role, index := primaryIndex declared d, ancestors }

/-- The types of a domain by their names, in the order of their declaration. -/
structure Domain where
  types : Table TypeName TypeInfo

namespace Domain

/-- The domain that a list of declarations makes up, or its first defect. -/
def build (declared : List Declaration) : Except Defect Domain :=
  match misfit? declared with
  | some defect => .error defect
  | none => do
    let types ← declared.mapM (describe? declared)
    return ⟨.ofList (types.map fun t => (t.name, t))⟩

def size (m : Domain) : Nat := m.types.size

def contains (m : Domain) (name : TypeName) : Bool := m.types.contains name

def get? (m : Domain) (name : TypeName) : Option TypeInfo := m.types.get? name

/-- The descriptions of the concrete types below a type, in the order of their declaration. -/
def implementors (m : Domain) (name : TypeName) : List TypeInfo :=
  m.types.values.filter fun t => !t.isInterface && decide (name ∈ t.ancestors)

/-- Whether instances of a described type are relationships: an interface has relationships for
instances if something implements it and all that does is a relationship type. -/
def holdsRelationships (m : Domain) (t : TypeInfo) : Bool :=
  if t.isInterface then
    let implementors := m.implementors t.name
    !implementors.isEmpty && implementors.all TypeInfo.isRelationship
  else t.isRelationship

end Domain

end ObjectGraph.Schema
