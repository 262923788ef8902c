import ObjectGraph.Name

/-!
# Type declarations

A domain is declared type by type. A declaration gives a type's name, what instances of it stand for,
the types that it extends or implements, in order, and perhaps the property that holds the primary
key. A declaration may say things that make no sense; `Defect` lists what a list of declarations can
be refused for.
-/

set_option autoImplicit false

namespace ObjectGraph.Schema

/-- What instances of a type stand for. -/
inductive Kind where
  /-- Nodes of the graph. -/
  | node
  /-- Relationships that have an identity of their own. -/
  | relationship
  /-- Nothing: an interface has no instances, only types that implement it. -/
  | interface
deriving DecidableEq, Repr

def Kind.text : Kind → String
  | node => "Node"
  | relationship => "Relationship"
  | interface => "Interface"

/-- The kind of a type with what belongs to that kind: a relationship has its start and end nodes in
two named reference fields. -/
inductive Role where
  | node
  | relationship (startField endField : String)
  | interface
deriving DecidableEq, Repr

def Role.kind : Role → Kind
  | node => .node
  | relationship _ _ => .relationship
  | interface => .interface

/-- The declaration of one type. -/
structure Declaration where
  name : TypeName
  role : Role
  /-- The direct supertypes and interfaces, in order. -/
  parents : List TypeName := []
  /-- The property that holds the primary key, if the type declares one itself. -/
  index : Option String := none
deriving DecidableEq, Repr

def Declaration.kind (d : Declaration) : Kind := d.role.kind

/-- Whether a type of the first kind may extend one of the second. Interfaces may be implemented by
anything and extend interfaces only; nodes extend nodes, and relationships relationships. -/
def Kind.mayExtend : Kind → Kind → Bool
  | _, .interface => true
  | .interface, _ => false
  | child, parent => child = parent

/-- Why a list of declarations is no domain. -/
inductive Defect where
  | declaredTwice (name : TypeName)
  | undeclaredParent (name parent : TypeName)
  | incompatibleParent (name : TypeName) (kind : Kind) (parent : TypeName) (parentKind : Kind)
  | indexOnNonNode (name : TypeName)
  | inheritanceCycle (name : TypeName)
deriving DecidableEq, Repr

def Defect.message : Defect → String
  | declaredTwice name => "type " ++ name.text ++ " declared twice"
  | undeclaredParent name parent => name.text ++ " extends undeclared type " ++ parent.text
  | incompatibleParent name kind parent parentKind =>
    name.text ++ " (" ++ kind.text ++ ") cannot extend " ++ parent.text ++ " (" ++ parentKind.text ++ ")"
  | indexOnNonNode name => "primary index declared on non-node type " ++ name.text
  | inheritanceCycle name => "inheritance cycle through " ++ name.text

/-- The declaration of a name on a list. -/
def find? (declared : List Declaration) (name : TypeName) : Option Declaration :=
  declared.find? fun d => d.name = name

theorem find?_name {declared : List Declaration} {name : TypeName} {d : Declaration}
    (h : find? declared name = some d) : d.name = name := by
  simpa using List.find?_some h

theorem mem_of_find? {declared : List Declaration} {name : TypeName} {d : Declaration}
    (h : find? declared name = some d) : d ∈ declared := List.mem_of_find?_eq_some h

end ObjectGraph.Schema
