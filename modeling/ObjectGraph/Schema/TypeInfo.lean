import ObjectGraph.NameSet
import ObjectGraph.Schema.Declaration

/-!
# Descriptions of types

What a session asks of a type: what its instances stand for, where they keep their primary key and
their ends, and which types they may be used as.
-/

set_option autoImplicit false

namespace ObjectGraph

/-- A field of an entity: a property holds a value, a reference points to another entity. -/
inductive Field where
  | property (name : String)
  | reference (name : String)
deriving DecidableEq, Repr

def Field.name : Field → String
  | property name => name
  | reference name => name

namespace Schema

/-- The description of one type. -/
structure TypeInfo where
  name : TypeName
  role : Role
  /-- The property that holds the primary key, declared or inherited. -/
  index : Option String
  /-- Every supertype and interface, in one step or more. -/
  ancestors : NameSet .entity
deriving DecidableEq

namespace TypeInfo

def kind (t : TypeInfo) : Kind := t.role.kind

def isInterface (t : TypeInfo) : Bool := t.kind = .interface

def isRelationship (t : TypeInfo) : Bool := t.kind = .relationship

def indexField (t : TypeInfo) : Option Field := t.index.map .property

def startField (t : TypeInfo) : Option Field :=
  match t.role with
  | .relationship startField _ => some (.reference startField)
  | _ => none

def endField (t : TypeInfo) : Option Field :=
  match t.role with
  | .relationship _ endField => some (.reference endField)
  | _ => none

/-- Whether an instance of the type may be used where the target is expected. -/
def isAssignableTo (t : TypeInfo) (target : TypeName) : Bool :=
  t.name = target || target ∈ t.ancestors

end TypeInfo

end Schema

end ObjectGraph
