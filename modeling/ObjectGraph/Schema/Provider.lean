import ObjectGraph.Error
import ObjectGraph.Schema.Domain

/-!
# Providers

A session knows the types only through a provider: three questions, which may fail. All other
questions follow from the description of a type. A domain is a provider; so is anything that answers
the three questions, and a session promises nothing about a provider's answers.
-/

set_option autoImplicit false

namespace ObjectGraph.Schema

/-- Where a session gets its descriptions of types from. -/
structure Provider where
  typeInfo : TypeName → Except Error TypeInfo
  /-- The concrete types below a type. -/
  implementingTypes : TypeName → Except Error (List TypeName)
  /-- Whether instances of a type are tracked as relationships. -/
  isRelationshipType : TypeName → Except Error Bool

namespace Provider

def indexField (p : Provider) (name : TypeName) : Except Error (Option Field) :=
  (p.typeInfo name).map TypeInfo.indexField

/-- The answer to a question for an end, or the error that the type has none. -/
def orNotARelationship (name : TypeName) : Option Field → Except Error Field
  | some f => .ok f
  | none => .error (.notARelationshipType name)

def startField (p : Provider) (name : TypeName) : Except Error Field :=
  (p.typeInfo name).bind fun t => orNotARelationship name t.startField

def endField (p : Provider) (name : TypeName) : Except Error Field :=
  (p.typeInfo name).bind fun t => orNotARelationship name t.endField

def isInterface (p : Provider) (name : TypeName) : Except Error Bool :=
  (p.typeInfo name).map TypeInfo.isInterface

/-- Whether an instance of a type may be used where the target is expected. The target need not be
known. -/
def isAssignable (p : Provider) (name target : TypeName) : Except Error Bool :=
  (p.typeInfo name).map (TypeInfo.isAssignableTo · target)

/-- A provider that calls a type a relationship type by its own description alone, so never an
interface. -/
def plain (typeInfo : TypeName → Except Error TypeInfo)
    (implementingTypes : TypeName → Except Error (List TypeName)) : Provider where
  typeInfo := typeInfo
  implementingTypes := implementingTypes
  isRelationshipType name := (typeInfo name).map TypeInfo.isRelationship

end Provider

namespace Domain

/-- The description of a type, or the error that the domain does not have it. -/
def typeInfo (m : Domain) (name : TypeName) : Except Error TypeInfo :=
  match m.get? name with
  | some t => .ok t
  | none => .error (.unknownType name)

/-- What is asked of a declared type is asked of its description. -/
theorem map_typeInfo {α : Type} {m : Domain} {name : TypeName} {t : TypeInfo}
    (h : m.get? name = some t) (f : TypeInfo → α) : (m.typeInfo name).map f = .ok (f t) := by
  rw [typeInfo, h]
  rfl

/-- Nothing can be asked of a type that is not declared. -/
theorem map_typeInfo_of_undeclared {α : Type} {m : Domain} {name : TypeName}
    (h : m.contains name = false) (f : TypeInfo → α) :
    (m.typeInfo name).map f = .error (.unknownType name) := by
  have hnone : m.get? name = none := Table.contains_eq_false_iff.mp h
  rw [typeInfo, hnone]
  rfl

def implementingTypes (m : Domain) (name : TypeName) : Except Error (List TypeName) :=
  (m.typeInfo name).map fun _ => (m.implementors name).map TypeInfo.name

/-- The provider that a domain is. -/
def provider (m : Domain) : Provider where
  typeInfo := m.typeInfo
  implementingTypes := m.implementingTypes
  isRelationshipType name := (m.typeInfo name).map m.holdsRelationships

/-- The provider that hands on the descriptions of a domain and nothing else of it. -/
def plainProvider (m : Domain) : Provider := .plain m.typeInfo m.implementingTypes

end Domain

end ObjectGraph.Schema
