import ObjectGraph.Session.State

/-!
# The ends of a relationship entity

The two fields that hold the start and the end node are known to the provider by the type of the
entity; a type that has no ends is an error, whatever the entity refers to.
-/

set_option autoImplicit false

namespace ObjectGraph.Session

/-- The start and the end node of an entity, as far as they are set. -/
def endpoints (s : Session) (e : Entity) : Except Error (Option Handle × Option Handle) :=
  match s.provider.startField e.typeName with
  | .error err => .error err
  | .ok startField =>
    match s.provider.endField e.typeName with
    | .error err => .error err
    | .ok endField => .ok (startField.readReference e, endField.readReference e)

end ObjectGraph.Session
