import ObjectGraph.Fields
import ObjectGraph.Name.Json
import ObjectGraph.Record

/-!
# The JSON form of a record

A record is written as an object of its four parts, the fields by ascending names. It is read from
such an object, in which the relationship may be missing, or from an array of exactly the four parts
in order.
-/

set_option autoImplicit false

namespace ObjectGraph.Record

/-- The names of the fields. -/
def startField : String := "start_node_id"

@[inherit_doc startField]
def endField : String := "end_node_id"

@[inherit_doc startField]
def typeField : String := "relationship_type"

@[inherit_doc startField]
def relationshipField : String := "relationship_id"

def toJson (r : Record) : Json :=
  .ofFields [
    (endField, .ofInt64 r.endNode),
    (relationshipField, match r.relationship with
      | some id => .ofInt64 id
      | none => .null),
    (typeField, r.edgeType.toJson),
    (startField, .ofInt64 r.startNode)]

/-- The record that named parts make up. -/
def ofFields? (fields : List (String × Json)) : Option Record :=
  match Fields.readOr? Json.int64? none startField fields,
    Fields.readOr? Json.int64? none endField fields,
    Fields.readOr? Name.ofJson? none typeField fields,
    Fields.readOr? (Json.orNull? Json.int64?) (some none) relationshipField fields with
  | some s, some e, some t, some r => some ⟨s, e, t, r⟩
  | _, _, _, _ => none

/-- The record that a JSON value is the form of. -/
def ofJson? : Json → Option Record
  | .object members => (Json.namedMembers? members).bind ofFields?
  | .array [s, e, t, r] =>
    match s.int64?, e.int64?, Name.ofJson? t, Json.orNull? Json.int64? r with
    | some s, some e, some t, some r => some ⟨s, e, t, r⟩
    | _, _, _, _ => none
  | _ => none

def parseJson? (s : String) : Option Record := (Json.parse? s).bind ofJson?

def jsonText (r : Record) : String := r.toJson.render

end ObjectGraph.Record
