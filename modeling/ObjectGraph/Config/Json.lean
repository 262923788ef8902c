import ObjectGraph.Error
import ObjectGraph.Fields
import ObjectGraph.Json.Parts

/-!
# The JSON form of a configuration

A configuration is written as an object, its fields by ascending names. It is read from an object in
which fields may be missing, or from an array of the first few fields in order; what is missing has
its standard value.
-/

set_option autoImplicit false

namespace ObjectGraph.Config

/-- The names of the fields. -/
def nodeCapacityField : String := "node_capacity"

@[inherit_doc nodeCapacityField]
def relationshipCapacityField : String := "relationship_capacity"

@[inherit_doc nodeCapacityField]
def strictField : String := "strict_primary_index"

def toJson (c : Config) : Json :=
  .ofFields [
    (nodeCapacityField, .ofUInt64 c.nodeCapacity),
    (relationshipCapacityField, .ofUInt64 c.relationshipCapacity),
    (strictField, .boolean c.strictPrimaryIndex)]

def jsonText (c : Config) : String := c.toJson.render

/-- A configuration from its three parts, if there are three. -/
def ofParts? : Option UInt64 → Option UInt64 → Option Bool → Option Config
  | some n, some r, some b => some ⟨n, r, b⟩
  | _, _, _ => none

/-- The configuration that a JSON value is the form of, valid or not. -/
def ofJson? : Json → Option Config
  | .object members =>
    (Json.namedMembers? members).bind fun fields => ofParts?
      (Fields.readOr? Json.uint64? (some standard.nodeCapacity) nodeCapacityField fields)
      (Fields.readOr? Json.uint64? (some standard.relationshipCapacity) relationshipCapacityField fields)
      (Fields.readOr? Json.boolean? (some standard.strictPrimaryIndex) strictField fields)
  | .array items =>
    if items.length ≤ 3 then ofParts?
      (Fields.readAtOr? Json.uint64? (some standard.nodeCapacity) 0 items)
      (Fields.readAtOr? Json.uint64? (some standard.relationshipCapacity) 1 items)
      (Fields.readAtOr? Json.boolean? (some standard.strictPrimaryIndex) 2 items)
    else none
  | _ => none

/-- The configuration itself if it is valid. -/
def checked (c : Config) : Except Error Config :=
  match c.validate with
  | .ok c => .ok c
  | .error defect => .error (.config defect)

/-- The valid configuration that a JSON text is the form of. -/
def parseJson (s : String) : Except Error Config :=
  match (Json.parse? s).bind ofJson? with
  | some c => c.checked
  | none => .error .json

end ObjectGraph.Config
