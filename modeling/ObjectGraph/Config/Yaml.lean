import ObjectGraph.Config.Json
import ObjectGraph.Yaml.Document

/-!
# The YAML form of a configuration

A configuration is read from a mapping, under the same names as in JSON; what is missing has its
standard value, as everything has in a void document. Keys are text, however it is written.
-/

set_option autoImplicit false

namespace ObjectGraph.Config

open Yaml

/-- The entries of a mapping under the texts of their keys, if every key is a scalar. -/
def namedEntries? (d : Document) : List (Node Nat × Node Nat) → Option (List (String × Node Nat))
  | [] => some []
  | (key, value) :: rest =>
    match d.scalar? key, namedEntries? d rest with
    | some name, some rest => some ((name.text, value) :: rest)
    | _, _ => none

/-- The configuration that fields of a document hold, valid or not. -/
def ofYamlFields? (d : Document) (fields : List (String × Node Nat)) : Option Config :=
  ofParts?
    (Fields.readOr? (fun v => (d.scalar? v).bind Scalar.uint64?) (some standard.nodeCapacity)
      nodeCapacityField fields)
    (Fields.readOr? (fun v => (d.scalar? v).bind Scalar.uint64?) (some standard.relationshipCapacity)
      relationshipCapacityField fields)
    (Fields.readOr? (fun v => (d.scalar? v).bind Scalar.boolean?) (some standard.strictPrimaryIndex)
      strictField fields)

/-- The configuration that a document is the form of, valid or not. -/
def ofYaml? (d : Document) : Option Config :=
  match d.root with
  | none => some standard
  | some (.scalar _ content) => if content.isVoid then some standard else none
  | some (.mapping _ _ entries) => (namedEntries? d entries).bind (ofYamlFields? d)
  | some _ => none

/-- The valid configuration that a YAML text is the form of. -/
def parseYaml (s : String) : Except Error Config :=
  match (Document.parse? s).bind ofYaml? with
  | some c => c.checked
  | none => .error .yaml

end ObjectGraph.Config
