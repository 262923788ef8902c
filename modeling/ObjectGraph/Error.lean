import ObjectGraph.Config
import ObjectGraph.Schema.Declaration
import ObjectGraph.Value

/-!
# Errors

Everything that can go wrong is a defect of the domain, of the configuration or of the way in which a
session is used. That something is not there is never an error; it is answered by `none` or `false`.
-/

set_option autoImplicit false

namespace ObjectGraph

/-- Why an operation fails. -/
inductive Error where
  | unknownType (name : TypeName)
  /-- The ends of a type were asked for that has none. -/
  | notARelationshipType (name : TypeName)
  /-- The primary-index property holds something that is no key. -/
  | unindexableValue (kind : Value.Kind)
  | invalidMetadata (defect : Schema.Defect)
  | config (defect : Config.Defect)
  /-- A file cannot be read. -/
  | io
  /-- A text is not the YAML form that is expected. -/
  | yaml
  /-- A text is not the JSON form that is expected. -/
  | json
deriving DecidableEq, Repr

def Error.message : Error → String
  | unknownType name => "Unknown entity type: " ++ name.text
  | notARelationshipType name => "Type " ++ name.text ++ " is not a relationship entity type"
  | unindexableValue kind => "Unindexable primary key value of type " ++ kind.text
  | invalidMetadata defect => "Invalid metadata: " ++ defect.message
  | config defect => "Configuration error: " ++ defect.message
  | io => "I/O error"
  | yaml => "YAML error"
  | json => "JSON error"

end ObjectGraph
