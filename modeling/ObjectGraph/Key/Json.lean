import ObjectGraph.Key
import ObjectGraph.Value.Json

/-!
# The JSON form of a key

A key is written as the value that it is. Reading takes the form of a key only.
-/

set_option autoImplicit false

namespace ObjectGraph.Key

def toJson (k : Key) : Json := k.toValue.toJson

/-- The key that a JSON value is the form of. -/
def ofJson? (v : Json) : Option Key :=
  match Value.ofJson? v with
  | none => none
  | some v => (ofValue v).toOption

def parseJson? (s : String) : Option Key := (Json.parse? s).bind ofJson?

def jsonText (k : Key) : String := k.toJson.render

end ObjectGraph.Key
