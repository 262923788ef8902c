import ObjectGraph.Json.Parts
import ObjectGraph.Name

/-!
# The JSON form of a name

A name is written as the JSON string of its text; its sort is known to the reader.
-/

set_option autoImplicit false

namespace ObjectGraph.Name

variable {sort : NameSort}

def toJson (n : Name sort) : Json := .ofString n.text

def ofJson? (v : Json) : Option (Name sort) := v.string?.map Name.mk

end ObjectGraph.Name
