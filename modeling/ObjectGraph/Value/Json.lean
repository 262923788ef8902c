import ObjectGraph.Json.Parts
import ObjectGraph.Value

/-!
# The JSON form of a value

A value is written as an object with one member, whose key is the word for the form of the value; the
value `null` has nothing to say besides and is the bare word. Floating-point numbers without a JSON
form are written as `null`, so they do not read back.

Reading follows the same form. A map may repeat a key, and the last value counts. Values nested too
deeply are refused: each bracket counts one step, and `nestingLimit` steps are allowed.
-/

set_option autoImplicit false

namespace ObjectGraph.Value

/-- A value tagged by the word for its form. -/
def tagged (kind : Kind) (content : Json) : Json := .ofFields [(kind.text, content)]

mutual
/-- The JSON form of a value whose maps are in order. -/
def writeJson : Value → Json
  | string s => tagged .string (.ofString s)
  | integer i => tagged .integer (.ofInt64 i)
  | float x => tagged .float (.ofBinary64 x)
  | boolean b => tagged .boolean (.boolean b)
  | dateTime millis => tagged .dateTime (.ofInt64 millis)
  | array items => tagged .array (.array (writeJsonItems items))
  | map bindings => tagged .map (.object (writeJsonBindings bindings))
  | null => .ofString Kind.null.text
def writeJsonItems : List Value → List Json
  | [] => []
  | v :: rest => v.writeJson :: writeJsonItems rest
def writeJsonBindings : List (String × Value) → List (Json.Text × Json)
  | [] => []
  | (k, v) :: rest => (Json.Text.ofString k, v.writeJson) :: writeJsonBindings rest
end

/-- The JSON form of a value, its maps by ascending keys. -/
def toJson (v : Value) : Json := v.normal.writeJson

/-- The form that a word stands for. -/
def Kind.ofText? (s : String) : Option Kind :=
  [Kind.string, .integer, .float, .boolean, .dateTime, .array, .map, .null].find? fun k => k.text == s

/-- The bindings with one more in front, unless a later one for the same key hides it. -/
def bindUnlessLater (k : String) (v : Value) (rest : List (String × Value)) : List (String × Value) :=
  if rest.any fun e => e.1 == k then rest else (k, v) :: rest

mutual
/-- The value that a JSON value is the form of, whatever its nesting. -/
def ofJson? : Json → Option Value
  | .string t => if t.toString? = some Kind.null.text then some null else none
  | .object [(tag, content)] =>
    match tag.toString?.bind Kind.ofText?, content with
    | some .string, content => content.string?.map string
    | some .integer, content => content.int64?.map integer
    | some .float, content => content.binary64?.map float
    | some .boolean, content => content.boolean?.map boolean
    | some .dateTime, content => content.int64?.map dateTime
    | some .array, .array items => (ofJsonItems? items).map array
    | some .map, .object members => (ofJsonMembers? members).map map
    | some .null, .null => some null
    | _, _ => none
  | _ => none
def ofJsonItems? : List Json → Option (List Value)
  | [] => some []
  | v :: rest =>
    match ofJson? v, ofJsonItems? rest with
    | some v, some rest => some (v :: rest)
    | _, _ => none
def ofJsonMembers? : List (Json.Text × Json) → Option (List (String × Value))
  | [] => some []
  | (k, v) :: rest =>
    match k.toString?, ofJson? v, ofJsonMembers? rest with
    | some k, some v, some rest => some (bindUnlessLater k v rest)
    | _, _, _ => none
end

/-- How deep a value may be nested to be read. -/
def nestingLimit : Nat := 127

def parseJson? (s : String) : Option Value :=
  match Json.parse? s with
  | none => none
  | some v => if v.nesting ≤ nestingLimit then ofJson? v else none

def jsonText (v : Value) : String := v.toJson.render

end ObjectGraph.Value
