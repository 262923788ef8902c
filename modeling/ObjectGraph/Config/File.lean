import ObjectGraph.Config.Json
import ObjectGraph.Config.Yaml

/-!
# Configuration files

A configuration file is text in YAML if the extension of its name says so, and else in JSON. The
extension is what follows the last dot of the last part of the name; a name that starts with its only
dot has none, and case counts.
-/

set_option autoImplicit false

namespace ObjectGraph.Config

/-- The last part of a file name with slashes. -/
def lastPart (name : List Char) : List Char := (name.reverse.takeWhile (· ≠ '/')).reverse

/-- The extension of a file name. -/
def extension? (name : String) : Option String :=
  let reversed := (lastPart name.toList).reverse
  let extension := reversed.takeWhile (· ≠ '.')
  match reversed.drop extension.length with
  | '.' :: _ :: _ => some (String.ofList extension.reverse)
  | _ => none

def isYamlName (name : String) : Bool := extension? name = some "yml" || extension? name = some "yaml"

/-- The valid configuration in a file, given by its name and by the bytes that it holds, if it can be
opened at all. -/
def ofFile (name : String) (content : Option (List UInt8)) : Except Error Config :=
  match content with
  | none => .error .io
  | some bytes =>
    match String.fromUTF8? ⟨bytes.toArray⟩ with
    | none => .error .io
    | some text => if isYamlName name then parseYaml text else parseJson text

end ObjectGraph.Config
