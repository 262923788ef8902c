import ObjectGraph.Json.Number
import ObjectGraph.Json.Tree
import ObjectGraph.Number.Layout

/-!
# Parts of JSON values

What the readers of single types share: a JSON value as a string, a number or a truth value, and the
members of an object under their names.
-/

set_option autoImplicit false

namespace ObjectGraph.Json

def ofString (s : String) : Json := .string (Text.ofString s)

def ofInt64 (i : Int64) : Json := .number (.ofInt i.toInt)

def ofUInt64 (n : UInt64) : Json := .number (.ofNat n.toNat)

/-- A binary number as a JSON value. JSON has no form for infinities and not-a-numbers. -/
def ofBinary64 (x : Binary64) : Json := if x.isFinite then .number x.compactNumeral else .null

def ofFields (fields : List (String × Json)) : Json :=
  .object (fields.map fun f => (Text.ofString f.1, f.2))

def string? : Json → Option String
  | .string t => t.toString?
  | _ => none

def int64? : Json → Option Int64
  | .number n => n.toInt64?
  | _ => none

def uint64? : Json → Option UInt64
  | .number n => n.toUInt64?
  | _ => none

def binary64? : Json → Option Binary64
  | .number n => n.toBinary64?
  | _ => none

def boolean? : Json → Option Bool
  | .boolean b => some b
  | _ => none

/-- A JSON value that may be null instead. -/
def orNull? {α : Type} (read? : Json → Option α) : Json → Option (Option α)
  | .null => some none
  | v => (read? v).map some

/-- The members of an object with their keys as strings, if every key is one. -/
def namedMembers? : List (Text × Json) → Option (List (String × Json))
  | [] => some []
  | (k, v) :: rest =>
    match k.toString?, namedMembers? rest with
    | some name, some rest => some ((name, v) :: rest)
    | _, _ => none

end ObjectGraph.Json
