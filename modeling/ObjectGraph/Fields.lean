/-!
# Named fields

Values under names, as an object or a mapping of some format holds them, before anything is known of
the values. A field may be written once only; its value is looked for by name, and fields that nobody
asks for are passed over, however they look.
-/

set_option autoImplicit false

namespace ObjectGraph.Fields

variable {α β : Type}

/-- The value of a field that may be missing; refused if the field is written more than once. -/
def find? (name : String) (fields : List (String × β)) : Option (Option β) :=
  match fields.filter fun f => f.1 == name with
  | [] => some none
  | [f] => some (some f.2)
  | _ => none

/-- A field read as some type, with a value to take where it is missing. -/
def readOr? (read? : β → Option α) (default : Option α) (name : String)
    (fields : List (String × β)) : Option α :=
  match find? name fields with
  | none => none
  | some none => default
  | some (some v) => read? v

/-- The item at a place read as some type, with a value to take where there are fewer items. -/
def readAtOr? (read? : β → Option α) (default : Option α) (place : Nat) (items : List β) : Option α :=
  match items[place]? with
  | none => default
  | some v => read? v

end ObjectGraph.Fields
