import ObjectGraph.Value

/-!
# Keys

A key is a value that can be looked up: a whole number, a text, a truth value or a moment. Floating-
point numbers, lists, maps and nothing are no keys, since they have no total order to be found by.
A whole number does double duty: it is also a native id.
-/

set_option autoImplicit false

namespace ObjectGraph

/-- The id that the backing store has given to a node or to a relationship. -/
abbrev NativeId := Int64

/-- An absent id comes before every id. -/
def compareIds : Option NativeId → Option NativeId → Ordering
  | none, none => .eq
  | none, some _ => .lt
  | some _, none => .gt
  | some i, some j => compare i j

/-- A value that can serve as a primary key. -/
inductive Key where
  | integer (i : Int64)
  | string (s : String)
  | boolean (b : Bool)
  | dateTime (millis : Int64)
deriving DecidableEq, Repr

namespace Key

/-- The key that a value is, or the form that keeps it from being one. -/
def ofValue : Value → Except Value.Kind Key
  | .integer i => .ok (integer i)
  | .string s => .ok (string s)
  | .boolean b => .ok (boolean b)
  | .dateTime millis => .ok (dateTime millis)
  | v => .error v.kind

def toValue : Key → Value
  | integer i => .integer i
  | string s => .string s
  | boolean b => .boolean b
  | dateTime millis => .dateTime millis

@[simp] theorem ofValue_toValue (k : Key) : ofValue k.toValue = .ok k := by
  cases k <;> rfl

/-- The native id that a key denotes, if it is a whole number. -/
def nativeId? : Key → Option NativeId
  | integer i => some i
  | _ => none

/-- Keys of different forms come in this order. -/
def rank : Key → Nat
  | integer _ => 0
  | string _ => 1
  | boolean _ => 2
  | dateTime _ => 3

/-- By form, and within one form by value. -/
instance : Ord Key where
  compare
    | integer i, integer j => compare i j
    | string s, string t => compare s t
    | boolean b, boolean c => compare b c
    | dateTime m, dateTime n => compare m n
    | k, l => compare k.rank l.rank

def text (k : Key) : String := k.toValue.text

end Key

end ObjectGraph
