import ObjectGraph.KeyOrder
import ObjectGraph.Number.Layout

/-!
# Property values

What a property of an entity may hold: a text, a whole number, a floating-point number, a truth
value, a moment in milliseconds, a list of values, a map from texts to values, or nothing.

A map is a list of bindings whose order means nothing (see `KeyOrder`). `normal` writes every map
inside a value by ascending keys, and two values hold the same thing exactly when their normal forms
are the same. Texts, comparison and encodings go through it.
-/

set_option autoImplicit false

namespace ObjectGraph

/-- A property value. -/
inductive Value where
  | string (s : String)
  | integer (i : Int64)
  | float (x : Binary64)
  | boolean (b : Bool)
  | dateTime (millis : Int64)
  | array (items : List Value)
  | map (bindings : List (String × Value))
  | null
deriving Repr, Inhabited

namespace Value

/-- What holds of a list as soon as it holds of its items, of a map as soon as it holds of the bound
values, and of all other values, holds of every value. -/
@[elab_as_elim, induction_eliminator]
theorem induction {P : Value → Prop} (string : ∀ s, P (.string s)) (integer : ∀ i, P (.integer i))
    (float : ∀ x, P (.float x)) (boolean : ∀ b, P (.boolean b))
    (dateTime : ∀ millis, P (.dateTime millis))
    (array : ∀ items, (∀ v ∈ items, P v) → P (.array items))
    (map : ∀ bindings, (∀ b ∈ bindings, P b.2) → P (.map bindings)) (null : P .null) (v : Value) :
    P v := by
  refine @Value.rec P (fun items => ∀ v ∈ items, P v) (fun bindings => ∀ b ∈ bindings, P b.2)
    (fun b => P b.2) string integer float boolean dateTime array map null ?_ ?_ ?_ ?_ ?_ v
  · intro v hv
    exact absurd hv List.not_mem_nil
  · intro v rest hhead htail
    exact List.forall_mem_cons.mpr ⟨hhead, htail⟩
  · intro b hb
    exact absurd hb List.not_mem_nil
  · intro b rest hhead htail
    exact List.forall_mem_cons.mpr ⟨hhead, htail⟩
  · intro k v hv
    exact hv

/-- The forms that a value may have. -/
inductive Kind where
  | string
  | integer
  | float
  | boolean
  | dateTime
  | array
  | map
  | null
deriving DecidableEq, Repr

def Kind.text : Kind → String
  | .string => "String"
  | .integer => "Integer"
  | .float => "Float"
  | .boolean => "Boolean"
  | .dateTime => "DateTime"
  | .array => "Array"
  | .map => "Map"
  | .null => "Null"

def kind : Value → Kind
  | string _ => .string
  | integer _ => .integer
  | float _ => .float
  | boolean _ => .boolean
  | dateTime _ => .dateTime
  | array _ => .array
  | map _ => .map
  | null => .null

def isNull : Value → Bool
  | null => true
  | _ => false

def asString? : Value → Option String
  | string s => some s
  | _ => none

/-- The whole number that a value is. A moment is not a whole number. -/
def asInteger? : Value → Option Int64
  | integer i => some i
  | _ => none

def asFloat? : Value → Option Binary64
  | float x => some x
  | _ => none

def asBoolean? : Value → Option Bool
  | boolean b => some b
  | _ => none

/-! ## Normal form -/

mutual
/-- The same value with every map written by ascending keys, each key once. -/
def normal : Value → Value
  | string s => string s
  | integer i => integer i
  | float x => float x
  | boolean b => boolean b
  | dateTime millis => dateTime millis
  | array items => array (normalItems items)
  | map bindings => map (normalBindings bindings)
  | null => null
def normalItems : List Value → List Value
  | [] => []
  | v :: rest => v.normal :: normalItems rest
/-- Every bound value in normal form, and the bindings sorted. -/
def normalBindings : List (String × Value) → List (String × Value)
  | [] => []
  | (k, v) :: rest => KeyOrder.place k v.normal (normalBindings rest)
end

theorem normalItems_eq_map (items : List Value) : normalItems items = items.map normal := by
  induction items with
  | nil => rfl
  | cons v rest ih => simp only [normalItems, List.map_cons, ih]

theorem normalBindings_eq_sorted (bindings : List (String × Value)) :
    normalBindings bindings = KeyOrder.sorted (bindings.map fun e => (e.1, e.2.normal)) := by
  induction bindings with
  | nil => rfl
  | cons e rest ih => rw [normalBindings, ih, List.map_cons, KeyOrder.sorted]

theorem ascending_normalBindings (bindings : List (String × Value)) :
    KeyOrder.Ascending (normalBindings bindings) := by
  induction bindings with
  | nil => exact .nil
  | cons e rest ih => exact KeyOrder.ascending_place e.1 e.2.normal ih

theorem lookup_normalBindings (bindings : List (String × Value)) (k : String) :
    (normalBindings bindings).lookup k = (bindings.lookup k).map normal := by
  induction bindings with
  | nil => rfl
  | cons e rest ih =>
    obtain ⟨j, v⟩ := e
    rw [normalBindings, KeyOrder.lookup_place, ih, KeyOrder.lookup_cons]
    split <;> rfl

/-! ## Comparison -/

mutual
/-- Comparison of two values whose maps are written in the same order. -/
def alike : Value → Value → Bool
  | string s, string t => s == t
  | integer i, integer j => i == j
  | float x, float y => x.numericallyEqual y
  | boolean b, boolean c => b == c
  | dateTime m, dateTime n => m == n
  | array items, array others => alikeItems items others
  | map bindings, map others => alikeBindings bindings others
  | null, null => true
  | _, _ => false
/-- Item by item, and as many. -/
def alikeItems : List Value → List Value → Bool
  | [], [] => true
  | v :: rest, w :: others => v.alike w && alikeItems rest others
  | _, _ => false
/-- Binding by binding, and as many. -/
def alikeBindings : List (String × Value) → List (String × Value) → Bool
  | [], [] => true
  | (k, v) :: rest, (j, w) :: others => k == j && v.alike w && alikeBindings rest others
  | _, _ => false
end

/-- Whether two values are equal as values of arithmetic: floating-point numbers compare numerically,
so a value with a not-a-number inside does not equal itself, and forms are never mixed. -/
def equals (v w : Value) : Bool := v.normal.alike w.normal

/-! ## Text -/

mutual
/-- The text of a value whose maps are in order. A string stands between quotes as it is. -/
def write : Value → String
  | string s => "\"" ++ s ++ "\""
  | integer i => toString i
  | float x => x.text
  | boolean b => if b then "true" else "false"
  | dateTime millis => "DateTime(" ++ toString millis ++ ")"
  | array items => "[" ++ String.intercalate ", " (writeItems items) ++ "]"
  | map bindings => "\x7b" ++ String.intercalate ", " (writeBindings bindings) ++ "\x7d"
  | null => "null"
def writeItems : List Value → List String
  | [] => []
  | v :: rest => v.write :: writeItems rest
/-- The text of each binding: the bare key, a colon, the value. -/
def writeBindings : List (String × Value) → List String
  | [] => []
  | (k, v) :: rest => (k ++ ": " ++ v.write) :: writeBindings rest
end

/-- The text of a value, its maps by ascending keys. -/
def text (v : Value) : String := v.normal.write

end Value

end ObjectGraph
