import ObjectGraph.Json.Token

/-!
# JSON values

A JSON value as a tree, and its tokens in order (`Json.tokens`). Writing puts the tokens down one
after the other without blanks. Reading builds the tree from the tokens with a stack of the arrays and
objects that are still open, one token at a time, so that the depth of the nesting is a matter of the
stack alone.

Members of an object are kept as they are written, in order and with repetitions: what a repeated key
means is for those to say who read the object.
-/

set_option autoImplicit false

namespace ObjectGraph

/-- A JSON value, its numerals and strings as they are written. -/
inductive Json where
  | null
  | boolean (b : Bool)
  | number (n : Numeral)
  | string (t : Json.Text)
  | array (items : List Json)
  | object (members : List (Json.Text × Json))
deriving Repr, Inhabited

namespace Json

/-! ## Tokens of a tree -/

mutual
def tokens : Json → List Token
  | null => [.null]
  | boolean b => [.boolean b]
  | number n => [.number n]
  | string t => [.string t]
  | array items => .openArray :: (tokensOfItems items ++ [.closeArray])
  | object members => .openObject :: (tokensOfMembers members ++ [.closeObject])
/-- The tokens of the items of an array, with commas between the items. -/
def tokensOfItems : List Json → List Token
  | [] => []
  | [v] => v.tokens
  | v :: w :: rest => v.tokens ++ .comma :: tokensOfItems (w :: rest)
/-- The tokens of the members of an object, with commas between the members. -/
def tokensOfMembers : List (Text × Json) → List Token
  | [] => []
  | [(k, v)] => .string k :: .colon :: v.tokens
  | (k, v) :: m :: rest => .string k :: .colon :: (v.tokens ++ .comma :: tokensOfMembers (m :: rest))
end

mutual
/-- How many brackets stand around the innermost part of a value. -/
def nesting : Json → Nat
  | array items => nestingOfItems items + 1
  | object members => nestingOfMembers members + 1
  | _ => 0
def nestingOfItems : List Json → Nat
  | [] => 0
  | v :: rest => max v.nesting (nestingOfItems rest)
def nestingOfMembers : List (Text × Json) → Nat
  | [] => 0
  | (_, v) :: rest => max v.nesting (nestingOfMembers rest)
end

/-! ## A tree from tokens -/

/-- An array or an object that is still open, with what it holds so far, last first. -/
inductive Frame where
  | array (items : List Json)
  | object (members : List (Text × Json)) (key : Text)
deriving Repr

/-- What the tokens read so far leave to be read. -/
inductive Expecting where
  | value
  /-- A value, or the end of the array that has just been opened. -/
  | firstItem
  /-- A key, or the end of the object that has just been opened. -/
  | firstKey
  /-- A key of an object that holds these members. -/
  | key (members : List (Text × Json))
  /-- The colon after a key. -/
  | colon (members : List (Text × Json)) (key : Text)
  /-- A comma, or the end of the innermost open array or object. -/
  | more (last : Json)
deriving Repr

/-- A tree under construction: what is open, innermost first, and what is expected next. -/
structure Construction where
  openFrames : List Frame
  expecting : Expecting
deriving Repr

namespace Construction

def initial : Construction := ⟨[], .value⟩

/-- A token that begins a value: a whole value, or an array or object that opens. -/
def beginValue? (frames : List Frame) : Token → Option Construction
  | .null => some ⟨frames, .more .null⟩
  | .boolean b => some ⟨frames, .more (.boolean b)⟩
  | .number n => some ⟨frames, .more (.number n)⟩
  | .string t => some ⟨frames, .more (.string t)⟩
  | .openArray => some ⟨.array [] :: frames, .firstItem⟩
  | .openObject => some ⟨frames, .firstKey⟩
  | _ => none

def step? (state : Construction) (token : Token) : Option Construction :=
  match state.expecting with
  | .value => beginValue? state.openFrames token
  | .firstItem =>
    match token, state.openFrames with
    | .closeArray, .array _ :: frames => some ⟨frames, .more (.array [])⟩
    | token, frames => beginValue? frames token
  | .firstKey =>
    match token with
    | .string k => some ⟨state.openFrames, .colon [] k⟩
    | .closeObject => some ⟨state.openFrames, .more (.object [])⟩
    | _ => none
  | .key members =>
    match token with
    | .string k => some ⟨state.openFrames, .colon members k⟩
    | _ => none
  | .colon members k =>
    match token with
    | .colon => some ⟨.object members k :: state.openFrames, .value⟩
    | _ => none
  | .more last =>
    match state.openFrames, token with
    | .array items :: frames, .comma => some ⟨.array (last :: items) :: frames, .value⟩
    | .array items :: frames, .closeArray => some ⟨frames, .more (.array (last :: items).reverse)⟩
    | .object members k :: frames, .comma => some ⟨frames, .key ((k, last) :: members)⟩
    | .object members k :: frames, .closeObject =>
      some ⟨frames, .more (.object ((k, last) :: members).reverse)⟩
    | _, _ => none

/-- The value, if one has been read and nothing is open. -/
def finish? (state : Construction) : Option Json :=
  match state.openFrames, state.expecting with
  | [], .more v => some v
  | _, _ => none

def run? : Construction → List Token → Option Construction
  | state, [] => some state
  | state, token :: rest =>
    match state.step? token with
    | none => none
    | some state => run? state rest

end Construction

/-- The value that a list of tokens writes. -/
def ofTokens? (ts : List Token) : Option Json :=
  match Construction.initial.run? ts with
  | none => none
  | some state => state.finish?

/-! ## Text -/

/-- The text of a value, without blanks. -/
def render (v : Json) : String := String.ofList (v.tokens.flatMap Token.write)

/-- The value that a text writes, blanks around its tokens set aside. -/
def parse? (s : String) : Option Json :=
  match scan? s.toList with
  | none => none
  | some ts => ofTokens? ts

end Json

end ObjectGraph
