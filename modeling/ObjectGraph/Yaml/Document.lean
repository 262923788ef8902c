import ObjectGraph.Yaml.Node

/-!
# Documents of YAML

A text holds one document, or nothing at all. A document may start with directives, which say the
version of YAML and what the handles of tags stand for, and may be marked off by lines of dashes and
of dots.

An alias must come after its anchor. An anchor's place in the table of contents is the number of
different names before it, so an anchor that takes a name again may share its place with a later one.
An alias stands for the last content of its place.
-/

set_option autoImplicit false

namespace ObjectGraph.Yaml

/-! ## Anchors -/

/-- The content of an anchor: a scalar, or none for a collection. -/
abbrev Contents := List (Nat × Option Scalar)

/-- The anchors of the nodes before a node. -/
structure Anchors where
  /-- The places of the names, latest first. -/
  places : List (String × Nat) := []
  /-- How many different names there are. -/
  names : Nat := 0
  /-- The contents of the places, latest first. -/
  contents : Contents := []
deriving Repr

/-- The anchors with one more, if there is one before the node with the given content. -/
def Anchors.add (anchors : Anchors) (name : Option String) (content : Option Scalar) : Anchors :=
  match name with
  | none => anchors
  | some name => {
    places := (name, anchors.names) :: anchors.places
    names := if (anchors.places.lookup name).isSome then anchors.names else anchors.names + 1
    contents := (anchors.names, content) :: anchors.contents }

namespace Node

mutual

/-- The node with the places of the aliases instead of their names, and the anchors up to its end. -/
def place? (anchors : Anchors) : Node String → Option (Node Nat × Anchors)
  | aliasOf name => (anchors.places.lookup name).map fun n => (aliasOf n, anchors)
  | scalar anchor content => some (scalar anchor content, anchors.add anchor (some content))
  | sequence anchor tag items =>
    (placeItems? (anchors.add anchor none) items).map fun (items, anchors) =>
      (sequence anchor tag items, anchors)
  | mapping anchor tag entries =>
    (placeEntries? (anchors.add anchor none) entries).map fun (entries, anchors) =>
      (mapping anchor tag entries, anchors)

/-- The items of a sequence with the places of the aliases, and the anchors up to their end. -/
def placeItems? (anchors : Anchors) : List (Node String) → Option (List (Node Nat) × Anchors)
  | [] => some ([], anchors)
  | item :: rest =>
    match place? anchors item with
    | some (item, anchors) =>
      (placeItems? anchors rest).map fun (rest, anchors) => (item :: rest, anchors)
    | none => none

/-- The entries of a mapping with the places of the aliases, and the anchors up to their end. -/
def placeEntries? (anchors : Anchors) :
    List (Node String × Node String) → Option (List (Node Nat × Node Nat) × Anchors)
  | [] => some ([], anchors)
  | (key, value) :: rest =>
    match place? anchors key with
    | some (key, anchors) =>
      match place? anchors value with
      | some (value, anchors) =>
        (placeEntries? anchors rest).map fun (rest, anchors) => ((key, value) :: rest, anchors)
      | none => none
    | none => none

end

end Node

/-! ## Documents -/

/-- A document. -/
structure Document where
  /-- The node it consists of, if it is not void. -/
  root : Option (Node Nat)
  /-- What its aliases stand for. -/
  contents : Contents
deriving Repr

namespace Document

/-- What the handles of tags stand for where no directive says so. -/
def standardHandles : Node.Handles :=
  [("!".toList, "!".toList), ("!!".toList, "tag:yaml.org,2002:".toList)]

/-- The versions of YAML that a document may be in. -/
def isVersion (major minor : Nat) : Bool := major == 1 && (minor == 1 || minor == 2)

/-- The directives before a document: what handles they declare, and the tokens after them. The
version may be said once, and a handle declared once. -/
def readDirectives? (version : Bool) (handles : Node.Handles) :
    List Token → Option (Node.Handles × List Token)
  | .version major minor :: rest =>
    if version || !isVersion major minor then none else readDirectives? true handles rest
  | .tagHandle handle expansion :: rest =>
    if (handles.lookup handle).isSome then none
    else readDirectives? version ((handle, expansion) :: handles) rest
  | rest => some (handles, rest)

/-- The tokens that do not start a node, but another document or its end. -/
def marksDocument : Token → Bool
  | .version _ _ | .tagHandle _ _ | .documentStart | .documentEnd => true
  | _ => false

/-- The node of a document behind its start: an empty one if there is nothing. -/
def readRoot? (handles : Node.Handles) (ts : List Token) : Option (Node String × List Token) :=
  match ts with
  | [] => some (.empty {}, [])
  | t :: _ => if marksDocument t then some (.empty {}, ts) else Node.read? handles ts

/-- The document of a node behind which there is nothing but the document's end. -/
def ofRoot? (root : Node String) (rest : List Token) : Option Document :=
  if rest.all (· = .documentEnd) then
    (root.place? {}).map fun (root, anchors) => ⟨some root, anchors.contents⟩
  else none

/-- The only document of a list of tokens. Directives must be followed by the mark of its start. -/
def ofTokens? (ts : List Token) : Option Document :=
  match ts with
  | [] => some ⟨none, []⟩
  | t :: _ =>
    let found :=
      if marksDocument t then
        match readDirectives? false [] ts with
        | some (handles, .documentStart :: rest) => readRoot? (handles ++ standardHandles) rest
        | _ => none
      else Node.read? standardHandles ts
    match found with
    | some (root, rest) => ofRoot? root rest
    | none => none

/-- The only document of a text. -/
def parse? (s : String) : Option Document :=
  match scan? s with
  | some ts => ofTokens? ts
  | none => none

/-- The scalar that a node of the document is or stands for. -/
def scalar? (d : Document) : Node Nat → Option Scalar
  | .aliasOf place => (d.contents.lookup place).join
  | .scalar _ content => some content
  | _ => none

end Document

/-! ## Scalars as values -/

namespace Scalar

/-- The tag of a standard type. -/
def standardTag (type : String) : String := "tag:yaml.org,2002:" ++ type

/-- The scalar may be more than text: it is plain, or a literal block tagged with the type. -/
def isOf (s : Scalar) (type : String) : Bool :=
  s.style == .plain || (s.style == .literal && s.tag == some (standardTag type))

/-- The number that digits write behind the mark of a base. -/
def markedNumber? : List Char → Option Nat
  | '0' :: 'x' :: digits => valueInBase? 16 digits
  | '0' :: 'o' :: digits => valueInBase? 8 digits
  | '0' :: 'b' :: digits => valueInBase? 2 digits
  | _ => none

/-- The number that decimal digits write without a zero in front. -/
def decimalNumber? : List Char → Option Nat
  | ['0'] => some 0
  | '0' :: _ => none
  | digits => valueInBase? 10 digits

/-- The unsigned whole number of 64 bits that a scalar writes, perhaps with a plus sign. -/
def uint64? (s : Scalar) : Option UInt64 :=
  if s.isOf "int" then
    let unsigned := match s.text.toList with
      | '+' :: rest => rest
      | text => text
    match (markedNumber? unsigned).or (decimalNumber? unsigned) with
    | some n => if n < UInt64.size then some (UInt64.ofNat n) else none
    | none => none
  else none

/-- The truth value that a scalar writes, in small letters, in capitals or with a capital in front. -/
def boolean? (s : Scalar) : Option Bool :=
  if s.isOf "bool" then
    if ["true", "True", "TRUE"].contains s.text then some true
    else if ["false", "False", "FALSE"].contains s.text then some false
    else none
  else none

/-- The scalar stands for nothing at all. -/
def isVoid (s : Scalar) : Bool := s.style == .plain && s.text.isEmpty

end Scalar

end ObjectGraph.Yaml
