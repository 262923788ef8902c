import ObjectGraph.Yaml.Token

/-!
# Nodes of YAML

A node is a scalar, a sequence or a mapping, with perhaps an anchor and a tag, or an alias, which
stands for the node of an anchor. A node that is left out is an empty plain scalar: after a dash, a
question mark or a colon, and after an anchor or a tag that stands for itself.

The readers below follow the grammar by recursive descent. Each takes a node or the rest of a
collection off the front of the tokens, and gives what is left of them.
-/

set_option autoImplicit false

namespace ObjectGraph.Yaml

/-- What may stand before a node. -/
structure Properties where
  anchor : Option String := none
  tag : Option String := none
deriving DecidableEq, Repr

/-- A text with the style it is written in and the tag before it. -/
structure Scalar where
  tag : Option String
  style : Style
  text : String
deriving DecidableEq, Repr

/-- A node, in which an alias names its target by a value of type `ρ`. -/
inductive Node (ρ : Type) where
  | aliasOf (target : ρ)
  | scalar (anchor : Option String) (content : Scalar)
  | sequence (anchor tag : Option String) (items : List (Node ρ))
  | mapping (anchor tag : Option String) (entries : List (Node ρ × Node ρ))
deriving Repr

/-- Where a node stands, which says what it may be. -/
inductive Context where
  /-- Inside of brackets. -/
  | flow
  /-- In a block sequence, or alone in a document. -/
  | block
  /-- In a block mapping. There the dashes of a sequence need not be indented. -/
  | blockMapping
deriving DecidableEq, Repr

namespace Node

variable {ρ : Type}

/-- A scalar with what stands before it. -/
def ofText (p : Properties) (style : Style) (text : List Char) : Node ρ :=
  scalar p.anchor ⟨p.tag, style, String.ofList text⟩

def ofItems (p : Properties) (items : List (Node ρ)) : Node ρ := sequence p.anchor p.tag items

def ofEntries (p : Properties) (entries : List (Node ρ × Node ρ)) : Node ρ :=
  mapping p.anchor p.tag entries

/-- The node that is left out. -/
def empty (p : Properties) : Node ρ := ofText p .plain []

/-! ## Anchors and tags -/

/-- What the handles of tags stand for. -/
abbrev Handles := List (List Char × List Char)

/-- The tag that a handle and a suffix make. Without a handle the suffix is all of it. -/
def resolveTag? (handles : Handles) (handle suffix : List Char) : Option String :=
  if handle.isEmpty then some (String.ofList suffix)
  else (handles.lookup handle).map fun expansion => String.ofList (expansion ++ suffix)

/-- The anchor and the tag before a node, in either order. -/
def readProperties? (handles : Handles) : List Token → Option (Properties × List Token)
  | .anchor a :: .tag h s :: rest =>
    (resolveTag? handles h s).map fun t => (⟨some (String.ofList a), some t⟩, rest)
  | .tag h s :: .anchor a :: rest =>
    (resolveTag? handles h s).map fun t => (⟨some (String.ofList a), some t⟩, rest)
  | .anchor a :: rest => some (⟨some (String.ofList a), none⟩, rest)
  | .tag h s :: rest => (resolveTag? handles h s).map fun t => (⟨none, some t⟩, rest)
  | rest => some ({}, rest)

/-! ## Nodes that are left out -/

/-- The tokens before which an entry of a block sequence is left out. -/
def endsEntry : Token → Bool
  | .blockEntry | .blockEnd => true
  | _ => false

/-- The tokens before which an entry of a sequence that is not indented is left out. -/
def endsLevelEntry : Token → Bool
  | .blockEntry | .key | .value | .blockEnd => true
  | _ => false

/-- The tokens before which a key or a value of a block mapping is left out. -/
def endsMember : Token → Bool
  | .key | .value | .blockEnd => true
  | _ => false

/-- The tokens before which the value of a pair in a bracketed sequence is left out. -/
def endsPairValue : Token → Bool
  | .flowEntry | .flowSequenceEnd => true
  | _ => false

/-- The tokens before which the key of a pair in a bracketed sequence is left out. -/
def endsPairKey (t : Token) : Bool := t = .value || endsPairValue t

/-- The tokens before which the value of a member in braces is left out. -/
def endsFlowValue : Token → Bool
  | .flowEntry | .flowMappingEnd => true
  | _ => false

/-- The tokens before which the key of a member in braces is left out. -/
def endsFlowKey (t : Token) : Bool := t = .value || endsFlowValue t

/-! ## Reading -/

mutual

/-- A node. -/
def read (handles : Handles) : Nat → Context → List Token → Option (Node String × List Token)
  | 0, _, _ => none
  | _ + 1, _, .aliasOf name :: rest => some (aliasOf (String.ofList name), rest)
  | fuel + 1, context, ts =>
    match readProperties? handles ts with
    | some (p, ts) => readContent handles fuel context p ts
    | none => none

/-- A node behind its anchor and its tag. -/
def readContent (handles : Handles) :
    Nat → Context → Properties → List Token → Option (Node String × List Token)
  | 0, _, _, _ => none
  | _ + 1, _, p, .scalar style text :: rest => some (ofText p style text, rest)
  | _ + 1, _, p, .flowSequenceStart :: .flowSequenceEnd :: rest => some (ofItems p [], rest)
  | fuel + 1, _, p, .flowSequenceStart :: rest =>
    (readFlowItems handles fuel rest).map fun (items, rest) => (ofItems p items, rest)
  | _ + 1, _, p, .flowMappingStart :: .flowMappingEnd :: rest => some (ofEntries p [], rest)
  | fuel + 1, _, p, .flowMappingStart :: rest =>
    (readFlowMembers handles fuel rest).map fun (entries, rest) => (ofEntries p entries, rest)
  | fuel + 1, context, p, ts =>
    let leftOut := if p = {} then none else some (empty p, ts)
    match context, ts with
    | .flow, _ => leftOut
    | .blockMapping, .blockEntry :: _ =>
      (readLevelItems handles fuel ts).map fun (items, rest) => (ofItems p items, rest)
    | _, .blockSequenceStart :: rest =>
      (readItems handles fuel rest).map fun (items, rest) => (ofItems p items, rest)
    | _, .blockMappingStart :: rest =>
      (readMembers handles fuel rest).map fun (entries, rest) => (ofEntries p entries, rest)
    | _, _ => leftOut

/-- A node, or none if the next token is one before which it is left out. -/
def readUnless (handles : Handles) :
    Nat → Context → (Token → Bool) → List Token → Option (Node String × List Token)
  | 0, _, _, _ => none
  | fuel + 1, context, leftOut, ts =>
    if ts.head?.any leftOut then some (empty {}, ts) else read handles fuel context ts

/-- The rest of a block sequence. -/
def readItems (handles : Handles) : Nat → List Token → Option (List (Node String) × List Token)
  | 0, _ => none
  | _ + 1, .blockEnd :: rest => some ([], rest)
  | fuel + 1, .blockEntry :: rest =>
    match readUnless handles fuel .block endsEntry rest with
    | some (item, rest) =>
      (readItems handles fuel rest).map fun (items, rest) => (item :: items, rest)
    | none => none
  | _ + 1, _ => none

/-- The rest of a sequence that is not indented, which ends where no dash comes. -/
def readLevelItems (handles : Handles) :
    Nat → List Token → Option (List (Node String) × List Token)
  | 0, _ => none
  | fuel + 1, .blockEntry :: rest =>
    match readUnless handles fuel .block endsLevelEntry rest with
    | some (item, rest) =>
      (readLevelItems handles fuel rest).map fun (items, rest) => (item :: items, rest)
    | none => none
  | _ + 1, rest => some ([], rest)

/-- The rest of a block mapping. -/
def readMembers (handles : Handles) :
    Nat → List Token → Option (List (Node String × Node String) × List Token)
  | 0, _ => none
  | _ + 1, .blockEnd :: rest => some ([], rest)
  | fuel + 1, .key :: rest =>
    match readUnless handles fuel .blockMapping endsMember rest with
    | some (key, rest) =>
      match readValue handles fuel .blockMapping endsMember rest with
      | some (value, rest) =>
        (readMembers handles fuel rest).map fun (entries, rest) => ((key, value) :: entries, rest)
      | none => none
    | none => none
  | _ + 1, _ => none

/-- The value behind a key, left out with its colon or without it. -/
def readValue (handles : Handles) :
    Nat → Context → (Token → Bool) → List Token → Option (Node String × List Token)
  | 0, _, _, _ => none
  | fuel + 1, context, leftOut, .value :: rest => readUnless handles fuel context leftOut rest
  | _ + 1, _, _, ts => some (empty {}, ts)

/-- The rest of a bracketed sequence, at an item. A comma may come behind the last one. -/
def readFlowItems (handles : Handles) :
    Nat → List Token → Option (List (Node String) × List Token)
  | 0, _ => none
  | fuel + 1, ts =>
    match readFlowItem handles fuel ts with
    | some (item, .flowSequenceEnd :: rest) => some ([item], rest)
    | some (item, .flowEntry :: .flowSequenceEnd :: rest) => some ([item], rest)
    | some (item, .flowEntry :: rest) =>
      (readFlowItems handles fuel rest).map fun (items, rest) => (item :: items, rest)
    | _ => none

/-- An item of a bracketed sequence: a node, or a pair, which is a mapping of its own. If the key of
a pair is left out, so is the token behind it. -/
def readFlowItem (handles : Handles) : Nat → List Token → Option (Node String × List Token)
  | 0, _ => none
  | fuel + 1, .key :: rest =>
    let key :=
      if rest.head?.any endsPairKey then some (empty {}, rest.drop 1)
      else read handles fuel .flow rest
    match key with
    | some (key, rest) =>
      (readValue handles fuel .flow endsPairValue rest).map fun (value, rest) =>
        (ofEntries {} [(key, value)], rest)
    | none => none
  | fuel + 1, ts => read handles fuel .flow ts

/-- The rest of a mapping in braces, at a member. A comma may come behind the last one. -/
def readFlowMembers (handles : Handles) :
    Nat → List Token → Option (List (Node String × Node String) × List Token)
  | 0, _ => none
  | fuel + 1, ts =>
    match readFlowMember handles fuel ts with
    | some (entry, .flowMappingEnd :: rest) => some ([entry], rest)
    | some (entry, .flowEntry :: .flowMappingEnd :: rest) => some ([entry], rest)
    | some (entry, .flowEntry :: rest) =>
      (readFlowMembers handles fuel rest).map fun (entries, rest) => (entry :: entries, rest)
    | _ => none

/-- A member of a mapping in braces. -/
def readFlowMember (handles : Handles) :
    Nat → List Token → Option ((Node String × Node String) × List Token)
  | 0, _ => none
  | fuel + 1, .key :: rest =>
    match readUnless handles fuel .flow endsFlowKey rest with
    | some (key, rest) =>
      (readValue handles fuel .flow endsFlowValue rest).map fun (value, rest) => ((key, value), rest)
    | none => none
  | fuel + 1, ts => (read handles fuel .flow ts).map fun (key, rest) => ((key, empty {}), rest)

end

/-- A node that stands alone, and the tokens after it. Before it takes a token off, no reader calls
more than five others. -/
def read? (handles : Handles) (ts : List Token) : Option (Node String × List Token) :=
  read handles (6 * (ts.length + 1)) .block ts

end Node

end ObjectGraph.Yaml
