import ObjectGraph.Number.Digits
import ObjectGraph.Yaml.Character

/-!
# Scalars of YAML

A scalar is a text, written plainly, in quotes or as a block. Where a scalar goes over several lines
its lines are folded: a single break reads as a space, and of several breaks the first is dropped
(`Gap.fold`). A literal block keeps its breaks.

Each reader goes over the text once, character by character, and stops at the first character that is
not part of the scalar.
-/

set_option autoImplicit false

namespace ObjectGraph.Yaml

/-- How a scalar is written. -/
inductive Style where
  | plain
  | singleQuoted
  | doubleQuoted
  | literal
  | folded
deriving DecidableEq, Repr

/-! ## Folding -/

/-- The blanks and breaks since the last character of a scalar. -/
inductive Gap where
  /-- Blanks only, last first. -/
  | blanks (read : List Char)
  /-- The first break, unless it is escaped, and the further ones, last first. -/
  | breaks (first : Option Char) (further : List Char)
deriving DecidableEq, Repr

namespace Gap

def none : Gap := blanks []

def isNone : Gap → Bool
  | blanks [] => true
  | _ => false

/-- The gap goes over a line. -/
def isBroken : Gap → Bool
  | blanks _ => false
  | breaks _ _ => true

/-- The gap with one blank or break more. Blanks around breaks do not count. -/
def extend (g : Gap) (c : Char) : Gap :=
  match g with
  | blanks read => if isBreak c then breaks (some c) [] else blanks (c :: read)
  | breaks first further => if isBreak c then breaks first (c :: further) else g

/-- What a gap reads as, last character first. -/
def fold : Gap → List Char
  | blanks read => read
  | breaks (some '\n') [] => [' ']
  | breaks (some '\n') further => further
  | breaks first further => further ++ first.toList

end Gap

/-! ## Plain scalars -/

/-- Where and how a scalar ends. -/
structure Ending where
  text : List Char
  cursor : Cursor
  /-- The blanks after the scalar go over a line. -/
  broken : Bool
deriving Repr

/-- The indicators that end a plain scalar inside brackets. -/
def isFlowIndicator (c : Char) : Bool := [',', '[', ']', '\x7b', '\x7d'].contains c

/-- A colon that may not stand in a plain scalar inside brackets, nor end it. -/
def isBadColon (c : Char) (rest : List Char) : Bool :=
  c == ':' && rest.head?.any fun d => isFlowIndicator d || d == '?'

/-- The character and those after it end a plain scalar, whatever comes before. -/
def endsPlain (inFlow : Bool) (c : Char) (rest : List Char) : Bool :=
  (c == ':' && startsBlank rest) || (inFlow && isFlowIndicator c)

/-- The character and those after it end a plain scalar behind a gap: the line is not indented, or
starts a comment or another document. -/
def endsPlainAfterGap (inFlow : Bool) (indent : Nat) (p : Position) (c : Char) (rest : List Char) :
    Bool :=
  (!inFlow && p.column < indent) || c == '#' || (p.column == 0 && startsMark (c :: rest))

/-- A plain scalar, of which the text so far is given last character first. -/
def readPlain (inFlow : Bool) (indent : Nat) :
    List Char → Position → List Char → Gap → Option Ending
  | [], p, text, gap => some ⟨text.reverse, ⟨[], p⟩, gap.isBroken⟩
  | c :: rest, p, text, gap =>
    if isSpace c then
      if gap.isBroken && p.column < indent && c == '\t' then none
      else readPlain inFlow indent rest (p.after c) text (gap.extend c)
    else if (!gap.isNone && endsPlainAfterGap inFlow indent p c rest) || endsPlain inFlow c rest then
      some ⟨text.reverse, ⟨c :: rest, p⟩, gap.isBroken⟩
    else if inFlow && isBadColon c rest then none
    else readPlain inFlow indent rest (p.after c) (c :: (gap.fold ++ text)) .none

/-! ## Quoted scalars -/

/-- The character for a letter after a backslash. -/
def ofEscapeLetter? : Char → Option Char
  | '0' => some '\x00'
  | 'a' => some '\x07'
  | 'b' => some '\x08'
  | 't' => some '\t'
  | '\t' => some '\t'
  | 'n' => some '\n'
  | 'v' => some '\x0b'
  | 'f' => some '\x0c'
  | 'r' => some '\r'
  | 'e' => some '\x1b'
  | ' ' => some ' '
  | '"' => some '"'
  | '/' => some '/'
  | '\\' => some '\\'
  | 'N' => some '\u0085'
  | '_' => some '\u00a0'
  | 'L' => some '\u2028'
  | 'P' => some '\u2029'
  | _ => none

/-- How many hexadecimal digits follow a letter after a backslash. -/
def codeLength? : Char → Option Nat
  | 'x' => some 2
  | 'u' => some 4
  | 'U' => some 8
  | _ => none

/-- The character with a code, if it is the code of one. -/
def charOfCode? (n : Nat) : Option Char := if n.isValidChar then some (Char.ofNat n) else none

/-- The rest of a single-quoted scalar. -/
def readSingleQuoted : List Char → Position → List Char → Gap → Option Ending
  | [], _, _, _ => none
  | '\'' :: '\'' :: rest, p, text, gap =>
    readSingleQuoted rest ((p.after '\'').after '\'') ('\'' :: (gap.fold ++ text)) .none
  | c :: rest, p, text, gap =>
    if isSpace c then readSingleQuoted rest (p.after c) text (gap.extend c)
    else if c == '\'' then some ⟨(gap.fold ++ text).reverse, ⟨rest, p.after c⟩, false⟩
    else if p.column == 0 && startsMark (c :: rest) then none
    else readSingleQuoted rest (p.after c) (c :: (gap.fold ++ text)) .none

/-- The rest of a double-quoted scalar. With `code`, digits of a code are to be read: its value so far
and how many are left. -/
def readDoubleQuoted : Option (Nat × Nat) → List Char → Position → List Char → Gap → Option Ending
  | _, [], _, _, _ => none
  | some (value, left), c :: rest, p, text, gap =>
    match hexValue? c with
    | none => none
    | some digit =>
      let value := value * 16 + digit
      if left ≤ 1 then
        match charOfCode? value with
        | none => none
        | some d => readDoubleQuoted none rest (p.after c) (d :: text) gap
      else readDoubleQuoted (some (value, left - 1)) rest (p.after c) text gap
  | none, '\\' :: c :: rest, p, text, gap =>
    let after := (p.after '\\').after c
    if isBreak c then readDoubleQuoted none rest after (gap.fold ++ text) (.breaks none [])
    else match codeLength? c, ofEscapeLetter? c with
      | some length, _ => readDoubleQuoted (some (0, length)) rest after (gap.fold ++ text) .none
      | none, some d => readDoubleQuoted none rest after (d :: (gap.fold ++ text)) .none
      | none, none => none
  | none, c :: rest, p, text, gap =>
    if isSpace c then readDoubleQuoted none rest (p.after c) text (gap.extend c)
    else if c == '"' then some ⟨(gap.fold ++ text).reverse, ⟨rest, p.after c⟩, false⟩
    else if p.column == 0 && startsMark (c :: rest) then none
    else readDoubleQuoted none rest (p.after c) (c :: (gap.fold ++ text)) .none

/-! ## Block scalars -/

/-- What becomes of the breaks at the end of a block. -/
inductive Chomping where
  | strip
  | clip
  | keep
deriving DecidableEq, Repr

/-- A block scalar that is being read. -/
structure Block where
  folded : Bool
  /-- The indentation of the lines, once it is known. -/
  indent : Option Nat
  /-- The least indentation that the lines may have. -/
  least : Nat
  /-- The widest indentation seen before the first line. -/
  widest : Nat
  /-- The text so far, last character first. -/
  text : List Char
  /-- The break at the end of the last line. -/
  lineBreak : Option Char
  /-- The breaks of the empty lines after it, last first. -/
  emptyLines : List Char
  /-- The last line started with a blank. -/
  startedBlank : Bool
  /-- The next character belongs to a line whose indentation has been passed. -/
  inLine : Bool
deriving Repr

namespace Block

/-- The block at the first character of a line. Between two lines without a blank in front a folded
block has a space for a single break. -/
def startLine (b : Block) (c : Char) : Block :=
  let foldBreak := b.folded && b.lineBreak == some '\n' && !b.startedBlank && !isBlank c
  let between := if foldBreak then (if b.emptyLines.isEmpty then [' '] else []) else b.lineBreak.toList
  { b with
    text := c :: (b.emptyLines ++ (between ++ b.text))
    lineBreak := none
    emptyLines := []
    startedBlank := isBlank c
    inLine := true }

/-- The text of a block that is over. -/
def finish (b : Block) (chomping : Chomping) : List Char :=
  match chomping with
  | .strip => b.text.reverse
  | .clip => (b.lineBreak.toList ++ b.text).reverse
  | .keep => (b.emptyLines ++ (b.lineBreak.toList ++ b.text)).reverse

/-- Reads a block to its end: a line that is indented less, or the end of the text. -/
def read : List Char → Position → Block → Option (Block × Cursor)
  | [], p, b => some (b, ⟨[], p⟩)
  | c :: rest, p, b =>
    if b.inLine then
      if isBreak c then
        read rest (p.after c) { b with inLine := false, lineBreak := some c }
      else read rest (p.after c) { b with text := c :: b.text }
    else
      let inIndent := b.indent.all fun n => p.column < n
      if inIndent && c == ' ' then
        read rest (p.after c) { b with widest := max b.widest (p.column + 1) }
      else if inIndent && c == '\t' then none
      else if isBreak c then read rest (p.after c) { b with emptyLines := c :: b.emptyLines }
      else
        let indent := b.indent.getD (max b.widest b.least)
        if p.column = indent then
          read rest (p.after c) { b.startLine c with indent := some indent }
        else some (b, ⟨c :: rest, p⟩)

end Block

/-- The indicators after the one that starts a block: how its end is treated and how far it is
indented, in either order, each at most once. -/
def blockHeader? : List Char → Option (Chomping × Option Nat × Nat)
  | c :: d :: _ =>
    match chomping? c, indentation? c, chomping? d, indentation? d with
    | some chomping, _, _, some n => if n = 0 then none else some (chomping, some n, 2)
    | some chomping, _, _, none => some (chomping, none, 1)
    | none, some n, some chomping, _ => if n = 0 then none else some (chomping, some n, 2)
    | none, some n, none, _ => if n = 0 then none else some (.clip, some n, 1)
    | none, none, _, _ => some (.clip, none, 0)
  | [c] =>
    match chomping? c, indentation? c with
    | some chomping, _ => some (chomping, none, 1)
    | none, some n => if n = 0 then none else some (.clip, some n, 1)
    | none, none => some (.clip, none, 0)
  | [] => some (.clip, none, 0)
where
  chomping? (c : Char) : Option Chomping :=
    if c == '+' then some .keep else if c == '-' then some .strip else none
  indentation? (c : Char) : Option Nat := (Digit.ofChar? c).map Fin.val

/-- The cursor after the rest of a line that may hold blanks and a comment only. -/
def endOfLine? (c : Cursor) : Option Cursor :=
  let c := c.dropWhile isBlank
  let c := if c.head? == some '#' then c.dropWhile fun x => !isBreak x else c
  match c.rest with
  | [] => some c
  | x :: _ => if isBreak x then some c.advance else none

/-- A block scalar behind its first indicator, inside a collection that is indented as given. -/
def readBlock (folded : Bool) (parentIndent : Int) (c : Cursor) : Option Ending :=
  match blockHeader? c.rest with
  | none => none
  | some (chomping, indentation, length) =>
    match endOfLine? (c.advanceBy length) with
    | none => none
    | some c =>
      let block : Block := {
        folded := folded
        indent := indentation.map fun n => parentIndent.toNat + n
        least := max 1 (parentIndent + 1).toNat
        widest := 0, text := [], lineBreak := none, emptyLines := [], startedBlank := false
        inLine := false }
      (block.read c.rest c.position).map fun (b, c) => ⟨b.finish chomping, c, true⟩

end ObjectGraph.Yaml
