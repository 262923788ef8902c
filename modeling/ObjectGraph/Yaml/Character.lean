/-!
# Characters of YAML

Which characters a YAML text may hold, which of them break lines, and which make up names. A line may
be broken in several ways; `unifyBreaks` writes the usual ones as a line feed, as every reader of a
YAML text does with the breaks inside a scalar, so that afterwards one character is one break.
-/

set_option autoImplicit false

namespace ObjectGraph.Yaml

/-- The character may stand in a YAML text. -/
def isAllowed (c : Char) : Bool :=
  let n := c.toNat
  n == 0x09 || n == 0x0A || n == 0x0D || (0x20 ≤ n && n ≤ 0x7E) || n == 0x85 ||
    (0xA0 ≤ n && n ≤ 0xD7FF) || (0xE000 ≤ n && n ≤ 0xFFFD) || 0x10000 ≤ n

/-- The line separator and the paragraph separator, which break lines and stay as they are. -/
def isSeparator (c : Char) : Bool := c == '\u2028' || c == '\u2029'

/-- The character breaks a line, once breaks are unified. -/
def isBreak (c : Char) : Bool := c == '\n' || isSeparator c

def isBlank (c : Char) : Bool := c == ' ' || c == '\t'

def isSpace (c : Char) : Bool := isBlank c || isBreak c

/-- A letter, a digit, a hyphen or an underscore: what names of anchors and of directives consist of. -/
def isWord (c : Char) : Bool := c.isAlphanum || c == '-' || c == '_'

/-- The text with a line feed for a carriage return, alone or before a line feed, and for a next-line
character. -/
def unifyBreaks : List Char → List Char
  | '\r' :: '\n' :: rest => '\n' :: unifyBreaks rest
  | c :: rest => (if c == '\r' || c == '\u0085' then '\n' else c) :: unifyBreaks rest
  | [] => []

/-- The text starts with a blank or a break, or is over. -/
def startsBlank : List Char → Bool
  | [] => true
  | c :: _ => isSpace c

/-- The text starts with the mark of a document's start or end, which stands alone. -/
def startsMark : List Char → Bool
  | '-' :: '-' :: '-' :: rest => startsBlank rest
  | '.' :: '.' :: '.' :: rest => startsBlank rest
  | _ => false

/-- A place in a text. -/
structure Position where
  /-- How many bytes stand before it. -/
  index : Nat
  line : Nat
  /-- How many characters stand before it in its line. -/
  column : Nat
deriving DecidableEq, Repr

def Position.start : Position := ⟨0, 0, 0⟩

def Position.after (p : Position) (c : Char) : Position :=
  if isBreak c then ⟨p.index + c.utf8Size, p.line + 1, 0⟩
  else ⟨p.index + c.utf8Size, p.line, p.column + 1⟩

/-- What is left of a text, and where it starts. -/
structure Cursor where
  rest : List Char
  position : Position
deriving Repr

namespace Cursor

def advance (c : Cursor) : Cursor :=
  match c.rest with
  | [] => c
  | x :: rest => ⟨rest, c.position.after x⟩

def advanceBy (c : Cursor) : Nat → Cursor
  | 0 => c
  | n + 1 => c.advance.advanceBy n

/-- The characters at the cursor that pass a test, and the cursor after them. -/
def takeWhile (c : Cursor) (p : Char → Bool) : List Char × Cursor :=
  let taken := c.rest.takeWhile p
  (taken, c.advanceBy taken.length)

/-- The cursor after the characters that pass a test. -/
def dropWhile (c : Cursor) (p : Char → Bool) : Cursor := (c.takeWhile p).2

def head? (c : Cursor) : Option Char := c.rest.head?

end Cursor

end ObjectGraph.Yaml
