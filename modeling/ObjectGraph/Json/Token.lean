import ObjectGraph.Json.Text
import ObjectGraph.Number.Numeral

/-!
# JSON tokens

A JSON text is a sequence of tokens with white space between them: the six marks of structure, the
three words, numerals and strings. `scan?` reads the tokens of a text one character at a time. What it
has to remember in between is its `Mode`; a numeral is the only token whose end is seen only in the
character after it, so one step may give two tokens.

A numeral keeps the digits that were written, and a string its escapes, so scanning decides the form
of the text and nothing about what it denotes.
-/

set_option autoImplicit false

namespace ObjectGraph.Json

inductive Token where
  | openArray
  | closeArray
  | openObject
  | closeObject
  | comma
  | colon
  | null
  | boolean (b : Bool)
  | number (n : Numeral)
  | string (t : Text)
deriving DecidableEq, Repr

def Token.write : Token → List Char
  | openArray => ['[']
  | closeArray => [']']
  | openObject => ['\x7b']
  | closeObject => ['\x7d']
  | comma => [',']
  | colon => [':']
  | null => ['n', 'u', 'l', 'l']
  | boolean true => ['t', 'r', 'u', 'e']
  | boolean false => ['f', 'a', 'l', 's', 'e']
  | number n => n.text
  | string t => '"' :: (t.flatMap TextUnit.write ++ ['"'])

/-! ## Numerals, character by character -/

/-- How far a numeral has come. -/
inductive Phase where
  /-- After the minus sign: a digit must follow. -/
  | sign
  /-- After a leading zero: no further digit may follow it. -/
  | zero
  /-- In the digits before the point. -/
  | whole
  /-- After the point: a digit must follow. -/
  | point
  /-- In the digits after the point. -/
  | fraction
  /-- After the exponent mark: a sign or a digit must follow. -/
  | mark
  /-- After the sign of the exponent: a digit must follow. -/
  | powerSign
  /-- In the digits of the exponent. -/
  | power
deriving DecidableEq, Repr

/-- A numeral that is being read, its digits last first. -/
structure Draft where
  phase : Phase
  negative : Bool
  whole : List Digit
  fraction : List Digit
  powerNegative : Bool
  power : List Digit
deriving DecidableEq, Repr

namespace Draft

/-- A numeral whose first character is the given one. -/
def start? (c : Char) : Option Draft :=
  if c = '-' then some ⟨.sign, true, [], [], false, []⟩
  else (Digit.ofChar? c).map fun d => ⟨if d = Digit.zero then .zero else .whole, false, [d], [], false, []⟩

/-- The draft with one character more, if that can belong to the numeral. -/
def next? (n : Draft) (c : Char) : Option Draft :=
  match n.phase, Digit.ofChar? c with
  | .sign, some d => some { n with phase := if d = Digit.zero then .zero else .whole, whole := [d] }
  | .sign, none => none
  | .zero, some _ => none
  | .whole, some d => some { n with whole := d :: n.whole }
  | .point, some d => some { n with phase := .fraction, fraction := [d] }
  | .point, none => none
  | .fraction, some d => some { n with fraction := d :: n.fraction }
  | .mark, some d => some { n with phase := .power, power := [d] }
  | .mark, none =>
    if c = '+' then some { n with phase := .powerSign }
    else if c = '-' then some { n with phase := .powerSign, powerNegative := true }
    else none
  | .powerSign, some d => some { n with phase := .power, power := [d] }
  | .powerSign, none => none
  | .power, some d => some { n with power := d :: n.power }
  | .power, none => none
  | .fraction, none => if c = 'e' ∨ c = 'E' then some { n with phase := .mark } else none
  | _, none =>
    if c = '.' then some { n with phase := .point }
    else if c = 'e' ∨ c = 'E' then some { n with phase := .mark }
    else none

/-- The numeral, if it may end here. -/
def finish? (n : Draft) : Option Numeral :=
  match n.phase with
  | .zero | .whole | .fraction => some ⟨n.negative, n.whole.reverse, n.fraction.reverse, none⟩
  | .power =>
    some ⟨n.negative, n.whole.reverse, n.fraction.reverse, some ⟨n.powerNegative, n.power.reverse⟩⟩
  | _ => none

end Draft

/-! ## Tokens, character by character -/

/-- What has been read of the token at hand. -/
inductive Mode where
  /-- Between tokens. -/
  | between
  /-- In a word of which these letters are still to come. -/
  | word (rest : List Char) (token : Token)
  /-- In a numeral. -/
  | numeral (draft : Draft)
  /-- In a string, of which these units have been read, last first. -/
  | string (read : Text)
  /-- In a string, after a backslash. -/
  | escape (read : Text)
  /-- In a string, in an escape by code with some digits still to come. -/
  | code (read : Text) (value : Nat) (left : Nat)
deriving DecidableEq, Repr

/-- The characters that may stand between tokens. -/
def isBlank (c : Char) : Bool := c = ' ' || c = '\t' || c = '\n' || c = '\r'

namespace Mode

/-- The first character of a token, or a blank: the token if that is all of it, and what to expect. -/
def start? (c : Char) : Option (List Token × Mode) :=
  if isBlank c then some ([], between)
  else match c with
    | '[' => some ([.openArray], between)
    | ']' => some ([.closeArray], between)
    | '\x7b' => some ([.openObject], between)
    | '\x7d' => some ([.closeObject], between)
    | ',' => some ([.comma], between)
    | ':' => some ([.colon], between)
    | '"' => some ([], string [])
    | 'n' => some ([], word ['u', 'l', 'l'] .null)
    | 't' => some ([], word ['r', 'u', 'e'] (.boolean true))
    | 'f' => some ([], word ['a', 'l', 's', 'e'] (.boolean false))
    | c => (Draft.start? c).map fun draft => ([], numeral draft)

/-- One character: the tokens that it completes, and what to expect after it. -/
def step? (mode : Mode) (c : Char) : Option (List Token × Mode) :=
  match mode with
  | between => start? c
  | word rest token =>
    match rest with
    | [last] => if c = last then some ([token], between) else none
    | letter :: more => if c = letter then some ([], word more token) else none
    | [] => none
  | numeral draft =>
    match draft.next? c with
    | some draft => some ([], numeral draft)
    | none =>
      match draft.finish?, start? c with
      | some n, some (tokens, mode) => some (.number n :: tokens, mode)
      | _, _ => none
  | string read =>
    if c = '"' then some ([.string read.reverse], between)
    else if c = '\\' then some ([], escape read)
    else if isControl c then none
    else some ([], string (.char c :: read))
  | escape read =>
    if c = 'u' then some ([], code read 0 4)
    else (ofEscapeLetter? c).map fun d => ([], string (.char d :: read))
  | code read value left =>
    match hexValue? c with
    | none => none
    | some digit =>
      let value := value * 16 + digit
      if left ≤ 1 then some ([], string (.code (UInt16.ofNat value) :: read))
      else some ([], code read value (left - 1))

/-- The tokens that the end of the text completes, if the text may end here. -/
def finish? : Mode → Option (List Token)
  | between => some []
  | numeral draft => draft.finish?.map fun n => [.number n]
  | _ => none

end Mode

/-- The tokens of the rest of a text, read from the given mode on. -/
def scanFrom? (mode : Mode) : List Char → Option (List Token)
  | [] => mode.finish?
  | c :: rest =>
    match mode.step? c with
    | none => none
    | some (tokens, mode) => (scanFrom? mode rest).map (tokens ++ ·)

def scan? (s : List Char) : Option (List Token) := scanFrom? .between s

end ObjectGraph.Json
