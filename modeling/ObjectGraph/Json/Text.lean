import ObjectGraph.Number.Digits

/-!
# The inside of a JSON string

Between its quotes a JSON string is a sequence of characters, some of them escaped. An escape by code
gives one UTF-16 unit, and a character beyond the first plane takes two of them; a unit that is half
of such a pair and stands alone denotes nothing. So a text is kept as it is written, units and all
(`Text`), and is made a string only where it is used as one (`Text.toString?`).

Writing escapes what JSON requires and nothing else: the quote, the backslash and the control
characters, the common ones of these by a letter and the others by code.
-/

set_option autoImplicit false

namespace ObjectGraph.Json

/-- One character of a JSON string, given by itself or by a letter, or one UTF-16 unit, given by code. -/
inductive TextUnit where
  | char (c : Char)
  | code (unit : UInt16)
deriving DecidableEq, Repr

/-- What stands between the quotes of a JSON string. -/
abbrev Text := List TextUnit

def isHighSurrogate (u : UInt16) : Bool := 0xD800 ≤ u && u ≤ 0xDBFF

def isLowSurrogate (u : UInt16) : Bool := 0xDC00 ≤ u && u ≤ 0xDFFF

/-- The character of a pair. -/
def pairChar (high low : UInt16) : Char :=
  Char.ofNat (0x10000 + (high.toNat - 0xD800) * 0x400 + (low.toNat - 0xDC00))

/-- The characters that a text denotes. A half pair denotes none. -/
def Text.toChars? : Text → Option (List Char)
  | [] => some []
  | .char c :: rest => (Text.toChars? rest).map (c :: ·)
  | .code u :: .code v :: rest =>
    if isHighSurrogate u then
      if isLowSurrogate v then (Text.toChars? rest).map (pairChar u v :: ·) else none
    else if isLowSurrogate u then none
    else (Text.toChars? (.code v :: rest)).map (Char.ofNat u.toNat :: ·)
  | .code u :: rest =>
    if isHighSurrogate u || isLowSurrogate u then none
    else (Text.toChars? rest).map (Char.ofNat u.toNat :: ·)

def Text.toString? (t : Text) : Option String := t.toChars?.map String.ofList

/-- The letter that stands for a character after a backslash, for the characters that have one. -/
def escapeLetter? : Char → Option Char
  | '"' => some '"'
  | '\\' => some '\\'
  | '\x08' => some 'b'
  | '\x0c' => some 'f'
  | '\n' => some 'n'
  | '\r' => some 'r'
  | '\t' => some 't'
  | _ => none

/-- The character for a letter after a backslash. A slash may be escaped too, but never is on writing. -/
def ofEscapeLetter? : Char → Option Char
  | '"' => some '"'
  | '\\' => some '\\'
  | '/' => some '/'
  | 'b' => some '\x08'
  | 'f' => some '\x0c'
  | 'n' => some '\n'
  | 'r' => some '\r'
  | 't' => some '\t'
  | _ => none

/-- Control characters must not stand in a JSON string as they are. -/
def isControl (c : Char) : Bool := c.toNat < 0x20

/-- How a character is put into a text: by code only where nothing else is allowed. -/
def TextUnit.ofChar (c : Char) : TextUnit :=
  if isControl c && (escapeLetter? c).isNone then .code (UInt16.ofNat c.toNat) else .char c

/-- A string as the inside of a JSON string. -/
def Text.ofString (s : String) : Text := s.toList.map TextUnit.ofChar

/-- The hexadecimal digits of a unit, always four and in lower case. -/
def hexDigits (u : UInt16) : List Char :=
  [u.toNat / 4096, u.toNat / 256 % 16, u.toNat / 16 % 16, u.toNat % 16].map Nat.digitChar

def TextUnit.write : TextUnit → List Char
  | .char c =>
    match escapeLetter? c with
    | some letter => ['\\', letter]
    | none => [c]
  | .code u => '\\' :: 'u' :: hexDigits u

end ObjectGraph.Json
