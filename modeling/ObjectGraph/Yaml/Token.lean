import ObjectGraph.Yaml.Scalar

/-!
# Tokens of YAML

A YAML text is a sequence of tokens, some of which stand for nothing but a change of indentation. The
scanner keeps the columns of the open block collections, and closes those that a line is indented
less than.

That a mapping starts is seen only at the colon after its first key. So the scanner remembers, for
each level of brackets, where the last token stands that may turn out to be a key; when the colon
comes, the tokens for the key and for the mapping are put in before it. A key must be on one line
with its colon and not too far from it.
-/

set_option autoImplicit false

namespace ObjectGraph.Yaml

inductive Token where
  | version (major minor : Nat)
  | tagHandle (handle expansion : List Char)
  | documentStart
  | documentEnd
  | blockSequenceStart
  | blockMappingStart
  | blockEnd
  | flowSequenceStart
  | flowSequenceEnd
  | flowMappingStart
  | flowMappingEnd
  | blockEntry
  | flowEntry
  | key
  | value
  | aliasOf (name : List Char)
  | anchor (name : List Char)
  | tag (handle suffix : List Char)
  | scalar (style : Style) (text : List Char)
deriving DecidableEq, Repr

/-- A token that may turn out to be a key. -/
structure PossibleKey where
  /-- It can be nothing else, by its indentation. -/
  required : Bool
  /-- How many tokens stand before it. -/
  tokensBefore : Nat
  position : Position
deriving Repr

/-- How far a key may be from its colon, in bytes. -/
def keyReach : Nat := 1024

/-- A text that is being scanned. -/
structure Scanner where
  cursor : Cursor
  tokens : Array Token
  /-- A key may start here. -/
  keyAllowed : Bool
  /-- The column of the innermost open block collection; -1 if there is none. -/
  indent : Int
  /-- The columns of the block collections around it. -/
  outerIndents : List Int
  /-- The possible key of the innermost brackets, or of the block context outside of all brackets. -/
  possibleKey : Option PossibleKey
  /-- The possible keys of the levels around it: one for each open bracket. -/
  outerKeys : List (Option PossibleKey)
deriving Repr

namespace Scanner

def start (s : List Char) : Scanner where
  cursor := ⟨s, .start⟩
  tokens := #[]
  keyAllowed := true
  indent := -1
  outerIndents := []
  possibleKey := none
  outerKeys := []

def inFlow (s : Scanner) : Bool := !s.outerKeys.isEmpty

def column (s : Scanner) : Nat := s.cursor.position.column

def push (s : Scanner) (t : Token) : Scanner := { s with tokens := s.tokens.push t }

def skip (s : Scanner) (n : Nat) : Scanner := { s with cursor := s.cursor.advanceBy n }

/-! ## Indentation -/

/-- Closes the block collections that are indented further than a column. -/
def closeBlocks (column : Int) (s : Scanner) : List Int → Scanner
  | [] => if column < s.indent then { s with indent := -1, outerIndents := [] }.push .blockEnd else s
  | outer :: rest =>
    if column < s.indent then
      closeBlocks column ({ s with indent := outer, outerIndents := rest }.push .blockEnd) rest
    else s

/-- Closes the block collections that are indented further than a column, outside of brackets. -/
def unindent (s : Scanner) (column : Int) : Scanner :=
  if s.inFlow then s else s.closeBlocks column s.outerIndents

/-- Opens a block collection if the column is indented further than the innermost one; its token goes
to the given place. -/
def indentTo (s : Scanner) (column place : Nat) (t : Token) : Scanner :=
  if !s.inFlow && s.indent < column then
    { s with
      outerIndents := s.indent :: s.outerIndents
      indent := column
      tokens := (s.tokens.extract 0 place).push t ++ s.tokens.extract place s.tokens.size }
  else s

/-! ## Possible keys -/

/-- Gives up the possible key of this level, unless it can be nothing else. -/
def dropKey? (s : Scanner) : Option Scanner :=
  match s.possibleKey with
  | some key => if key.required then none else some { s with possibleKey := none }
  | none => some s

/-- Notes that the next token may be a key. -/
def saveKey? (s : Scanner) : Option Scanner :=
  if s.keyAllowed then
    s.dropKey?.map fun s => { s with
      possibleKey := some ⟨!s.inFlow && s.indent == s.column, s.tokens.size, s.cursor.position⟩ }
  else some s

/-- A possible key that is out of reach. -/
def isStale (p : Position) (key : PossibleKey) : Bool :=
  key.position.line < p.line || key.position.index + keyReach < p.index

/-- Gives up a possible key that is out of reach; the answer is none if it can be nothing else. -/
def freshKey? (p : Position) : Option PossibleKey → Option (Option PossibleKey)
  | some key => if isStale p key then (if key.required then none else some none) else some (some key)
  | none => some none

/-- Gives up the possible keys that are out of reach. -/
def dropStaleKeys? (s : Scanner) : Option Scanner :=
  let p := s.cursor.position
  match freshKey? p s.possibleKey, s.outerKeys.mapM (freshKey? p) with
  | some key, some outer => some { s with possibleKey := key, outerKeys := outer }
  | _, _ => none

/-! ## Between tokens -/

/-- Goes over blanks, comments and line breaks. A tab is a blank only where no key may start, and a
byte order mark only where a line starts. -/
def skipSpace (keyAllowed inFlow : Bool) : List Char → Position → Bool → Bool × Cursor
  | [], p, _ => (keyAllowed, ⟨[], p⟩)
  | c :: rest, p, inComment =>
    if isBreak c then skipSpace (keyAllowed || !inFlow) inFlow rest (p.after c) false
    else if inComment then skipSpace keyAllowed inFlow rest (p.after c) true
    else if c == ' ' || (c == '\t' && (inFlow || !keyAllowed)) || (c == '\ufeff' && p.column == 0)
    then skipSpace keyAllowed inFlow rest (p.after c) false
    else if c == '#' then skipSpace keyAllowed inFlow rest (p.after c) true
    else (keyAllowed, ⟨c :: rest, p⟩)

/-- Goes to the next token, and closes what ends before it. -/
def toNextToken? (s : Scanner) : Option Scanner :=
  let (keyAllowed, cursor) :=
    skipSpace s.keyAllowed s.inFlow s.cursor.rest s.cursor.position false
  let s := { s with keyAllowed := keyAllowed, cursor := cursor }
  s.dropStaleKeys?.map fun s => s.unindent s.column

/-! ## Directives, anchors and tags -/

/-- A number of a version, which has up to nine digits. -/
def versionNumber? (c : Cursor) : Option (Nat × Cursor) :=
  let (digits, c) := c.takeWhile fun x => (Digit.ofChar? x).isSome
  if digits.isEmpty || digits.length > 9 then none
  else some (Digit.value (digits.filterMap Digit.ofChar?), c)

/-- The handle of a tag: an exclamation mark, perhaps followed by a word and another mark. In a
directive a handle with a word must have both marks. -/
def handle? (inDirective : Bool) (c : Cursor) : Option (List Char × Cursor) :=
  if c.head? != some '!' then none
  else
    let (word, c) := c.advance.takeWhile isWord
    if c.head? == some '!' then some ('!' :: (word ++ ['!']), c.advance)
    else if inDirective && !word.isEmpty then none
    else some ('!' :: word, c)

/-- The characters that may stand in a tag, besides those of words. -/
def isTagMark (c : Char) : Bool :=
  [';', '/', '?', ':', '@', '&', '=', '+', '$', '.', '%', '!', '~', '*', '\'', '(', ')'].contains c

/-- How many bytes a character takes whose first byte is the given one. -/
def byteLength? (first : Nat) : Option Nat :=
  if first < 0x80 then some 1
  else if first / 0x20 = 6 then some 2
  else if first / 0x10 = 14 then some 3
  else if first / 0x08 = 30 then some 4
  else none

/-- The characters of a tag, with escaped bytes in their place. Of a character that takes several
bytes, `pending` are still to come, and all of them must be escaped. -/
def readTag (verbatim : Bool) (pending : Nat) :
    List Char → Position → List Char → Option (List Char × Cursor)
  | '%' :: high :: low :: rest, p, text =>
    match hexValue? high, hexValue? low with
    | some high, some low =>
      let byte := high * 16 + low
      let after := p.after 'a' |>.after 'a' |>.after 'a'
      if pending = 0 then
        match byteLength? byte with
        | some n => readTag verbatim (n - 1) rest after (Char.ofNat byte :: text)
        | none => none
      else if byte / 0x40 = 2 then readTag verbatim (pending - 1) rest after (Char.ofNat byte :: text)
      else none
    | _, _ => none
  | c :: rest, p, text =>
    if c != '%' && (isWord c || isTagMark c || (verbatim && [',', '[', ']'].contains c)) then
      if pending = 0 then readTag verbatim 0 rest (p.after c) (c :: text) else none
    else if c == '%' || pending ≠ 0 then none
    else some (text.reverse, ⟨c :: rest, p⟩)
  | [], p, text => if pending = 0 then some (text.reverse, ⟨[], p⟩) else none

/-- The characters of a tag at the cursor. A zero byte ends the tag, though not its text: what comes
after it is read and dropped. -/
def tagText? (verbatim : Bool) (c : Cursor) : Option (List Char × Cursor) :=
  (readTag verbatim 0 c.rest c.position []).map fun (text, c) => (text.takeWhile (· ≠ '\x00'), c)

/-- The same where something must be written, if only a zero byte. -/
def writtenTagText? (verbatim : Bool) (c : Cursor) : Option (List Char × Cursor) :=
  match tagText? verbatim c with
  | some (text, after) => if after.position = c.position then none else some (text, after)
  | none => none

/-- A tag token at its exclamation mark. -/
def tag? (inFlow : Bool) (c : Cursor) : Option (Token × Cursor) :=
  let found : Option (Token × Cursor) :=
    if c.advance.head? == some '<' then
      match writtenTagText? true (c.advanceBy 2) with
      | some (text, c) => if c.head? == some '>' then some (.tag [] text, c.advance) else none
      | none => none
    else match handle? false c with
      | none => none
      | some (handle, c) =>
        if 2 ≤ handle.length && handle.getLast? == some '!' then
          (writtenTagText? false c).map fun (suffix, c) => (.tag handle suffix, c)
        else
          -- what looked like a word of a handle belongs to the tag itself
          (tagText? false c).map fun (suffix, c) =>
            let text := handle.drop 1 ++ suffix
            (if text.isEmpty then .tag [] ['!'] else .tag ['!'] text, c)
  match found with
  | none => none
  | some (t, c) =>
    if startsBlank c.rest || (inFlow && c.head? == some ',') then some (t, c) else none

/-- The name of an anchor or of an alias behind its indicator. -/
def anchorName? (c : Cursor) : Option (List Char × Cursor) :=
  let (name, c) := c.takeWhile isWord
  let ends := startsBlank c.rest ||
    c.head?.any fun x => ['?', ':', ',', ']', '\x7d', '%', '@', '\x60'].contains x
  if name.isEmpty || !ends then none else some (name, c)

/-- A directive at its percent sign. -/
def directive? (c : Cursor) : Option (Token × Cursor) :=
  let (name, c) := c.advance.takeWhile isWord
  let blank := startsBlank c.rest
  let c := c.dropWhile isBlank
  let found : Option (Token × Cursor) :=
    if !blank then none
    else if name == "YAML".toList then
      match versionNumber? c with
      | some (major, c) =>
        if c.head? != some '.' then none
        else (versionNumber? c.advance).map fun (minor, c) => (.version major minor, c)
      | none => none
    else if name == "TAG".toList then
      match handle? true c with
      | some (handle, c) =>
        if !c.head?.any isBlank then none
        else match writtenTagText? true (c.dropWhile isBlank) with
          | some (text, c) =>
            if startsBlank c.rest then some (.tagHandle handle text, c) else none
          | none => none
      | none => none
    else none
  match found with
  | none => none
  | some (t, c) => (endOfLine? c).map fun c => (t, c)

/-! ## Tokens -/

/-- The token of a mark that stands alone in its line, which ends everything before it. -/
def readMark? (s : Scanner) (t : Token) : Option Scanner :=
  (s.unindent (-1)).dropKey?.map fun s => { s.push t with keyAllowed := false }.skip 3

/-- A directive, which ends everything before it. -/
def readDirective? (s : Scanner) : Option Scanner :=
  match (s.unindent (-1)).dropKey? with
  | none => none
  | some s =>
    (directive? s.cursor).map fun (t, c) => { s.push t with keyAllowed := false, cursor := c }

/-- An opening bracket, which may itself start a key. -/
def openFlow? (s : Scanner) (t : Token) : Option Scanner :=
  s.saveKey?.map fun s =>
    { s.push t with
      outerKeys := s.possibleKey :: s.outerKeys, possibleKey := none, keyAllowed := true }.skip 1

def closeFlow? (s : Scanner) (t : Token) : Option Scanner :=
  s.dropKey?.map fun s =>
    let s := match s.outerKeys with
      | key :: outer => { s with possibleKey := key, outerKeys := outer }
      | [] => s
    { s.push t with keyAllowed := false }.skip 1

def readComma? (s : Scanner) : Option Scanner :=
  s.dropKey?.map fun s => { s.push .flowEntry with keyAllowed := true }.skip 1

/-- A hyphen before an entry. -/
def readEntry? (s : Scanner) : Option Scanner :=
  if !s.inFlow && !s.keyAllowed then none
  else (s.indentTo s.column s.tokens.size .blockSequenceStart).dropKey?.map fun s =>
    { s.push .blockEntry with keyAllowed := true }.skip 1

/-- A question mark before a key. -/
def readKey? (s : Scanner) : Option Scanner :=
  if !s.inFlow && !s.keyAllowed then none
  else (s.indentTo s.column s.tokens.size .blockMappingStart).dropKey?.map fun s =>
    { s.push .key with keyAllowed := !s.inFlow }.skip 1

/-- A colon before a value. -/
def readValue? (s : Scanner) : Option Scanner :=
  match s.possibleKey with
  | some key =>
    let place := key.tokensBefore
    let tokens :=
      (s.tokens.extract 0 place).push .key ++ s.tokens.extract place s.tokens.size
    let s := { s with tokens := tokens }.indentTo key.position.column place .blockMappingStart
    some ({ s.push .value with possibleKey := none, keyAllowed := false }.skip 1)
  | none =>
    if !s.inFlow && !s.keyAllowed then none
    else
      let s := s.indentTo s.column s.tokens.size .blockMappingStart
      some ({ s.push .value with keyAllowed := !s.inFlow }.skip 1)

/-- A token that may be a key: an alias, an anchor or a tag. -/
def readNamed? (s : Scanner) (read? : Cursor → Option (Token × Cursor)) : Option Scanner :=
  match s.saveKey? with
  | none => none
  | some s =>
    (read? s.cursor).map fun (t, c) => { s.push t with keyAllowed := false, cursor := c }

def readQuoted? (s : Scanner) (style : Style)
    (read? : List Char → Position → Option Ending) : Option Scanner :=
  match s.saveKey? with
  | none => none
  | some s =>
    let c := s.cursor.advance
    (read? c.rest c.position).map fun e =>
      { s.push (.scalar style e.text) with keyAllowed := false, cursor := e.cursor }

/-- A plain scalar. Behind a line break a key may start. -/
def readPlain? (s : Scanner) : Option Scanner :=
  match s.saveKey? with
  | none => none
  | some s =>
    (readPlain s.inFlow (s.indent + 1).toNat s.cursor.rest s.cursor.position [] .none).map fun e =>
      { s.push (.scalar .plain e.text) with keyAllowed := e.broken, cursor := e.cursor }

def readBlock? (s : Scanner) (style : Style) : Option Scanner :=
  match s.dropKey? with
  | none => none
  | some s =>
    (readBlock (style == .folded) s.indent s.cursor.advance).map fun e =>
      { s.push (.scalar style e.text) with keyAllowed := true, cursor := e.cursor }

/-- The characters that start something else than a plain scalar, or nothing. -/
def isIndicator (c : Char) : Bool :=
  ['-', '?', ':', ',', '[', ']', '\x7b', '\x7d', '#', '&', '*', '!', '|', '>', '\'', '"', '%', '@',
    '\x60'].contains c

/-- A plain scalar may start with the character. -/
def startsPlain (inFlow : Bool) (c : Char) (rest : List Char) : Bool :=
  (!isSpace c && !isIndicator c) || (c == '-' && !rest.head?.any isBlank) ||
    (!inFlow && (c == '?' || c == ':') && !startsBlank rest)

/-- The next token, from its first character on. -/
def readToken? (s : Scanner) (c : Char) (rest : List Char) : Option Scanner :=
  let alone := s.inFlow || startsBlank rest
  if s.column == 0 && c == '%' then s.readDirective?
  else if s.column == 0 && startsMark (c :: rest) then
    s.readMark? (if c == '-' then .documentStart else .documentEnd)
  else if c == '[' then s.openFlow? .flowSequenceStart
  else if c == '\x7b' then s.openFlow? .flowMappingStart
  else if c == ']' then s.closeFlow? .flowSequenceEnd
  else if c == '\x7d' then s.closeFlow? .flowMappingEnd
  else if c == ',' then s.readComma?
  else if c == '-' && startsBlank rest then s.readEntry?
  else if c == '?' && alone then s.readKey?
  else if c == ':' && alone then s.readValue?
  else if c == '*' then
    s.readNamed? fun c => (anchorName? c.advance).map fun (n, c) => (.aliasOf n, c)
  else if c == '&' then
    s.readNamed? fun c => (anchorName? c.advance).map fun (n, c) => (.anchor n, c)
  else if c == '!' then s.readNamed? (tag? s.inFlow)
  else if c == '|' && !s.inFlow then s.readBlock? .literal
  else if c == '>' && !s.inFlow then s.readBlock? .folded
  else if c == '\'' then
    s.readQuoted? .singleQuoted fun rest p => readSingleQuoted rest p [] .none
  else if c == '"' then
    s.readQuoted? .doubleQuoted fun rest p => readDoubleQuoted none rest p [] .none
  else if startsPlain s.inFlow c rest then s.readPlain?
  else none

/-- All tokens to the end of the text. A token takes at least one character. -/
def readAll? (s : Scanner) : Option (List Token) :=
  match s.toNextToken? with
  | none => none
  | some next =>
    match next.cursor.rest with
    | [] => (next.unindent (-1)).dropKey?.map fun s => s.tokens.toList
    | c :: rest =>
      match next.readToken? c rest with
      | none => none
      | some after =>
        if after.cursor.rest.length < s.cursor.rest.length then readAll? after else none
termination_by s.cursor.rest.length

end Scanner

def scan? (s : String) : Option (List Token) :=
  if s.toList.all isAllowed then (Scanner.start (unifyBreaks s.toList)).readAll? else none

end ObjectGraph.Yaml
