import UpdatePlanner.Yaml.Tag

/-!
# YAML tokens

The tokens of a text show its structure: the beginnings and ends of collections, which the
indentation of blocks implies, keys, values and scalars.  A key need not be marked.  What might
be one is remembered, and when a colon follows on its line, the mark is put in front of it.

## Main definitions

* `Token` — the tokens;
* `Lexer` — a text that has been cut in part;
* `Token.read?` — the tokens of a text.
-/

namespace UpdatePlanner.Yaml

inductive Token where
  | version (major minor : Nat)
  | handle (name : String) (expansion : List UInt8)
  | documentStart
  | documentEnd
  | blockSequence
  | blockMapping
  | blockEnd
  | flowSequence
  | flowSequenceEnd
  | flowMapping
  | flowMappingEnd
  | entry
  | comma
  | key
  | value
  | reference (name : String)
  | anchor (name : String)
  | tag (handle : String) (suffix : List UInt8)
  | scalar (text : String) (style : ScalarStyle)
  deriving DecidableEq, Repr

/-- A place where a mark for a key may have to be put. -/
structure PossibleKey where
  /-- Whether nothing but a key can stand there. -/
  required : Bool
  /-- The number of tokens before the place. -/
  position : Nat
  offset : Nat
  line : Nat
  column : Nat

/-- A text that has been cut into tokens in part. -/
structure Lexer where
  cursor : Cursor
  tokens : List Token
  count : Nat
  /-- The indentation of the innermost block, -1 outside of all blocks. -/
  indent : Int
  /-- The indentations of the blocks around it, innermost first. -/
  outerIndents : List Int
  /-- Whether a key without a mark may begin here. -/
  keyAllowed : Bool
  /-- The possible key of the innermost flow, or of the text outside of flows. -/
  possibleKey : Option PossibleKey
  /-- The possible keys around it, one for each open flow. -/
  outerKeys : List (Option PossibleKey)

namespace Lexer

def start (text : List Char) : Lexer :=
  ⟨.start text, [], 0, -1, [], true, none, []⟩

/-- Whether a flow, a collection in brackets, is open. -/
def inFlow (l : Lexer) : Bool :=
  !l.outerKeys.isEmpty

def column (l : Lexer) : Int :=
  l.cursor.column

def push (l : Lexer) (t : Token) : Lexer :=
  { l with tokens := t :: l.tokens, count := l.count + 1 }

/-- The lexer with one more token, put at an earlier place. -/
def insert (l : Lexer) (position : Nat) (t : Token) : Lexer :=
  { l with tokens := l.tokens.insertIdx (l.count - position) t, count := l.count + 1 }

def advance (l : Lexer) (n : Nat) : Lexer :=
  { l with cursor := l.cursor.advance n }

/-- Forgets the possible key; one that is required must not be forgotten. -/
def forgetKey (l : Lexer) : Except Fault Lexer :=
  if l.possibleKey.any (·.required) then .error .missingColon
  else .ok { l with possibleKey := none }

/-- Remembers that a key may begin here. -/
def rememberKey (l : Lexer) : Except Fault Lexer :=
  if l.keyAllowed then do
    let l ← l.forgetKey
    -- At the indentation of its block nothing but a key may begin.
    let required := !l.inFlow && l.indent = l.column
    return { l with
      possibleKey := some
        ⟨required, l.count, l.cursor.offset, l.cursor.line, l.cursor.column⟩ }
  else
    .ok l

/-- The largest number of bytes of a key without a mark. -/
def keyLimit : Nat := 1024

/-- Whether a possible key cannot become one any more: its line is over, or it is too long. -/
def isStale (c : Cursor) (k : PossibleKey) : Bool :=
  k.line < c.line || k.offset + keyLimit < c.offset

/-- Forgets every possible key that cannot become one any more. -/
def forgetStale (l : Lexer) : Except Fault Lexer :=
  let keys := l.possibleKey :: l.outerKeys
  if keys.any fun k => k.any fun k => isStale l.cursor k && k.required then
    .error .missingColon
  else
    let fresh (k : Option PossibleKey) := k.filter fun k => !isStale l.cursor k
    .ok { l with possibleKey := fresh l.possibleKey, outerKeys := l.outerKeys.map fresh }

/-- Begins a block at a column, if it is indented further than the innermost one.  Its token is
put at a given place, or at the end. -/
def indentTo (l : Lexer) (column : Int) (position : Option Nat) (t : Token) : Lexer :=
  if !l.inFlow && l.indent < column then
    let l := { l with indent := column, outerIndents := l.indent :: l.outerIndents }
    match position with
    | some n => l.insert n t
    | none => l.push t
  else
    l

/-- Ends the blocks among the given ones that are indented further than a column. -/
def endBlocks (column : Int) : List Int → Lexer → Lexer
  | [], l => l
  | outer :: outers, l =>
    if l.indent > column then
      endBlocks column outers ({ l with indent := outer, outerIndents := outers }.push .blockEnd)
    else
      l

/-- Ends the blocks that are indented further than a column. -/
def outdentTo (l : Lexer) (column : Int) : Lexer :=
  -- Between brackets indentation has no meaning.
  if l.inFlow then l else endBlocks column l.outerIndents l

/-- Skips blanks, comments and line breaks, and a mark for the order of bytes at the beginning of
a line.  A tab is no blank where a key may begin.  After a line break outside of flows a key may
begin. -/
def skipToToken : Nat → Lexer → Lexer
  | 0, l => l
  | fuel + 1, l =>
    let c := l.cursor
    let c := if c.column = 0 && c.peek? 0 = some '\ufeff' then c.advance 1 else c
    -- Where a key may begin, a tab would leave its column open.
    let c := c.skipWhile fun d => d = ' ' || ((l.inFlow || !l.keyAllowed) && d = '\t')
    let c := if c.peek? 0 = some '#' then c.skipWhile fun d => !isBreak d else c
    if (c.peek? 0).any isBreak then
      skipToToken fuel { l with cursor := c.skipBreak, keyAllowed := l.keyAllowed || !l.inFlow }
    else
      { l with cursor := c }

/-! ## Structure -/

/-- Reads a mark for the beginning or the end of a document. -/
def readDocumentMark (l : Lexer) (t : Token) : Except Fault Lexer := do
  let l ← (l.outdentTo (-1)).forgetKey
  return ({ l with keyAllowed := false }.advance 3).push t

/-- Reads an opening bracket. -/
def openFlow (l : Lexer) (t : Token) : Except Fault Lexer := do
  let l ← l.rememberKey
  -- The brackets have a possible key of their own inside.
  let l := { l with
    possibleKey := none, outerKeys := l.possibleKey :: l.outerKeys, keyAllowed := true }
  return (l.advance 1).push t

/-- Reads a closing bracket. -/
def closeFlow (l : Lexer) (t : Token) : Except Fault Lexer := do
  let l ← l.forgetKey
  -- The brackets may themselves be a key, and then it begins where they opened.
  let l := match l.outerKeys with
    | k :: ks => { l with possibleKey := k, outerKeys := ks }
    | [] => l
  return ({ l with keyAllowed := false }.advance 1).push t

/-- Reads a comma between the entries of a flow. -/
def readComma (l : Lexer) : Except Fault Lexer := do
  let l ← l.forgetKey
  return ({ l with keyAllowed := true }.advance 1).push .comma

/-- Begins a block for an indicator that stands here, where one may stand. -/
def beginBlock (l : Lexer) (t : Token) : Except Fault Lexer :=
  if l.inFlow then .ok l
  else if l.keyAllowed then .ok (l.indentTo l.column none t)
  else .error .misplacedIndicator

/-- Reads the dash in front of an entry of a block. -/
def readEntry (l : Lexer) : Except Fault Lexer := do
  let l ← (← l.beginBlock .blockSequence).forgetKey
  return ({ l with keyAllowed := true }.advance 1).push .entry

/-- Reads the mark in front of a key. -/
def readKey (l : Lexer) : Except Fault Lexer := do
  let l ← (← l.beginBlock .blockMapping).forgetKey
  return ({ l with keyAllowed := !l.inFlow }.advance 1).push .key

/-- Reads the colon in front of a value.  If a key without a mark stands in front of it, the mark
is put there, and before it the beginning of a block if it begins one. -/
def readValue (l : Lexer) : Except Fault Lexer := do
  match l.possibleKey with
  | some k =>
    -- The mark goes in first, so that the beginning of a block ends up in front of it.
    let l := (l.insert k.position .key).indentTo k.column (some k.position) .blockMapping
    return ({ l with possibleKey := none, keyAllowed := false }.advance 1).push .value
  | none =>
    let l ← l.beginBlock .blockMapping
    return ({ l with keyAllowed := !l.inFlow }.advance 1).push .value

/-! ## Directives, anchors and tags -/

/-- Reads a directive up to the end of its line. -/
def readDirective (l : Lexer) : Except Fault Lexer := do
  let l ← (l.outdentTo (-1)).forgetKey
  let (name, c) := (l.cursor.advance 1).span isNameChar
  if name.isEmpty || !endsWord (c.peek? 0) then
    throw .badDirective
  let c := c.skipWhile isBlank
  let (t, c) ←
    if name = "YAML".toList then readVersion c
    else if name = "TAG".toList then readHandle c
    else throw .badDirective
  let c := c.skipToLineEnd
  if !endsLine (c.peek? 0) then
    throw .badDirective
  return { l with cursor := c.skipBreak, keyAllowed := false }.push t
where
  /-- A version: two numbers with a point between them. -/
  readVersion (c : Cursor) : Except Fault (Token × Cursor) :=
    let (major, c) := c.span Char.isDigit
    let (minor, d) := (c.advance 1).span Char.isDigit
    if major.isEmpty || minor.isEmpty || major.length > 9 || minor.length > 9 ||
        c.peek? 0 ≠ some '.' then
      .error .badDirective
    else
      .ok (.version (Text.digitsValue major) (Text.digitsValue minor), d)
  /-- A tag handle and what it stands for. -/
  readHandle (c : Cursor) : Except Fault (Token × Cursor) := do
    let (name, d) := (c.advance 1).span isNameChar
    let closed := d.peek? 0 = some '!'
    let d := if closed then d.advance 1 else d
    -- A handle with a name ends in a second exclamation mark.
    if c.peek? 0 ≠ some '!' || (!closed && !name.isEmpty) || !(d.peek? 0).any isBlank then
      throw .badDirective
    let d := d.skipWhile isBlank
    let (expansion, e) ← readTagBytes true (d.rest.length + 1) d
    if expansion.isEmpty || !endsWord (e.peek? 0) then
      throw .badDirective
    let name := String.ofList ('!' :: name ++ (if closed then ['!'] else []))
    return (.handle name (Tag.untilZero expansion), e)

/-- The characters that end an anchor name, beside white space. -/
def endsAnchor (c : Option Char) : Bool :=
  endsWord c || c.any fun d => "?:,]\x7d%@\x60".toList.contains d

def readAnchor (l : Lexer) (make : String → Token) : Except Fault Lexer := do
  let l ← l.rememberKey
  let (name, c) := (l.cursor.advance 1).span isNameChar
  if name.isEmpty || !endsAnchor (c.peek? 0) then
    throw .badAnchor
  return { l with cursor := c, keyAllowed := false }.push (make (String.ofList name))

/-- Reads a tag: its handle and its suffix.  Without a suffix the handle of one exclamation mark
is the tag itself. -/
def readTag (l : Lexer) : Except Fault Lexer := do
  let l ← l.rememberKey
  let fuel := l.cursor.rest.length + 1
  let (t, c) ←
    if l.cursor.peek? 1 = some '<' then
      -- Between angle brackets stands a whole tag.
      let (bytes, c) ← readTagBytes true fuel (l.cursor.advance 2)
      if bytes.isEmpty || c.peek? 0 ≠ some '>' then throw .badTag
      pure (Token.tag "" (Tag.untilZero bytes), c.advance 1)
    else
      let start := l.cursor.advance 1
      let (name, c) := start.span isNameChar
      if c.peek? 0 = some '!' then
        let (suffix, c) ← readTagBytes false fuel (c.advance 1)
        if suffix.isEmpty then throw .badTag
        pure (Token.tag (String.ofList ('!' :: name ++ ['!'])) (Tag.untilZero suffix), c)
      else
        -- The name was no handle, and is a part of the suffix.
        let (bytes, c) ← readTagBytes false fuel start
        let suffix := Tag.untilZero bytes
        pure (if suffix.isEmpty then Token.tag "" ['!'.toUInt8] else Token.tag "!" suffix, c)
  if !(endsWord (c.peek? 0) || (l.inFlow && c.peek? 0 = some ',')) then
    throw .badTag
  return { l with cursor := c, keyAllowed := false }.push t

/-! ## Scalars -/

def readQuotedScalar (l : Lexer) (quote : Char) (style : ScalarStyle) : Except Fault Lexer := do
  let l ← l.rememberKey
  let (text, c) ← readQuoted quote l.cursor
  return { l with cursor := c, keyAllowed := false }.push (.scalar (String.ofList text) style)

def readPlainScalar (l : Lexer) : Except Fault Lexer := do
  let l ← l.rememberKey
  let (text, broken, c) ← readPlain l.inFlow (l.indent + 1) l.cursor
  return { l with cursor := c, keyAllowed := broken }.push (.scalar (String.ofList text) .plain)

def readBlockScalar (l : Lexer) (style : ScalarStyle) : Except Fault Lexer := do
  let l ← l.forgetKey
  let (text, c) ← readBlock (style = .folded) l.indent l.cursor
  return { l with cursor := c, keyAllowed := true }.push (.scalar (String.ofList text) style)

/-! ## Tokens -/

/-- The characters that are indicators at the beginning of a token. -/
def isIndicator (c : Char) : Bool :=
  "-?:,[]\x7b\x7d#&*!|>'\"%@\x60".toList.contains c

/-- Whether a plain scalar may begin here. -/
def startsPlain (l : Lexer) (c : Char) : Bool :=
  let next := l.cursor.peek? 1
  !(isGap c || isIndicator c) || (c = '-' && !next.any isBlank) ||
    (!l.inFlow && (c = '?' || c = ':') && !endsWord next)

/-- Reads the token that begins with a character. -/
def readToken (l : Lexer) (c : Char) : Except Fault Lexer :=
  let spaced := endsWord (l.cursor.peek? 1)
  if l.cursor.column = 0 && c = '%' then l.readDirective
  else if l.cursor.atMark '-' then l.readDocumentMark .documentStart
  else if l.cursor.atMark '.' then l.readDocumentMark .documentEnd
  else if c = '[' then l.openFlow .flowSequence
  else if c = '\x7b' then l.openFlow .flowMapping
  else if c = ']' then l.closeFlow .flowSequenceEnd
  else if c = '\x7d' then l.closeFlow .flowMappingEnd
  else if c = ',' then l.readComma
  else if c = '-' && spaced then l.readEntry
  else if c = '?' && (l.inFlow || spaced) then l.readKey
  else if c = ':' && (l.inFlow || spaced) then l.readValue
  else if c = '*' then l.readAnchor .reference
  else if c = '&' then l.readAnchor .anchor
  else if c = '!' then l.readTag
  else if c = '|' && !l.inFlow then l.readBlockScalar .literal
  else if c = '>' && !l.inFlow then l.readBlockScalar .folded
  else if c = '\'' then l.readQuotedScalar c .singleQuoted
  else if c = '"' then l.readQuotedScalar c .doubleQuoted
  else if l.startsPlain c then l.readPlainScalar
  else .error .unexpectedCharacter

/-- Cuts the rest of a text into tokens. -/
def run : Nat → Lexer → Except Fault (List Token)
  | 0, _ => .error .unexpectedCharacter
  | fuel + 1, l => do
    let l ← (skipToToken (l.cursor.rest.length + 1) l).forgetStale
    let l := l.outdentTo l.column
    match l.cursor.rest with
    | [] =>
      let l ← (l.outdentTo (-1)).forgetKey
      return l.tokens.reverse
    | c :: _ => run fuel (← l.readToken c)

end Lexer

/-- The tokens of a text.  A mark for the order of its bytes may stand in front of it, and takes
up a column of the first line. -/
def Token.read? (text : List Char) : Except Fault (List Token) :=
  if text.all isAllowed then
    (Lexer.start text).run (text.length + 2)
  else
    .error .controlCharacter

end UpdatePlanner.Yaml
