/-!
# Positions in a YAML text

## Main definitions

* `Yaml.Fault` — why a text is no YAML;
* `Yaml.isBreak`, `Yaml.isGap` — line breaks, and blanks or line breaks;
* `Yaml.Cursor` — a position in a text, with what is left of it;
* `Cursor.advance`, `Cursor.skipBreak`, `Cursor.span` — moving on.
-/

namespace UpdatePlanner.Yaml

/-- Why a text is no YAML document. -/
inductive Fault where
  | controlCharacter
  | unexpectedCharacter
  | misplacedIndicator
  | missingColon
  | badIndentation
  | badDirective
  | badAnchor
  | badTag
  | badEscape
  | badBlockHeader
  | unclosedQuote
  | documentMarkInside
  | unexpectedToken
  | unknownAlias
  | severalDocuments
  | unexpectedShape
  deriving DecidableEq, Repr

def Fault.message : Fault → String
  | controlCharacter => "control characters are not allowed"
  | unexpectedCharacter => "found character that cannot start any token"
  | misplacedIndicator => "an indicator is not allowed in this context"
  | missingColon => "could not find expected ':'"
  | badIndentation => "found a tab character where an indentation space is expected"
  | badDirective => "found a malformed directive"
  | badAnchor => "found a malformed anchor"
  | badTag => "found a malformed tag"
  | badEscape => "found unknown escape character"
  | badBlockHeader => "did not find expected comment or line break"
  | unclosedQuote => "found unexpected end of stream"
  | documentMarkInside => "found unexpected document indicator"
  | unexpectedToken => "did not find expected node content"
  | unknownAlias => "unknown anchor"
  | severalDocuments => "more than one document is not supported"
  | unexpectedShape => "the document does not fit the expected type"

def isBreak (c : Char) : Bool :=
  c = '\r' || c = '\n' || c = '\x85' || c = '\u2028' || c = '\u2029'

def isBlank (c : Char) : Bool :=
  c = ' ' || c = '\t'

/-- A space, a tab or a line break. -/
def isGap (c : Char) : Bool :=
  isBlank c || isBreak c

/-- Whether a line, or the text, ends here. -/
def endsLine (c : Option Char) : Bool :=
  c.all isBreak

/-- Whether a word ends here. -/
def endsWord (c : Option Char) : Bool :=
  c.all isGap

/-- A character of an anchor name or a tag handle. -/
def isNameChar (c : Char) : Bool :=
  c.isAlphanum || c = '_' || c = '-'

/-- The characters that a text may hold. -/
def isAllowed (c : Char) : Bool :=
  let n := c.toNat
  n = 0x9 || n = 0xA || n = 0xD || (0x20 ≤ n && n ≤ 0x7E) || n = 0x85 ||
    (0xA0 ≤ n && n ≤ 0xFFFD) || 0x10000 ≤ n

/-- A position in a text. -/
structure Cursor where
  rest : List Char
  offset : Nat
  line : Nat
  column : Nat

namespace Cursor

def start (text : List Char) : Cursor := ⟨text, 0, 0, 0⟩

/-- The character at a distance from the position. -/
def peek? (c : Cursor) (distance : Nat) : Option Char :=
  c.rest[distance]?

/-- The number of bytes of some characters. -/
def byteSize (cs : List Char) : Nat :=
  cs.foldl (fun n c => n + c.utf8Size) 0

/-- The position some characters further on, none of which ends a line. -/
def advance (c : Cursor) (n : Nat) : Cursor :=
  ⟨c.rest.drop n, c.offset + byteSize (c.rest.take n), c.line, c.column + n⟩

/-- The position behind the line break here, and the break as text: breaks of a byte or two are
all the same, the others stand for themselves. -/
def takeBreak (c : Cursor) : List Char × Cursor :=
  match c.rest with
  | '\r' :: '\n' :: rest => (['\n'], ⟨rest, c.offset + 2, c.line + 1, 0⟩)
  | d :: rest =>
    (if d = '\u2028' || d = '\u2029' then [d] else ['\n'],
      ⟨rest, c.offset + d.utf8Size, c.line + 1, 0⟩)
  | [] => ([], c)

/-- The position behind the line break here. -/
def skipBreak (c : Cursor) : Cursor :=
  c.takeBreak.2

/-- The characters from here on that have a property, none of which ends a line, and the
position behind them. -/
def span (c : Cursor) (p : Char → Bool) : List Char × Cursor :=
  let run := c.rest.takeWhile p
  (run, c.advance run.length)

/-- The position behind the characters that have a property. -/
def skipWhile (c : Cursor) (p : Char → Bool) : Cursor :=
  (c.span p).2

/-- The position behind the blanks here and a comment after them. -/
def skipToLineEnd (c : Cursor) : Cursor :=
  let c := c.skipWhile isBlank
  if c.peek? 0 = some '#' then c.skipWhile fun d => !isBreak d else c

/-- Whether a mark of three characters stands at the beginning of a line here. -/
def atMark (c : Cursor) (d : Char) : Bool :=
  c.column = 0 && c.rest.take 3 = [d, d, d] && endsWord (c.peek? 3)

/-- Whether a mark for the beginning or the end of a document stands here. -/
def atDocumentMark (c : Cursor) : Bool :=
  c.atMark '-' || c.atMark '.'

end Cursor

end UpdatePlanner.Yaml
