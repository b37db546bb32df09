import UpdatePlanner.Yaml.Scalar
import UpdatePlanner.Yaml.Schema

/-!
# Writing YAML

Documents of texts, lists and mappings are written as blocks, each level indented by two spaces;
lists below a key are not indented, and empty lists and mappings are brackets.  A text is written
plain if it reads back as a text, else in single quotes, and in double quotes only if it holds
characters that need escapes.  A text of several lines is a literal block.

## Main definitions

* `Tree` — what is written;
* `TextTraits`, `chooseStyle` — which styles a text allows, and the one it is written in;
* `Pen` — the place where writing goes on;
* `Tree.render` — the text of a document.
-/

namespace UpdatePlanner.Yaml

/-- A document to be written. -/
inductive Tree where
  | text (s : String)
  | list (items : List Tree)
  | map (entries : List (String × Tree))
  deriving Repr

/-! ## Styles -/

/-- The characters that are written as they are. -/
def isPrintable (c : Char) : Bool :=
  let n := c.toNat
  n = 0xA || (0x20 ≤ n && n ≤ 0x7E) || (0xA0 ≤ n && n ≤ 0xD7FF) ||
    (0xE000 ≤ n && n ≤ 0xFFFD && n ≠ 0xFEFF) || 0x10000 ≤ n

/-- Which styles a text allows. -/
structure TextTraits where
  multiline : Bool
  plain : Bool
  singleQuoted : Bool
  literal : Bool
  deriving DecidableEq, Repr

/-- The characters that no plain scalar begins with. -/
def startsNoPlain (c : Char) : Bool :=
  "#,[]\x7b\x7d&*!|>'\"%@\x60".toList.contains c

/-- Whether a character and what follows it may not stand at the beginning of a plain scalar. -/
def isLeadingIndicator : List Char → Bool
  | c :: cs => startsNoPlain c || ((c = '?' || c = ':' || c = '-') && endsWord cs.head?)
  | [] => false

/-- Whether somewhere behind the beginning of a text a colon stands before white space, or a hash
behind it. -/
def hasInnerIndicator : List Char → Bool
  | c :: d :: cs =>
    (d = ':' && endsWord cs.head?) || (d = '#' && isGap c) || hasInnerIndicator (d :: cs)
  | _ => false

/-- Whether two neighbours in a text have given properties. -/
def hasNeighbours (p q : Char → Bool) : List Char → Bool
  | c :: d :: cs => (p c && q d) || hasNeighbours p q (d :: cs)
  | _ => false

/-- Which styles a text allows.  White space at its ends and breaks keep it from being plain;
spaces behind a break from being quoted; spaces before a break, and characters that need escapes,
from all but double quotes. -/
def TextTraits.ofText (cs : List Char) : TextTraits :=
  let isSpace (c : Char) : Bool := c = ' '
  let broken := cs.any isBreak
  let special := cs.any fun c => !isPrintable c
  let edge := [cs.head?, cs.getLast?].any fun c => c.any fun d => isSpace d || isBreak d
  let mark := cs.take 3 = ['-', '-', '-'] || cs.take 3 = ['.', '.', '.']
  let spaceBreak := hasNeighbours isSpace isBreak cs
  let breakSpace := hasNeighbours isBreak isSpace cs
  let escaped := special || spaceBreak
  { multiline := broken
    plain := !escaped && !edge && !broken && !mark && !isLeadingIndicator cs &&
      !hasInnerIndicator cs
    singleQuoted := !escaped && !breakSpace
    literal := !escaped && !cs.isEmpty && cs.getLast? != some ' ' }

/-- Whether a text may stand as a key in front of its colon: in one line and not too long. -/
def isSimpleKey (s : String) : Bool :=
  !(TextTraits.ofText s.toList).multiline && s.utf8ByteSize ≤ 128

/-- The style a text is written in. -/
def chooseStyle (s : String) : ScalarStyle :=
  let traits := TextTraits.ofText s.toList
  let quoted := if traits.singleQuoted then ScalarStyle.singleQuoted else .doubleQuoted
  if s.toList.contains '\n' then
    -- Quotes would hide the lines.
    if traits.literal then .literal else .doubleQuoted
  -- What is written plainly has to be read as a text again.
  else if ScalarKind.ofText s = .text && !ScalarKind.hasLeadingZero s.toList && traits.plain then
    .plain
  else
    quoted

/-! ## The pen -/

/-- A text that is being written, and where its end stands. -/
structure Pen where
  /-- What has been written, last first. -/
  written : List Char
  column : Nat
  /-- Whether white space stands in front of the pen. -/
  spaced : Bool
  /-- Whether only indentation and indicators stand in front of it on the line. -/
  indented : Bool

namespace Pen

def start : Pen := ⟨[], 0, true, true⟩

def put (p : Pen) (c : Char) : Pen :=
  { p with written := c :: p.written, column := p.column + 1 }

/-- Writes characters of one line. -/
def putAll (p : Pen) (cs : List Char) : Pen :=
  cs.foldl put p

/-- Ends a line by a given break. -/
def putBreak (p : Pen) (c : Char) : Pen :=
  { p with written := c :: p.written, column := 0 }

/-- Moves on to an indentation, on a new line if the pen is beyond it. -/
def indentTo (p : Pen) (indent : Nat) : Pen :=
  let p :=
    if !p.indented || p.column > indent || (p.column = indent && !p.spaced) then p.putBreak '\n'
    else p
  { p.putAll (List.replicate (indent - p.column) ' ') with spaced := true, indented := true }

/-- Writes an indicator, with a space before it where that is needed and none is there. -/
def indicate (p : Pen) (indicator : String) (needsSpace spaced indented : Bool) : Pen :=
  let p := if needsSpace && !p.spaced then p.put ' ' else p
  { p.putAll indicator.toList with spaced := spaced, indented := p.indented && indented }

/-! ## Scalars -/

def plain (p : Pen) (cs : List Char) : Pen :=
  let p := if p.spaced || cs.isEmpty then p else p.put ' '
  { p.putAll cs with spaced := false, indented := false }

/-- Writes the inside of single quotes; `broken` says that a line break stands in front of it. -/
def singleQuotedInside (indent : Nat) : Bool → List Char → Pen → Pen
  | broken, [], p => if broken then p.indentTo indent else p
  | broken, c :: cs, p =>
    if isBreak c then
      -- The first break of several stands for a space, so one more is written.
      let p := if !broken && c = '\n' then p.putBreak '\n' else p
      singleQuotedInside indent true cs { p.putBreak c with indented := true }
    else if c = ' ' then
      singleQuotedInside indent broken cs (p.put ' ')
    else
      let p := if broken then p.indentTo indent else p
      let p := if c = '\'' then (p.put c).put c else p.put c
      singleQuotedInside indent false cs { p with indented := false }

def singleQuoted (p : Pen) (indent : Nat) (cs : List Char) : Pen :=
  let p := singleQuotedInside indent false cs (p.indicate "'" true false false)
  p.indicate "'" false false false

/-- The digits of a code in a base of sixteen. -/
def hexCode (width n : Nat) : List Char :=
  (List.range width).reverse.map fun k =>
    let d := n / Nat.pow 16 k % 16
    Char.ofNat (if d < 10 then 48 + d else 55 + d)

/-- The letters behind a backslash for the characters that have one. -/
def escapeLetters : List (Char × Char) :=
  [('\x00', '0'), ('\x07', 'a'), ('\x08', 'b'), ('\t', 't'), ('\n', 'n'), ('\x0b', 'v'),
    ('\x0c', 'f'), ('\r', 'r'), ('\x1b', 'e'), ('"', '"'), ('\\', '\\'), ('\x85', 'N'),
    ('\xa0', '_'), ('\u2028', 'L'), ('\u2029', 'P')]

/-- A character inside double quotes. -/
def escape (c : Char) : List Char :=
  if isPrintable c && !isBreak c && c != '"' && c != '\\' then [c]
  else
    match escapeLetters.lookup c with
    | some letter => ['\\', letter]
    | none =>
      if c.toNat ≤ 0xFF then '\\' :: 'x' :: hexCode 2 c.toNat
      else if c.toNat ≤ 0xFFFF then '\\' :: 'u' :: hexCode 4 c.toNat
      else '\\' :: 'U' :: hexCode 8 c.toNat

def doubleQuoted (p : Pen) (cs : List Char) : Pen :=
  let p := (p.indicate "\"" true false false).putAll (cs.flatMap escape)
  p.indicate "\"" false false false

/-- What the header of a literal block says: the indentation, if the text begins with white
space, and what happens to the breaks at its end. -/
def literalHints (cs : List Char) : String :=
  let hint := if cs.head?.any fun c => c = ' ' || isBreak c then "2" else ""
  let chomping :=
    match cs.reverse with
    | [] => "-"
    | c :: rest => if !isBreak c then "-" else if rest.head?.all isBreak then "+" else ""
  hint ++ chomping

/-- Writes the lines of a literal block; `broken` says that the pen stands at the beginning of a
line. -/
def literalLines (indent : Nat) : Bool → List Char → Pen → Pen
  | _, [], p => p
  | broken, c :: cs, p =>
    if isBreak c then
      literalLines indent true cs { p.putBreak c with indented := true }
    else
      let p := if broken then p.indentTo indent else p
      literalLines indent false cs { p.put c with indented := false }

/-- Writes a scalar as a literal block. -/
def literal (p : Pen) (indent : Nat) (cs : List Char) : Pen :=
  let p := (p.indicate "|" true false false).indicate (literalHints cs) false false false
  literalLines indent true cs { p.putBreak '\n' with spaced := true, indented := true }

/-- Writes a text in the style it is written in; its further lines go to an indentation. -/
def text (p : Pen) (indent : Nat) (s : String) : Pen :=
  match chooseStyle s with
  | .plain => p.plain s.toList
  | .singleQuoted => p.singleQuoted indent s.toList
  | .doubleQuoted => p.doubleQuoted s.toList
  | .literal | .folded => p.literal indent s.toList

/-! ## Collections -/

/-- Writes a key and the colon behind it.  A key that is not simple is marked. -/
def key (p : Pen) (indent : Nat) (name : String) : Pen :=
  let p := p.indentTo indent
  if isSimpleKey name then
    (p.text (indent + 2) name).indicate ":" false false false
  else
    ((((p.indicate "?" true false true).text (indent + 2) name).indentTo indent).indicate ":"
      true false true)

mutual

/-- Writes a document, or a part of one, inside of an indentation.  A list is indented unless it
stands right below a key. -/
def tree (indent : Nat) (belowKey : Bool) : Tree → Pen → Pen
  | .text s, p => p.text (indent + 2) s
  | .list [], p => (p.indicate "[" true true false).indicate "]" false false false
  | .list (item :: rest), p =>
    -- A key that is marked by `?` leaves the pen indented behind its colon.
    let indent := if belowKey && !p.indented then indent else indent + 2
    items indent (item :: rest) p
  | .map [], p => (p.indicate "\x7b" true true false).indicate "\x7d" false false false
  | .map (entry :: rest), p => entries (indent + 2) (entry :: rest) p

/-- Writes the items of a list. -/
def items (indent : Nat) : List Tree → Pen → Pen
  | [], p => p
  | item :: rest, p =>
    items indent rest
      (tree indent false item ((p.indentTo indent).indicate "-" true false true))

/-- Writes the entries of a mapping. -/
def entries (indent : Nat) : List (String × Tree) → Pen → Pen
  | [], p => p
  | (name, value) :: rest, p =>
    entries indent rest (tree indent true value (p.key indent name))

end

end Pen

namespace Tree

/-- Writes a whole document, whose outermost block is not indented. -/
def write : Tree → Pen
  | .map (entry :: rest) => Pen.entries 0 (entry :: rest) .start
  | .list (item :: rest) => Pen.items 0 (item :: rest) .start
  | t => Pen.tree 0 false t .start

def render (t : Tree) : String :=
  String.ofList (t.write.indentTo 0).written.reverse

end Tree

end UpdatePlanner.Yaml
