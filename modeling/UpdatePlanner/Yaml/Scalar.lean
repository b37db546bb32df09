import UpdatePlanner.Text.Number
import UpdatePlanner.Yaml.Cursor

/-!
# YAML scalars

A scalar is written plain, in quotes, or as a block of lines.  In plain and quoted scalars a line
break stands for a space, and breaks behind the first one for themselves; in blocks the style
decides.

## Main definitions

* `ScalarStyle` — the ways to write a scalar;
* `Gap`, `Gap.fold` — white space inside a scalar, and what it stands for;
* `readQuoted`, `readPlain`, `readBlock` — the scalar at a position, and the position behind it.
-/

namespace UpdatePlanner.Yaml

/-- The ways to write a scalar. -/
inductive ScalarStyle where
  | plain
  | singleQuoted
  | doubleQuoted
  | literal
  | folded
  deriving DecidableEq, Repr

/-- White space inside a scalar. -/
structure Gap where
  broken : Bool
  /-- The blanks, if there is no line break. -/
  blanks : List Char
  firstBreak : List Char
  laterBreaks : List Char

namespace Gap

/-- The gap that has not begun, or that begins with an escaped line break. -/
def start (broken : Bool) : Gap := ⟨broken, [], [], []⟩

/-- What a gap stands for. -/
def fold (g : Gap) : List Char :=
  if !g.broken then g.blanks
  else if g.firstBreak = ['\n'] then (if g.laterBreaks.isEmpty then [' '] else g.laterBreaks)
  else g.firstBreak ++ g.laterBreaks

/-- The gap with one more blank; blanks of later lines do not count. -/
def addBlank (g : Gap) (c : Char) : Gap :=
  if g.broken then g else { g with blanks := g.blanks ++ [c] }

/-- The gap with one more line break. -/
def addBreak (g : Gap) (b : List Char) : Gap :=
  if g.broken then { g with laterBreaks := g.laterBreaks ++ b }
  else ⟨true, [], b, []⟩

end Gap

/-- Reads a gap to its end.  Where an indentation is asked for, no tab may stand in it. -/
def readGap (indent : Option Int) : Nat → Gap → Cursor → Except Fault (Gap × Cursor)
  | 0, g, c => .ok (g, c)
  | fuel + 1, g, c =>
    match c.rest with
    | d :: _ =>
      if isBlank d then
        -- A tab does not tell how far a line is indented.
        if d = '\t' && g.broken && indent.any fun n => (c.column : Int) < n then
          .error .badIndentation
        else
          readGap indent fuel (g.addBlank d) (c.advance 1)
      else if isBreak d then
        let (b, c) := c.takeBreak
        readGap indent fuel (g.addBreak b) c
      else
        .ok (g, c)
    | [] => .ok (g, c)

/-! ## Quoted scalars -/

def hexDigit? (c : Char) : Option Nat :=
  if c.isDigit then some (c.toNat - 48)
  else if 'a' ≤ c && c ≤ 'f' then some (c.toNat - 87)
  else if 'A' ≤ c && c ≤ 'F' then some (c.toNat - 55)
  else none

/-- The character with a code of the given number of hexadecimal digits. -/
def hexChar? (width : Nat) (cs : List Char) : Option Char := do
  let digits ← (cs.take width).mapM hexDigit?
  let code := digits.foldl (fun n d => 16 * n + d) 0
  if digits.length = width && code.isValidChar then some (Char.ofNat code) else none

/-- The characters that a letter behind a backslash stands for. -/
def simpleEscapes : List (Char × Char) :=
  [('0', '\x00'), ('a', '\x07'), ('b', '\x08'), ('t', '\t'), ('\t', '\t'), ('n', '\n'),
    ('v', '\x0b'), ('f', '\x0c'), ('r', '\r'), ('e', '\x1b'), (' ', ' '), ('"', '"'), ('/', '/'),
    ('\\', '\\'), ('N', '\x85'), ('_', '\xa0'), ('L', '\u2028'), ('P', '\u2029')]

/-- The letters behind a backslash that begin a code, with its number of digits. -/
def codeEscapes : List (Char × Nat) :=
  [('x', 2), ('u', 4), ('U', 8)]

/-- What stands behind a backslash: the character it stands for, and its length. -/
def readEscape : List Char → Except Fault (Char × Nat)
  | [] => .error .badEscape
  | d :: cs =>
    match simpleEscapes.lookup d, codeEscapes.lookup d with
    | some e, _ => .ok (e, 1)
    | none, some width =>
      match hexChar? width cs with
      | some e => .ok (e, 1 + width)
      | none => .error .badEscape
    | none, none => .error .badEscape

/-- Reads a word inside quotes: up to a gap, the closing quote or the end.  An escaped line break
ends it too, and is reported. -/
def readQuotedWord (quote : Char) : Nat → Cursor → Except Fault (List Char × Bool × Cursor)
  | 0, c => .ok ([], false, c)
  | fuel + 1, c =>
    match c.rest with
    | [] => .ok ([], false, c)
    | d :: cs =>
      if isGap d then .ok ([], false, c)
      else if d = quote then
        -- Two single quotes stand for one.
        if quote = '\'' && cs.head? = some '\'' then do
          let (word, broken, c) ← readQuotedWord quote fuel (c.advance 2)
          return ('\'' :: word, broken, c)
        else
          .ok ([], false, c)
      else if quote = '"' && d = '\\' then
        if cs.head?.any isBreak then
          .ok ([], true, (c.advance 1).skipBreak)
        else do
          let (e, n) ← readEscape cs
          let (word, broken, c) ← readQuotedWord quote fuel (c.advance (1 + n))
          return (e :: word, broken, c)
      else do
        let (word, broken, c) ← readQuotedWord quote fuel (c.advance 1)
        return (d :: word, broken, c)

/-- Reads the inside of quotes and the closing quote. -/
def readQuotedRest (quote : Char) : Nat → Cursor → Except Fault (List Char × Cursor)
  | 0, _ => .error .unclosedQuote
  | fuel + 1, c =>
    if c.atDocumentMark then .error .documentMarkInside
    else if c.rest.isEmpty then .error .unclosedQuote
    else do
      let (word, broken, c) ← readQuotedWord quote (c.rest.length + 1) c
      if c.peek? 0 = some quote then
        return (word, c.advance 1)
      let (gap, c) ← readGap none (c.rest.length + 1) (.start broken) c
      let (rest, c) ← readQuotedRest quote fuel c
      return (word ++ gap.fold ++ rest, c)

/-- Reads the quoted scalar that begins here. -/
def readQuoted (quote : Char) (c : Cursor) : Except Fault (List Char × Cursor) :=
  readQuotedRest quote (c.rest.length + 1) (c.advance 1)

/-! ## Plain scalars -/

/-- The brackets, braces and the comma, which end a plain scalar inside of brackets. -/
def isFlowIndicator (c : Char) : Bool :=
  c = ',' || c = '[' || c = ']' || c = '\x7b' || c = '\x7d'

/-- Reads a word of a plain scalar.  A colon before a gap ends it, and so do the indicators of a
flow; a colon before one of those is a fault. -/
def readPlainWord (inFlow : Bool) : List Char → Except Fault (List Char)
  | [] => .ok []
  | d :: cs =>
    if isGap d then .ok []
    else if inFlow && d = ':' && cs.head?.any fun e => isFlowIndicator e || e = '?' then
      .error .misplacedIndicator
    else if (d = ':' && endsWord cs.head?) || (inFlow && isFlowIndicator d) then .ok []
    else do
      let word ← readPlainWord inFlow cs
      return d :: word

/-- Reads the words of a plain scalar from a position on, behind a gap: what is added to the
scalar, whether a line break has been passed at its end, and the position behind it. -/
def readPlainRest (inFlow : Bool) (indent : Int) :
    Nat → Gap → Cursor → Except Fault (List Char × Bool × Cursor)
  | 0, gap, c => .ok ([], gap.broken, c)
  | fuel + 1, gap, c =>
    if c.atDocumentMark || c.peek? 0 = some '#' then
      .ok ([], gap.broken, c)
    else do
      let word ← readPlainWord inFlow c.rest
      -- A gap is a part of the scalar only if a word follows it.
      let added := if word.isEmpty then [] else gap.fold ++ word
      let broken := word.isEmpty && gap.broken
      let c := c.advance word.length
      if (c.peek? 0).any isGap then
        let before : Gap := if word.isEmpty then gap else .start false
        let (gap, c) ← readGap (some indent) (c.rest.length + 1) before c
        -- A line with less indentation belongs to an outer block.
        if !inFlow && (c.column : Int) < indent then
          return (added, gap.broken, c)
        let (rest, broken, c) ← readPlainRest inFlow indent fuel gap c
        return (added ++ rest, broken, c)
      else
        return (added, broken, c)

/-- Reads the plain scalar that begins here: the scalar, whether a line break has been passed at
its end, and the position behind it.  Outside of brackets its lines are indented. -/
def readPlain (inFlow : Bool) (indent : Int) (c : Cursor) :
    Except Fault (List Char × Bool × Cursor) :=
  readPlainRest inFlow indent (c.rest.length + 1) (.start false) c

/-! ## Block scalars -/

/-- What happens to the line breaks at the end of a block. -/
inductive Chomping where
  /-- One is kept. -/
  | clip
  /-- None is kept. -/
  | strip
  /-- All are kept. -/
  | keep
  deriving DecidableEq, Repr

/-- The chomping that a character asks for. -/
def chomping? (c : Option Char) : Option Chomping :=
  if c = some '+' then some .keep else if c = some '-' then some .strip else none

/-- The indentation that a character asks for; zero is none. -/
def increment? (c : Option Char) : Except Fault (Option Nat) :=
  match c with
  | some d =>
    if d = '0' then .error .badBlockHeader
    else if d.isDigit then .ok (some (d.toNat - 48))
    else .ok none
  | none => .ok none

/-- Reads the header of a block behind its indicator: chomping and indentation, in any order. -/
def readBlockHeader (c : Cursor) : Except Fault (Chomping × Option Nat × Cursor) :=
  match chomping? (c.peek? 0) with
  | some k => do
    let n ← increment? (c.peek? 1)
    return (k, n, c.advance (if n.isSome then 2 else 1))
  | none => do
    match ← increment? (c.peek? 0) with
    | none => return (.clip, none, c)
    | some n =>
      match chomping? (c.peek? 1) with
      | some k => return (k, some n, c.advance 2)
      | none => return (.clip, some n, c.advance 1)

/-- Reads empty lines: their breaks, and the largest indentation seen.  An indentation of zero is
not known yet, so that any number of spaces is taken. -/
def readEmptyLines (indent : Nat) :
    Nat → Nat → Cursor → Except Fault (List Char × Nat × Cursor)
  | 0, widest, c => .ok ([], widest, c)
  | fuel + 1, widest, c =>
    let spaces := c.rest.takeWhile (· = ' ')
    let taken := if indent = 0 then spaces.length else min spaces.length (indent - c.column)
    let c := c.advance taken
    let widest := max widest c.column
    if (indent = 0 || c.column < indent) && c.peek? 0 = some '\t' then .error .badIndentation
    else if (c.peek? 0).any isBreak then do
      let (b, c) := c.takeBreak
      let (breaks, widest, c) ← readEmptyLines indent fuel widest c
      return (b ++ breaks, widest, c)
    else
      .ok ([], widest, c)

/-- Reads the lines of a block from the first one on: what they add to the scalar, the last line
break, and the breaks of the empty lines behind it.  A folded block joins two lines by a space,
unless an empty line stands between them or one of them is indented further. -/
def readBlockLines (folded : Bool) (indent : Nat) :
    Nat → List Char → List Char → Bool → Cursor →
      Except Fault (List Char × List Char × List Char × Cursor)
  | 0, lastBreak, emptyLines, _, c => .ok ([], lastBreak, emptyLines, c)
  | fuel + 1, lastBreak, emptyLines, wasIndented, c =>
    if c.column = indent && !c.rest.isEmpty then do
      let isIndented := (c.peek? 0).any isBlank
      -- What joins the line to the one before it.
      let joined :=
        if folded && lastBreak.head? = some '\n' && !wasIndented && !isIndented then
          (if emptyLines.isEmpty then [' '] else emptyLines)
        else
          lastBreak ++ emptyLines
      let (line, c) := c.span fun d => !isBreak d
      let (lastBreak, c) := c.takeBreak
      let (emptyLines, _, c) ← readEmptyLines indent (c.rest.length + 1) 0 c
      let (rest, lastBreak, emptyLines, c) ←
        readBlockLines folded indent fuel lastBreak emptyLines isIndented c
      return (joined ++ line ++ rest, lastBreak, emptyLines, c)
    else
      .ok ([], lastBreak, emptyLines, c)

/-- Reads the block scalar that begins here, inside of a given indentation. -/
def readBlock (folded : Bool) (parentIndent : Int) (c : Cursor) :
    Except Fault (List Char × Cursor) := do
  let (chomping, increment, c) ← readBlockHeader (c.advance 1)
  let c := c.skipToLineEnd
  if !endsLine (c.peek? 0) then
    throw .badBlockHeader
  let c := c.skipBreak
  let given := increment.elim 0 fun n => (if parentIndent < 0 then 0 else parentIndent.toNat) + n
  -- Without an indentation in the header the first line that is not empty sets it.
  let (emptyLines, widest, c) ← readEmptyLines given (c.rest.length + 1) 0 c
  let indent := if given = 0 then max widest (max (parentIndent + 1).toNat 1) else given
  let (text, lastBreak, emptyLines, c) ←
    readBlockLines folded indent (c.rest.length + 1) [] emptyLines false c
  return (text ++ (if chomping = .strip then [] else lastBreak) ++
    (if chomping = .keep then emptyLines else []), c)

end UpdatePlanner.Yaml
