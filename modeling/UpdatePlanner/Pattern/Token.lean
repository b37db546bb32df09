import UpdatePlanner.Pattern.Basic

/-!
# What a name pattern is made of

A pattern is a list of tokens.  Its tokens give its shape, and the expression by which a search
looks for it: a regular expression, of which messages show the text and whose nesting is limited.

## Main definitions

* `Pattern.Token` — characters, gaps, classes and choices;
* `Pattern.Branch` — an alternative of a choice;
* `Pattern.shape` — the shape of a list of tokens;
* `Pattern.expression`, `Pattern.nesting` — the text of its expression, and how deep that goes.
-/

namespace UpdatePlanner.Pattern

/-- An alternative of a choice: what it describes, and its expression. -/
structure Branch where
  shape : Shape
  source : String
  depth : Nat
  deriving DecidableEq, Repr

/-- What a pattern is made of. -/
inductive Token where
  | literal (c : Char)
  | any
  | gap
  /-- A doubled star in front of everything: any directories, or none. -/
  | leading
  /-- A doubled star between slashes: the slash alone, or directories between slashes. -/
  | between
  /-- A doubled star behind the last slash: everything inside. -/
  | trailing
  | cls (k : ByteClass)
  | choice (alternatives : List Branch)
  deriving DecidableEq, Repr

namespace Token

/-! ## Shapes -/

def slash : Shape := .byte (.only 0x2F)

/-- A character, byte by byte. -/
def character (c : Char) : Shape :=
  Shape.sequence ((String.utf8EncodeChar c).map fun b => .byte (.only b))

/-- The shape of a token; a choice without alternatives has none. -/
def shape? : Token → Option Shape
  | literal c => some (character c)
  | any => some (.byte .all)
  | gap => some .gap
  | leading => some (Shape.choice .empty [slash, .seq .gap slash])
  | between => some (Shape.choice slash [.seq (.seq slash .gap) slash])
  | trailing => some (.seq slash .gap)
  | cls k => some (.byte k)
  | choice [] => none
  | choice (b :: bs) => some (Shape.choice b.shape (bs.map Branch.shape))

/-! ## Expressions -/

/-- The characters that mean something in an expression. -/
def isMeta (c : Char) : Bool :=
  "\\.+*?()|[]\x7b\x7d^$#&-~".toList.contains c

/-- A byte in an expression: as its character in ASCII, and by its code elsewhere. -/
def escapeByte (b : UInt8) : String :=
  let c := Char.ofNat b.toNat
  if b < 0x80 then (if isMeta c then "\\" else "") ++ c.toString
  else "\\x" ++ String.ofList (Nat.toDigits 16 b.toNat)

/-- A class in an expression. -/
def classSource (k : ByteClass) : String :=
  let span (s : UInt8 × UInt8) : String :=
    if s.1 = s.2 then escapeByte s.1 else escapeByte s.1 ++ "-" ++ escapeByte s.2
  "[" ++ (if k.negated then "^" else "") ++ String.join (k.spans.map span) ++ "]"

/-- The text that a token contributes to an expression. -/
def source : Token → String
  | literal c => String.join ((String.utf8EncodeChar c).map escapeByte)
  | any => "."
  | gap => ".*"
  | leading => "(?:/?|.*/)"
  | between => "(?:/|/.*/)"
  | trailing => "/.*"
  | cls k => classSource k
  | choice [] => ""
  | choice bs => "(?:" ++ "|".intercalate (bs.map Branch.source) ++ ")"

/-- The number of parts that a token contributes to an expression. -/
def width : Token → Nat
  | literal c => (String.utf8EncodeChar c).length
  | trailing => 2
  | choice [] => 0
  | any | gap | leading | between | cls _ | choice (_ :: _) => 1

/-- How deep the parts of a token go.  A repetition, a group, an alternation, a sequence and a
class count as one level each, and so do the members of a class if there are several. -/
def depth : Token → Nat
  | literal _ | any => 0
  | gap | trailing => 1
  | leading | between => 4
  | cls k => if k.spans.length ≤ 1 then 1 else 2
  | choice [] => 0
  | choice [b] => b.depth + 1
  | choice bs => (bs.map Branch.depth).foldl max 0 + 2

end Token

def source (tokens : List Token) : String :=
  String.join (tokens.map Token.source)

def depth (tokens : List Token) : Nat :=
  (tokens.map Token.depth).foldl max 0

/-- A branch of the given tokens, if they have any shape.  It is a sequence unless it has one
part only. -/
def branch? (tokens : List Token) : Option Branch :=
  match tokens.filterMap Token.shape? with
  | [] => none
  | s :: ss =>
    let width := tokens.foldl (fun n t => n + t.width) 0
    some ⟨Shape.sequence (s :: ss), source tokens,
      if width ≤ 1 then depth tokens else depth tokens + 1⟩

/-- The shape of a pattern.  A doubled star alone matches everything. -/
def shape (tokens : List Token) : Shape :=
  if tokens = [.leading] then .gap else ((branch? tokens).map Branch.shape).getD .empty

/-- The text of the expression by which a pattern is searched for. -/
def expression (tokens : List Token) : String :=
  "(?-u)^" ++ (if tokens = [.leading] then ".*" else source tokens) ++ "$"

/-- How deep the expression goes: its parts stand between the marks for the two ends. -/
def nesting (tokens : List Token) : Nat :=
  depth tokens + 1

/-- How deep an expression may go. -/
def nestingLimit : Nat := 250

end UpdatePlanner.Pattern
