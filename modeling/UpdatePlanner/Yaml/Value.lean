import UpdatePlanner.Data.Readable
import UpdatePlanner.Yaml.Node
import UpdatePlanner.Yaml.Schema

/-!
# Reading values from YAML

Where a text is asked for, every scalar is one, just as it is written.  Where the form of a value
is to show its type, a plain scalar may be something else, and a tag decides before the form.  An
empty plain scalar stands for an empty list or record.

A few lines of text can stand for a huge tree, since aliases may be followed again and again, and
even for an endless one.  So there are two bounds.  Sequences and mappings can be entered up to a
fixed depth, and while a document is read, aliases may be followed a hundred times for each part
of it.  What nobody asks for is passed over, and counts for neither.

## Main definitions

* `Reading` — readings that keep count of the aliases;
* `Document.typed` — a node with the type that its form shows;
* `Place` — a node with its document and the depth that is left;
* `Readable Place` — how nodes are read;
* `Document.value?` — what is read from the root of a document.
-/

namespace UpdatePlanner.Yaml

namespace ScalarKind

/-- A whole number that a text denotes, as a datum.  There are 64 bits for it. -/
def whole64? (text : String) : Option Datum :=
  let cs := text.toList
  if isWholeIn 64 cs then
    match whole? cs with
    | some (false, n) => some (.whole n)
    | _ => some .number
  else
    none

/-- What a plain scalar without a tag denotes. -/
def datum? (text : String) : Option Datum :=
  match ofText text with
  | .null => some .null
  | .bool b => some (.bool b)
  | .number => if isWhole text.toList then whole64? text else some .number
  | .text => some (.text text)

/-- What a scalar denotes, if its tag allows it.  A tag that names no common type makes it a
text. -/
def taggedDatum? (tag : Option Tag) (style : ScalarStyle) (text : String) : Option Datum :=
  match tag with
  | none => if style = .plain then datum? text else some (.text text)
  | some t =>
    if t.localName?.isSome then none
    else if t = .core "bool" then (bool? text).map .bool
    else if t = .core "int" then whole64? text
    else if t = .core "float" then
      if isFractional text.toList then some .number else none
    else if t = .core "null" then
      if isNullWord text then some .null else none
    else if t.bytes.head? = some '!'.toUInt8 && style = .plain then datum? text
    else some (.text text)

end ScalarKind

/-- A reading of a part of a document.  It may fail, and keeps count of the aliases that may still
be followed. -/
abbrev Reading := StateT Nat Option

/-- The node itself, or the one that an alias stands for. -/
def Document.resolve (d : Document) : Node → Reading Node
  | .reference number => do
    match ← get, d.anchors.lookup number with
    | left + 1, some node => do set left; return node
    | _, _ => Fallible.fail
  | node => return node

/-- Whether the text of a scalar is one of the empty ones. -/
def isEmptyPlain (style : ScalarStyle) (text : String) : Bool :=
  style = .plain && text.isEmpty

/-- Whether a scalar is written like nothing. -/
def isPlainNull (style : ScalarStyle) (text : String) : Bool :=
  style = .plain && (text.isEmpty || ScalarKind.isNullWord text)

/-- Whether a tag is one of the document's own. -/
def isLocal (tag : Option Tag) : Bool :=
  (tag.bind Tag.localName?).isSome

/-- A node with the type that its form shows, if no more than the given number of sequences and
mappings are entered, one inside of the other. -/
def Document.typed (d : Document) : Nat → Node → Reading Datum
  | 0, node => do
    match ← d.resolve node with
    | .scalar tag style text => ScalarKind.taggedDatum? tag style text
    | _ => Fallible.fail
  | depth + 1, node => do
    match ← d.resolve node with
    | .scalar tag style text => ScalarKind.taggedDatum? tag style text
    | .sequence tag items =>
      if isLocal tag then Fallible.fail
      return .list (← items.mapM (d.typed depth))
    | .mapping tag pairs =>
      if isLocal tag then Fallible.fail
      return .mapping (← pairs.mapM fun (k, v) => do
        return (← d.typed depth k, ← d.typed depth v))
    | .reference _ => Fallible.fail

/-- A place in a document. -/
structure Place where
  document : Document
  node : Node
  /-- The number of sequences and mappings that may still be entered, one inside of the other. -/
  depth : Nat

namespace Place

/-- The place itself, or the one that an alias stands for. -/
def resolve (p : Place) : Reading Place :=
  return { p with node := ← p.document.resolve p.node }

/-- Enters the sequence or mapping here: the places of its parts. -/
def enter (p : Place) : Reading (Node → Place) :=
  match p.depth with
  | 0 => Fallible.fail
  | depth + 1 => return fun node => { p with node, depth }

def text (p : Place) : Reading String := do
  match (← p.resolve).node with
  | .scalar _ _ text => return text
  | _ => Fallible.fail

/-- The word that a scalar or a tag gives.  Beside a tag there must be nothing. -/
def word (p : Place) : Reading String := do
  match (← p.resolve).node with
  | .scalar tag style text =>
    match tag.bind Tag.localName? with
    -- The tag is the word, as in `!name`.
    | some name => if isPlainNull style text then return name else Fallible.fail
    | none => return text
  | _ => Fallible.fail

def flag (p : Place) : Reading Bool := do
  match (← p.resolve).node with
  | .scalar tag style text =>
    if style = .plain || (style = .literal && tag = some (.core "bool")) then
      ScalarKind.bool? text
    else
      Fallible.fail
  | _ => Fallible.fail

def items (p : Place) : Reading (List Place) := do
  let p ← p.resolve
  match p.node with
  | .sequence _ items => return items.map (← p.enter)
  | .scalar _ style text => if isEmptyPlain style text then return [] else Fallible.fail
  | _ => Fallible.fail

/-- The pairs of a mapping whose keys are scalars. -/
def entries (p : Place) : Reading (List (String × Place)) := do
  let p ← p.resolve
  match p.node with
  | .mapping _ pairs =>
    let inside ← p.enter
    pairs.mapM fun (k, v) => return (← (inside k).text, inside v)
  | .scalar _ style text => if isEmptyPlain style text then return [] else Fallible.fail
  | _ => Fallible.fail

/-- The place, or nothing where a plain scalar stands for nothing.  A tag other than that of
nothing makes it something. -/
def present (p : Place) : Reading (Option Place) := do
  let p ← p.resolve
  match p.node with
  | .scalar tag style text =>
    if style = .plain && tag = some (.core "null") then
      if ScalarKind.isNullWord text then return none else Fallible.fail
    return if tag.isNone && isPlainNull style text then none else some p
  | _ => return some p

/-- The node here with the type that its form shows. -/
def typed (p : Place) : Reading Datum :=
  p.document.typed p.depth p.node

end Place

instance : Readable Place Reading where
  text := Place.text
  word := Place.word
  flag := Place.flag
  items := Place.items
  present := Place.present
  record _ := Place.entries
  entries := Place.entries
  typed := Place.typed

namespace Document

/-- How deep the parts of a document that are read may lie. -/
def depthLimit : Nat := 128

/-- How often aliases may be followed while a document is read. -/
def aliasLimit (d : Document) : Nat :=
  100 * d.root.weight

/-- What is read from the root of a document. -/
def value? {α : Type} (d : Document) (read : Place → Reading α) : Option α :=
  (read ⟨d, d.root, depthLimit⟩).run' d.aliasLimit

end Document

end UpdatePlanner.Yaml
