import UpdatePlanner.Yaml.Token

/-!
# YAML nodes

A document is a tree of nodes: scalars, sequences and mappings, and aliases for nodes.  A node that
aliases can stand for has an anchor.  Aliases and anchors are matched by number: the number of an
anchor is how many names there are before it, and an alias has the number of the anchor that bears
its name last.  So an anchor whose name is used again shares the number of the next new name.  Among
the anchors of a number the last one counts, for the aliases in front of it as well.

## Main definitions

* `Node` — the nodes;
* `Document` — a tree with what its aliases stand for;
* `Document.ofTokens?` — the one document that tokens hold.
-/

namespace UpdatePlanner.Yaml

/-- A part of a document. -/
inductive Node where
  | scalar (tag : Option Tag) (style : ScalarStyle) (text : String)
  | sequence (tag : Option Tag) (items : List Node)
  | mapping (tag : Option Tag) (pairs : List (Node × Node))
  /-- An alias: it refers to the node of an anchor, which it may itself be a part of. -/
  | reference (number : Nat)
  deriving Repr

namespace Node

/-- The scalar that stands where nothing is written. -/
def nothing (tag : Option Tag) : Node :=
  .scalar tag .plain ""

mutual

/-- The number of scalars, aliases, beginnings and ends in a node. -/
def weight : Node → Nat
  | scalar .. | reference _ => 1
  | sequence _ items => 2 + itemsWeight items
  | mapping _ pairs => 2 + pairsWeight pairs

/-- The number of scalars, aliases, beginnings and ends in several nodes. -/
def itemsWeight : List Node → Nat
  | [] => 0
  | n :: ns => n.weight + itemsWeight ns

/-- The number of scalars, aliases, beginnings and ends in the pairs of a mapping. -/
def pairsWeight : List (Node × Node) → Nat
  | [] => 0
  | (k, v) :: ps => k.weight + v.weight + pairsWeight ps

end

/-- A place that aliases can stand for. -/
structure Anchor where
  name : String
  number : Nat
  /-- The node at the place, once it is finished. -/
  node : Option Node

/-- What is known while tokens are made into nodes. -/
structure Progress where
  tokens : List Token
  anchors : List Anchor
  names : List String
  handles : List (String × List UInt8)

def Progress.start (tokens : List Token) (handles : List (String × List UInt8)) : Progress :=
  ⟨tokens, [], [], handles⟩

/-- A step that takes tokens and gives a part of a node. -/
abbrev Build := StateT Progress (Except Fault)

def next? : Build (Option Token) :=
  return (← get).tokens.head?

def drop : Build Unit :=
  modify fun p => { p with tokens := p.tokens.tail }

/-- Whether the next token is one of the given ones. -/
def nextIsOneOf (ts : List Token) : Build Bool :=
  return (← next?).any ts.contains

/-- Takes the next token if it is the given one, and says whether it is. -/
def accept (t : Token) : Build Bool := do
  if ← nextIsOneOf [t] then
    drop
    return true
  return false

/-- Takes the next token, which has to be the given one. -/
def expect (t : Token) : Build Unit := do
  if !(← accept t) then
    throw .unexpectedToken

/-- The tag with a handle and a suffix. -/
def resolveTag (handle : String) (suffix : List UInt8) : Build Tag := do
  if handle = "" then
    return ⟨suffix⟩
  match (← get).handles.lookup handle with
  | some expansion => return ⟨expansion ++ suffix⟩
  | none => throw .badTag

/-- Takes the anchor and the tag of a node, in either order. -/
def properties : Build (Option String × Option Tag) := do
  let anchor ← takeAnchor
  let tag ← takeTag
  match anchor with
  | some _ => return (anchor, tag)
  | none => return (← if tag.isSome then takeAnchor else pure none, tag)
where
  takeAnchor : Build (Option String) := do
    match ← next? with
    | some (.anchor name) => drop; return some name
    | _ => return none
  takeTag : Build (Option Tag) := do
    match ← next? with
    | some (.tag handle suffix) => drop; return some (← resolveTag handle suffix)
    | _ => return none

/-- Runs a step that gives the node of an anchor.  The anchor is known inside of the node. -/
def anchored (name : Option String) (step : Build Node) : Build Node := do
  match name with
  | none => step
  | some name =>
    let before := (← get).anchors.length
    modify fun p => { p with
      anchors := ⟨name, p.names.length, none⟩ :: p.anchors, names := p.names.insert name }
    let node ← step
    -- The step may have put other anchors in front of this one.
    modify fun p =>
      let place := p.anchors.length - 1 - before
      { p with anchors := p.anchors.modify place fun a => { a with node := some node } }
    return node

/-- The alias for the anchor that bears a name last. -/
def referenceTo (name : String) : Build Node := do
  match (← get).anchors.find? fun a => a.name == name with
  | some a => return .reference a.number
  | none => throw .unknownAlias

mutual

/-- Takes a node.  Block collections may stand only where blocks may, and entries without an
indentation of their own only below a key. -/
def node (inBlock belowKey : Bool) : Nat → Build Node
  | 0 => throw .unexpectedToken
  | fuel + 1 => do
    match ← next? with
    | some (.reference name) => drop; referenceTo name
    | _ =>
      let (anchor, tag) ← properties
      anchored anchor do
        match ← next? with
        | some (.scalar text style) => drop; return .scalar tag style text
        | some .flowSequence => drop; return .sequence tag (← flowItems true fuel)
        | some .flowMapping => drop; return .mapping tag (← flowPairs true fuel)
        | some .blockSequence =>
          if !inBlock then throw .unexpectedToken
          drop
          return .sequence tag (← blockItems fuel)
        | some .blockMapping =>
          if !inBlock then throw .unexpectedToken
          drop
          return .mapping tag (← blockPairs fuel)
        | some .entry =>
          if belowKey then return .sequence tag (← plainItems fuel)
          else orNothing anchor tag
        | _ => orNothing anchor tag

/-- Takes a node, or nothing where one of the given tokens is next or the tokens end. -/
def nodeUnless (stops : List Token) (inBlock belowKey : Bool) : Nat → Build Node
  | 0 => throw .unexpectedToken
  | fuel + 1 => do
    if ← nextIsOneOf stops then return .nothing none
    else node inBlock belowKey fuel

/-- Takes the entries of a block sequence and its end. -/
def blockItems : Nat → Build (List Node)
  | 0 => throw .unexpectedToken
  | fuel + 1 => do
    if ← accept .blockEnd then return []
    expect .entry
    let item ← nodeUnless [.entry, .blockEnd] true false fuel
    return item :: (← blockItems fuel)

/-- Takes the entries of a sequence without an indentation of its own. -/
def plainItems : Nat → Build (List Node)
  | 0 => throw .unexpectedToken
  | fuel + 1 => do
    if !(← accept .entry) then return []
    let item ← nodeUnless [.entry, .key, .value, .blockEnd] true false fuel
    return item :: (← plainItems fuel)

/-- Takes the pairs of a block mapping and its end. -/
def blockPairs : Nat → Build (List (Node × Node))
  | 0 => throw .unexpectedToken
  | fuel + 1 => do
    if ← accept .blockEnd then return []
    expect .key
    let key ← nodeUnless [.key, .value, .blockEnd] true true fuel
    let value ←
      if ← accept .value then nodeUnless [.key, .value, .blockEnd] true true fuel
      else pure (.nothing none)
    return (key, value) :: (← blockPairs fuel)

/-- Takes the entries of a flow sequence and its end.  An entry may be a mapping of one pair. -/
def flowItems (first : Bool) : Nat → Build (List Node)
  | 0 => throw .unexpectedToken
  | fuel + 1 => do
    if ← accept .flowSequenceEnd then return []
    if !first then
      expect .comma
      -- A comma may stand behind the last entry.
      if ← accept .flowSequenceEnd then return []
    let item ←
      if ← accept .key then singlePair fuel
      else node false false fuel
    return item :: (← flowItems false fuel)

/-- Takes a mapping of one pair from behind the mark of its key. -/
def singlePair : Nat → Build Node
  | 0 => throw .unexpectedToken
  | fuel + 1 => do
    let key ←
      if ← nextIsOneOf [.value, .comma, .flowSequenceEnd] then
        drop
        pure (.nothing none)
      else
        node false false fuel
    let value ←
      if ← accept .value then nodeUnless [.comma, .flowSequenceEnd] false false fuel
      else pure (.nothing none)
    return .mapping none [(key, value)]

/-- Takes the pairs of a flow mapping and its end. -/
def flowPairs (first : Bool) : Nat → Build (List (Node × Node))
  | 0 => throw .unexpectedToken
  | fuel + 1 => do
    if ← accept .flowMappingEnd then return []
    if !first then
      expect .comma
      if ← accept .flowMappingEnd then return []
    let pair ←
      if ← accept .key then do
        let key ← nodeUnless [.value, .comma, .flowMappingEnd] false false fuel
        let value ←
          if ← accept .value then nodeUnless [.comma, .flowMappingEnd] false false fuel
          else pure (.nothing none)
        pure (key, value)
      else do
        let key ← node false false fuel
        pure (key, .nothing none)
    return pair :: (← flowPairs false fuel)

/-- An empty node, which needs an anchor or a tag to be one. -/
def orNothing (anchor : Option String) (tag : Option Tag) : Build Node :=
  if anchor.isSome || tag.isSome then return .nothing tag
  else throw .unexpectedToken

end

end Node

/-- A tree of nodes, with what its aliases stand for. -/
structure Document where
  root : Node
  /-- The nodes that aliases stand for, by number. -/
  anchors : List (Nat × Node)

namespace Document

open Node

/-- What the tag handles stand for that every document has. -/
def defaultHandles : List (String × List UInt8) :=
  [("!", ['!'.toUInt8]), ("!!", (Tag.core "").bytes)]

/-- Takes the directives in front of a document; the second value says whether there is a
version. -/
def directives (versioned : Bool) (handles : List (String × List UInt8)) :
    List Token → Except Fault (List (String × List UInt8) × List Token)
  | .version major minor :: ts =>
    if versioned || major ≠ 1 || (minor ≠ 1 && minor ≠ 2) then .error .badDirective
    else directives true handles ts
  | .handle name expansion :: ts =>
    if (handles.lookup name).isSome then .error .badDirective
    else directives versioned ((name, expansion) :: handles) ts
  | ts => .ok (handles, ts)

/-- Takes the root of the one document of a text. -/
def takeRoot (fuel : Nat) : Build Node := do
  let root ← nodeOrEmpty [.documentStart, .documentEnd]
  let rest := (← get).tokens.dropWhile (· = .documentEnd)
  if rest.isEmpty then return root
  else throw .severalDocuments
where
  nodeOrEmpty (stops : List Token) : Build Node := do
    match ← next? with
    | none => return .nothing none
    | some t => if stops.contains t then return .nothing none else node true false fuel

/-- The document with a root that has been taken.  Of the anchors with one number the last is found
first. -/
def ofProgress (root : Node) (p : Progress) : Document :=
  ⟨root, p.anchors.filterMap fun a => a.node.map fun node => (a.number, node)⟩

/-- The one document that tokens hold.  Without tokens it is empty. -/
def ofTokens? (tokens : List Token) : Except Fault Document := do
  let (handles, rest) ← directives false [] tokens
  -- Behind directives the beginning of the document has to be marked.
  let rest ← match rest with
    | [] => if tokens.isEmpty then pure [] else throw .badDirective
    | .documentStart :: rest => pure rest
    | .documentEnd :: _ => throw .unexpectedToken
    | rest => if rest.length = tokens.length then pure rest else throw .badDirective
  let (root, p) ← (takeRoot (4 * tokens.length + 4)).run (.start rest (handles ++ defaultHandles))
  return ofProgress root p

/-- The one document that a text holds. -/
def read? (text : String) : Except Fault Document := do
  ofTokens? (← Token.read? text.toList)

end Document

end UpdatePlanner.Yaml
