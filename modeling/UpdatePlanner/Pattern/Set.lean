import UpdatePlanner.Pattern.Reader

/-!
# Sets of name patterns

A set looks a name up among its patterns where comparing parts of the name is enough, and
searches the name for the others.  To look up the last component of a name, or its extension, is
to have one: a name has none if it ends in the component `..`.  So a pattern that is looked up by
these never matches such a name, whatever it covers.

## Main definitions

* `Lookup` — how a set finds out whether a name matches a pattern;
* `Lookup.ofTokens` — by the tokens of the pattern;
* `PatternSet` — several patterns, of which one has to match;
* `PatternSet.read?` — the set of the patterns that texts denote.
-/

namespace UpdatePlanner

open Pattern

/-- How a set finds out whether a name matches a pattern. -/
inductive Lookup where
  /-- By comparing the name with a text, or its beginning or end. -/
  | compared
  /-- By comparing its last component with a text, or the end of that from the last dot on. -/
  | component
  /-- By searching names whose last component has a given extension. -/
  | filtered (extension : List Char)
  | searched
  deriving DecidableEq, Repr

namespace Lookup

/-- The text of tokens that are all characters. -/
def literalText? (tokens : List Token) : Option (List Char) :=
  tokens.mapM fun
    | .literal c => some c
    | _ => none

/-- Whether the tokens are characters, none of which is among the given ones. -/
def isTextWithout (excluded : List Char) (tokens : List Token) : Bool :=
  (literalText? tokens).any fun cs => cs.all fun c => !excluded.contains c

/-- Whether the pattern gives the last component of a name, after any directories. -/
def isLastComponent : List Token → Bool
  | .leading :: t :: ts => isTextWithout ['/'] (t :: ts)
  | _ => false

/-- Whether the pattern gives the whole of a name. -/
def isWhole (tokens : List Token) : Bool :=
  !tokens.isEmpty && (literalText? tokens).isSome

/-- Whether the pattern gives the extension of a name and nothing else. -/
def isExtension : List Token → Bool
  | .leading :: .gap :: .literal '.' :: ts => isTextWithout ['.', '/'] ts
  | .gap :: .literal '.' :: ts => isTextWithout ['.', '/'] ts
  | _ => false

/-- Whether the pattern gives the beginning of a name. -/
def isBeginning (tokens : List Token) : Bool :=
  match tokens.reverse with
  | .gap :: ts => isWhole ts
  | .trailing :: ts => (literalText? ts).isSome
  | _ => false

/-- Whether the pattern gives the end of a name, in whole components or not. -/
def isEnd : List Token → Bool
  | .leading :: .gap :: ts => isText ts
  | .leading :: ts => !ts.isEmpty && (literalText? ts).isSome
  | .gap :: ts => isText ts
  | _ => false
where
  /-- Whether the tokens are characters, and more than a slash. -/
  isText (ts : List Token) : Bool :=
    ts ≠ [.literal '/'] && isWhole ts

/-- The extension that a pattern ends in: the characters behind its last dot, if no slash and
nothing but characters comes after that.  They are read from the end, and `read` holds those that
have been. -/
def extension? (read : List Char) : List Token → Option (List Char)
  | .literal c :: ts =>
    if c = '/' then none
    else if c = '.' then some read
    else extension? (c :: read) ts
  | _ => none

/-- How a set looks for a pattern of the given tokens. -/
def ofTokens (tokens : List Token) : Lookup :=
  if isLastComponent tokens then component
  else if isWhole tokens then compared
  else if isExtension tokens then component
  else if isBeginning tokens || isEnd tokens then compared
  else (extension? [] tokens.reverse).elim searched filtered

/-- Whether only names with a last component can match. -/
def needsComponent : Lookup → Bool
  | component | filtered _ => true
  | compared | searched => false

end Lookup

/-- Whether the last component of a name is `..`, which is none. -/
def endsInParent (name : String) : Bool :=
  match name.toList.reverse with
  | '.' :: '.' :: before => before.head?.all (· = '/')
  | _ => false

/-- A pattern of a set, and how it is looked for. -/
structure SetMember where
  pattern : NamePattern
  lookup : Lookup
  deriving DecidableEq, Repr

/-- Whether a name is found to match. -/
def SetMember.accepts (m : SetMember) (name : String) : Bool :=
  !(m.lookup.needsComponent && endsInParent name) && m.pattern.accepts name

/-- Several patterns, of which one has to match. -/
structure PatternSet where
  members : List SetMember
  deriving DecidableEq, Repr

namespace PatternSet

def empty : PatternSet := ⟨[]⟩

/-- The tokens of several patterns; the first faulty text is reported. -/
def readAll? (texts : List String) : Except PolicyFailure (List (String × List Token)) :=
  texts.mapM fun text =>
    match Pattern.read? text with
    | .ok tokens => .ok (text, tokens)
    | .error fault => .error (.invalidPattern text fault.message)

/-- Whether the expression of a pattern goes too deep to be searched for. -/
def isTooDeep (tokens : List Token) : Bool :=
  decide (nestingLimit < nesting tokens)

/-- The expressions that a name is searched for after a look at its extension, one by one. -/
def filteredTokens (patterns : List (List Token)) : List (List Token) :=
  patterns.filter fun ts => match Lookup.ofTokens ts with
    | .filtered _ => true
    | _ => false

/-- The expressions that a name is searched for together. -/
def searchedTokens (patterns : List (List Token)) : List (List Token) :=
  patterns.filter fun ts => Lookup.ofTokens ts = .searched

/-- What is reported where the expression with a number cannot be searched for. -/
def searchFault (expression : String) (number : Nat) : PolicyFailure :=
  .invalidPattern expression ("error parsing pattern " ++ toString number)

/-- The fault of a set some expression of which goes too deep.  One that is searched for by
itself is reported first, and shown; of those that are searched for together, the first is
reported by its number. -/
def searchFault? (patterns : List (List Token)) : Option PolicyFailure :=
  match (filteredTokens patterns).find? isTooDeep with
  | some tokens => some (searchFault (expression tokens) 0)
  | none =>
    ((searchedTokens patterns).findIdx? isTooDeep).map (searchFault "")

/-- The set of the patterns that the texts denote. -/
def read? (texts : List String) : Except PolicyFailure PatternSet :=
  match readAll? texts with
  | .error fault => .error fault
  | .ok patterns =>
    match searchFault? (patterns.map Prod.snd) with
    | some fault => .error fault
    | none => .ok ⟨patterns.map fun (text, tokens) => ⟨⟨text, shape tokens⟩, .ofTokens tokens⟩⟩

/-- Whether the set finds some pattern for the name. -/
def accepts (s : PatternSet) (name : String) : Bool :=
  s.members.any fun m => m.accepts name

end PatternSet

end UpdatePlanner
