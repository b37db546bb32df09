import UpdatePlanner.Pattern.Token
import UpdatePlanner.Failure

/-!
# Reading name patterns

`*` is a gap and `?` a byte; `[…]` is a class, `{…,…}` a choice, and a backslash makes the next
character literal.  A doubled star stands for whole path components where slashes enclose it, and
for a gap elsewhere.  A gap crosses slashes.

## Main definitions

* `PatternFault` — why a text is no pattern;
* `NamePattern` — a pattern as written, and its shape;
* `Pattern.read?` — the tokens of a text;
* `NamePattern.read?` — the pattern that a text denotes.
-/

namespace UpdatePlanner

/-- Why a text is no pattern. -/
inductive PatternFault where
  | unclosedClass
  | invalidSpan (first last : Char)
  | unopenedChoice
  | unclosedChoice
  | danglingEscape
  deriving DecidableEq, Repr

def PatternFault.message : PatternFault → String
  | unclosedClass => "unclosed character class; missing ']'"
  | invalidSpan first last =>
    "invalid range; '" ++ first.toString ++ "' > '" ++ last.toString ++ "'"
  | unopenedChoice =>
    "unopened alternate group; missing '\x7b' (maybe escape '\x7d' with '[\x7d]'?)"
  | unclosedChoice =>
    "unclosed alternate group; missing '\x7d' (maybe escape '\x7b' with '[\x7b]'?)"
  | danglingEscape => "dangling '\\'"

namespace Pattern

/-- The bytes that a span of characters stands for.  The span runs from the last byte of its
first character to the first byte of its last one; their other bytes are members by themselves. -/
def spanBytes (first last : Char) : List (UInt8 × UInt8) :=
  let single (b : UInt8) := (b, b)
  let xs := String.utf8EncodeChar first
  let ys := String.utf8EncodeChar last
  if first = last then
    xs.map single
  else
    xs.dropLast.map single ++ (xs.drop (xs.length - 1)).zip (ys.take 1) ++ ys.tail.map single

/-- The members of a class up to its closing bracket, last first, and what stands behind it.
`first` says that no member was read yet, so that a closing bracket or a dash is one; `dashed`
that a dash waits for the end of the span that the last member begins. -/
def readMembers (first dashed : Bool) (members : List (Char × Char)) :
    List Char → Except PatternFault (List (Char × Char) × List Char)
  | [] => .error .unclosedClass
  | c :: cs =>
    if c = ']' && !first then
      .ok (if dashed then ('-', '-') :: members else members, cs)
    else if c = '-' && !first && !dashed then
      readMembers false true members cs
    else
      match dashed, members with
      -- The span that the last member begins ends here.
      | true, (low, _) :: members =>
        if c < low then .error (.invalidSpan low c)
        else readMembers false false ((low, c) :: members) cs
      | _, members => readMembers false false ((c, c) :: members) cs

theorem length_readMembers {first dashed : Bool} {members ms : List (Char × Char)}
    {cs rest : List Char} (h : readMembers first dashed members cs = .ok (ms, rest)) :
    rest.length < cs.length := by
  fun_induction readMembers first dashed members cs with
  | case1 => simp at h
  | case2 =>
    simp only [Except.ok.injEq, Prod.mk.injEq] at h
    simp [← h.2]
  | case3 _ _ _ _ _ _ _ ih => exact Nat.lt_succ_of_lt (ih h)
  | case4 => simp at h
  | case5 _ _ _ _ _ _ _ _ _ ih => exact Nat.lt_succ_of_lt (ih h)
  | case6 _ _ _ _ _ _ _ _ ih => exact Nat.lt_succ_of_lt (ih h)

/-- A class, from behind its opening bracket: its bytes and what stands behind it. -/
def readClass (cs : List Char) : Except PatternFault (ByteClass × List Char) :=
  let negated := cs.head?.any fun c => c = '!' || c = '^'
  match readMembers true false [] (if negated then cs.tail else cs) with
  | .error fault => .error fault
  | .ok (members, rest) =>
    .ok (⟨negated, members.reverse.flatMap fun (first, last) => spanBytes first last⟩, rest)

theorem length_readClass {cs rest : List Char} {k : ByteClass}
    (h : readClass cs = .ok (k, rest)) : rest.length < cs.length := by
  simp only [readClass] at h
  split at h
  · simp at h
  · next members r hm =>
    simp only [Except.ok.injEq, Prod.mk.injEq] at h
    have := length_readMembers hm
    rw [← h.2]
    split at this
    · exact Nat.lt_of_lt_of_le this (by simp)
    · exact this

/-- A pattern that has been read in part. -/
structure Draft where
  branch : List Token
  finished : List (List Token)
  /-- The branches that the open choices stand in, innermost first, with the finished
  alternatives beside each of them. -/
  outer : List (List Token × List (List Token))

namespace Draft

def start : Draft := ⟨[], [], []⟩

def push (d : Draft) (t : Token) : Draft :=
  { d with branch := t :: d.branch }

def inChoice (d : Draft) : Bool :=
  !d.outer.isEmpty

def openChoice (d : Draft) : Draft :=
  ⟨[], [], (d.branch, d.finished) :: d.outer⟩

/-- Ends an alternative and begins the next one. -/
def nextAlternative (d : Draft) : Draft :=
  ⟨[], d.branch :: d.finished, d.outer⟩

/-- Closes the innermost choice. -/
def closeChoice (d : Draft) : Except PatternFault Draft :=
  match d.outer with
  | [] => .error .unopenedChoice
  | (branch, finished) :: outer =>
    let alternatives := (d.branch :: d.finished).reverse.filterMap fun b => branch? b.reverse
    .ok ⟨.choice alternatives :: branch, finished, outer⟩

/-- Puts a doubled star in place of the slash before it; behind another doubled star at the
beginning or the end it adds nothing. -/
def enclose (d : Draft) (t : Token) : Draft :=
  match d.branch with
  | .leading :: _ => d
  | .trailing :: _ => d
  | _ :: branch => { d with branch := t :: branch }
  | [] => d.push t

/-- A doubled star that stands for a gap. -/
def pushGaps (d : Draft) : Draft :=
  (d.push .gap).push .gap

/-- Reads a doubled star: the draft with it, and whether the slash behind it belongs to it.
`before` and `after` are the characters around it. -/
def doubleStar (d : Draft) (before after : Option Char) : Draft × Bool :=
  -- Only between separators, or at an end, does a doubled star take whole directories.
  if d.branch.isEmpty then
    match after with
    | none => (d.push .leading, false)
    | some '/' => (d.push .leading, true)
    | some _ => (d.pushGaps, false)
  else if before = some '/' || (d.inChoice && (before = some ',' || before = some '\x7b')) then
    match after with
    | none => (d.enclose .trailing, false)
    | some '/' => (d.enclose .between, true)
    | some c =>
      if d.inChoice && (c = ',' || c = '\x7d') then (d.enclose .trailing, false)
      else (d.pushGaps, false)
  else
    (d.pushGaps, false)

end Draft

/-- Reads a pattern to its end.  `before` is the character in front of it. -/
def readTokens (before : Option Char) (d : Draft) : List Char → Except PatternFault Draft
  | [] => .ok d
  | '*' :: '*' :: cs =>
    match d.doubleStar before cs.head? with
    -- The slash behind the star has been taken with it.
    | (d, true) => readTokens (some '/') d cs.tail
    | (d, false) => readTokens (some '*') d cs
  | '\\' :: [] => .error .danglingEscape
  | '\\' :: c :: cs => readTokens (some c) (d.push (.literal c)) cs
  | '[' :: cs =>
    match _h : readClass cs with
    | .error fault => .error fault
    | .ok (k, rest) => readTokens (some ']') (d.push (.cls k)) rest
  | '\x7d' :: cs =>
    match d.closeChoice with
    | .error fault => .error fault
    | .ok d => readTokens (some '\x7d') d cs
  | c :: cs =>
    let d :=
      if c = '?' then d.push .any
      else if c = '*' then d.push .gap
      else if c = '\x7b' then d.openChoice
      else if c = ',' && d.inChoice then d.nextAlternative
      else d.push (.literal c)
    readTokens (some c) d cs
  termination_by cs => cs.length
  decreasing_by
    all_goals simp only [List.length_cons, List.length_tail]
    all_goals first
      | omega
      | exact Nat.lt_succ_of_lt (length_readClass ‹_›)

/-- The tokens of a pattern. -/
def read? (pattern : String) : Except PatternFault (List Token) :=
  match readTokens none .start pattern.toList with
  | .error fault => .error fault
  | .ok d => if d.inChoice then .error .unclosedChoice else .ok d.branch.reverse

end Pattern

/-- A pattern as written, and the shape it denotes. -/
structure NamePattern where
  text : String
  shape : Shape
  deriving DecidableEq, Repr

namespace NamePattern

/-- The pattern that a text denotes.  It is searched for, whatever it is, so its expression must
not go too deep. -/
def read? (text : String) : Except PolicyFailure NamePattern :=
  match Pattern.read? text with
  | .error fault => .error (.invalidPattern text fault.message)
  | .ok tokens =>
    if Pattern.nesting tokens ≤ Pattern.nestingLimit then .ok ⟨text, Pattern.shape tokens⟩
    else .error (.unsearchablePattern text)

/-- Whether the pattern covers the whole name. -/
def accepts (p : NamePattern) (name : String) : Bool :=
  p.shape.accepts (Shape.bytes name.toList)

end NamePattern

end UpdatePlanner
