import UpdatePlanner.Version.Change

/-!
# Coloured text

On a terminal, text is coloured by escape sequences: one in front with the codes of a style, one
behind that resets it.  A reset inside the text would end the style early, so the style begins
anew after it.

## Main definitions

* `Style` — the styles of a report;
* `Style.paint` — a text in a style.
-/

namespace UpdatePlanner

/-- The styles of a report. -/
inductive Style where
  | bold
  | dimmed
  | red
  | green
  | yellow
  | cyan
  | boldRed
  | boldWhite
  deriving DecidableEq, Repr

namespace Style

def codes : Style → String
  | bold => "1"
  | dimmed => "2"
  | red => "31"
  | green => "32"
  | yellow => "33"
  | cyan => "36"
  | boldRed => "1;31"
  | boldWhite => "1;97"

/-- The sequence that begins a style. -/
def opening (s : Style) : List Char :=
  '\x1b' :: '[' :: s.codes.toList ++ ['m']

/-- The sequence that ends every style. -/
def reset : List Char := ['\x1b', '[', '0', 'm']

/-- A text with the given sequence after each reset in it. -/
def resume (sequence : List Char) : List Char → List Char
  | '\x1b' :: '[' :: '0' :: 'm' :: cs => reset ++ sequence ++ resume sequence cs
  | c :: cs => c :: resume sequence cs
  | [] => []

/-- A text in a style, or as it is where colours are off. -/
def paint (color : Bool) (s : Style) (text : String) : String :=
  if color then String.ofList (s.opening ++ resume s.opening text.toList ++ reset) else text

end Style

/-- The style of the label of a change. -/
def Change.style : Change → Style
  | major => .boldRed
  | minor => .yellow
  | patch => .green
  | unknown => .dimmed

end UpdatePlanner
