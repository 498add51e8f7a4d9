/-!
# Styled text

Text on a terminal can be set off by escape sequences. Where the reader is no terminal the
same text is written without them.
-/

set_option autoImplicit false

namespace MutationTester

/-- The colours of styled text. -/
inductive Color
  | red
  | green
  | yellow
  | cyan
  deriving DecidableEq

/-- The escape sequence that begins a colour. -/
def Color.sequence : Color → String
  | red => "\x1b[31m"
  | green => "\x1b[32m"
  | yellow => "\x1b[33m"
  | cyan => "\x1b[36m"

/-- The weights of styled text. -/
inductive Weight
  | bold
  | dim
  deriving DecidableEq

/-- The escape sequence that begins a weight. -/
def Weight.sequence : Weight → String
  | bold => "\x1b[1m"
  | dim => "\x1b[2m"

/-- How a piece of text is set off. -/
structure Style where
  color : Option Color
  weight : Option Weight
  deriving DecidableEq

namespace Style

/-- A colour in bold. -/
def strong (c : Color) : Style := ⟨some c, some .bold⟩

/-- A colour in the usual weight. -/
def plain (c : Color) : Style := ⟨some c, none⟩

/-- Less prominent than its surroundings. -/
def faint : Style := ⟨none, some .dim⟩

/-- A text in a style, or as it is where styles are not shown. The colour comes before the
weight, and one sequence after the text ends both. -/
def apply (style : Style) (styled : Bool) (text : String) : String :=
  if styled then
    (style.color.map Color.sequence).getD "" ++ (style.weight.map Weight.sequence).getD "" ++ text ++
      "\x1b[0m"
  else text

end Style

end MutationTester
