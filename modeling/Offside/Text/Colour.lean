/-!
# Colours on a terminal

The escape sequences that rich output uses, and text painted with them.
-/

namespace Offside.Colour

/-- Red text. -/
def red : String := "\x1b[31m"

/-- Bright red text. -/
def brightRed : String := "\x1b[91m"

/-- Cyan text. -/
def cyan : String := "\x1b[36m"

/-- Magenta text. -/
def magenta : String := "\x1b[35m"

/-- Bold text. -/
def bold : String := "\x1b[1m"

/-- Faint text. -/
def dim : String := "\x1b[2m"

/-- Back to normal. -/
def reset : String := "\x1b[0m"

/-- A text in a colour. -/
def paint (colour text : String) : String := colour ++ text ++ reset

end Offside.Colour
