import Offside.Json.Printer
import Offside.OutputMode
import Offside.Text.Colour
import Offside.Token.Exchange

/-!
# Token listings

One token to a line, its position first; or all tokens as a JSON array.
-/

namespace Offside.Listing

/-- A text filled up with spaces to a number of characters. -/
def padRight (width : Nat) (s : String) : String :=
  s ++ String.ofList (List.replicate (width - s.length) ' ')

/-- The position as the first column of a listing. -/
def location (t : Token) : String := padRight 8 t.span.text

/-- A line without colours. -/
def plainLine (t : Token) : String := location t ++ t.text

/-- A line with colours: positions are faint, and layout and literals stand out. -/
def richLine (t : Token) : String :=
  Colour.paint Colour.dim (location t) ++
    (if t.kind.isLayout then Colour.paint Colour.magenta t.text
    else if t.kind.isLiteral then Colour.paint Colour.cyan t.text
    else t.text)

/-- **The listing of some tokens.** -/
def render (mode : OutputMode) (ts : List Token) : String :=
  match mode with
  | .json => (Json.ofList Token.toJson ts).prettySorted
  | .plain => String.intercalate "\n" (ts.map plainLine)
  | .rich => String.intercalate "\n" (ts.map richLine)

end Offside.Listing
