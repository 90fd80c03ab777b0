import Offside.Json.Record
import Offside.Token.Basic

/-!
# Tokens as data

How positions and tokens are written as JSON values and read back. The value of a token is written
without saying what it is: an integer that fits is an integer, any other number is floating-point,
and a text is a name.
-/

namespace Offside

namespace Span

/-- A position as a JSON value. -/
def toJson (s : Span) : Json := .obj [("line", .nat s.line), ("column", .nat s.column)]

/-- A position from a JSON value. -/
def ofJson? (j : Json) : Option Span := do
  match ← j.record? ["line", "column"] with
  | [line, column] => return ⟨← Json.need? Json.nat? line, ← Json.need? Json.nat? column⟩
  | _ => none

end Span

namespace Token

/-- A kind as a JSON value. -/
def Kind.toJson (k : Kind) : Json := .str k.tag

/-- A kind from a JSON value. -/
def Kind.ofJson? (j : Json) : Option Kind := do Kind.ofTag? (← j.plainVariant? .outer)

/-- The value of a token as a JSON value. -/
def Value.toJson : Value → Json
  | .int n => .int n.toInt
  | .float x => .float x
  | .bool b => .bool b
  | .name s => .str s

/-- The value of a token from a JSON value. -/
def Value.ofJson? : Json → Option Value
  | .int n =>
    match Json.int64? (.int n) with
    | some v => some (.int v)
    | none => some (.float (Binary64.ofInt n))
  | .float x => some (.float x)
  | .bool b => some (.bool b)
  | .str s => some (.name s)
  | _ => none

/-- A token as a JSON value. Without a value the field is left out. -/
def toJson (t : Token) : Json :=
  .obj (("kind", t.kind.toJson) ::
    ((t.value.map fun v => ("value", v.toJson)).toList ++ [("span", t.span.toJson)]))

/-- A token from a JSON value. -/
def ofJson? (j : Json) : Option Token := do
  match ← j.record? ["kind", "value", "span"] with
  | [kind, value, span] =>
    return ⟨← Json.need? Kind.ofJson? kind, ← Json.may? Value.ofJson? value,
      ← Json.need? Span.ofJson? span⟩
  | _ => none

end Token

end Offside
