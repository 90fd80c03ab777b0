import Offside.Binary64.Text
import Offside.Json.Basic

/-!
# Writing JSON

A value is written either **compact**, with no white space at all, or **pretty**, with one item or
field to a line and two more spaces for each level of nesting. Both keep the fields in the order
they have; `Json.prettySorted` orders them by name first.
-/

namespace Offside.Json

/-- The four hexadecimal digits of a control character. -/
def controlDigits (c : Char) : String :=
  let digits := Nat.toDigits 16 c.toNat
  String.ofList (List.replicate (4 - digits.length) '0' ++ digits)

/-- A character as it stands in a string. -/
def escape (c : Char) : String :=
  if c = '"' then "\\\""
  else if c = '\\' then "\\\\"
  else if c = '\x08' then "\\b"
  else if c = '\x0c' then "\\f"
  else if c = '\n' then "\\n"
  else if c = '\r' then "\\r"
  else if c = '\t' then "\\t"
  -- the other control characters; everything else stands for itself
  else if c.toNat < 0x20 then "\\u" ++ controlDigits c
  else String.singleton c

/-- A string between quotation marks. -/
def quote (s : String) : String := "\"" ++ String.join (s.toList.map escape) ++ "\""

/-- A floating-point number; one that is not finite is written as `null`. -/
def floatText (x : Binary64) : String := x.exchangeText?.getD "null"

mutual

/-- The value with no white space. -/
def compact : Json → String
  | .null => "null"
  | .bool b => if b then "true" else "false"
  | .int n => toString n
  | .float x => floatText x
  | .str s => quote s
  | .arr items => "[" ++ String.intercalate "," (compactItems items) ++ "]"
  | .obj fields => "\x7b" ++ String.intercalate "," (compactMembers fields) ++ "\x7d"

/-- Each item with no white space. -/
def compactItems : List Json → List String
  | [] => []
  | item :: items => compact item :: compactItems items

/-- Each field with no white space. -/
def compactMembers : List (String × Json) → List String
  | [] => []
  | (name, value) :: fields => (quote name ++ ":" ++ compact value) :: compactMembers fields

end

/-- The line break before something at a level of nesting. -/
def lineBreak (level : Nat) : String := "\n" ++ String.ofList (List.replicate (2 * level) ' ')

/-- Entries between two brackets, one to a line. -/
def enclose (left right : String) (level : Nat) (entries : List String) : String :=
  -- nothing inside: no line break either
  if entries.isEmpty then left ++ right
  else
    left ++ lineBreak (level + 1)
      ++ String.intercalate ("," ++ lineBreak (level + 1)) entries
      ++ lineBreak level ++ right

mutual

/-- The value at a level of nesting, one item or field to a line. -/
def prettyAt (level : Nat) : Json → String
  | .arr items => enclose "[" "]" level (prettyItems (level + 1) items)
  | .obj fields => enclose "\x7b" "\x7d" level (prettyMembers (level + 1) fields)
  | .null => "null"
  | .bool b => if b then "true" else "false"
  | .int n => toString n
  | .float x => floatText x
  | .str s => quote s

/-- Each item at a level of nesting. -/
def prettyItems (level : Nat) : List Json → List String
  | [] => []
  | item :: items => prettyAt level item :: prettyItems level items

/-- Each field at a level of nesting. -/
def prettyMembers (level : Nat) : List (String × Json) → List String
  | [] => []
  | (name, value) :: fields =>
    (quote name ++ ": " ++ prettyAt level value) :: prettyMembers level fields

end

/-- The value with one item or field to a line and the fields ordered by name. -/
def prettySorted (value : Json) : String := prettyAt 0 value.sortFields

end Offside.Json
