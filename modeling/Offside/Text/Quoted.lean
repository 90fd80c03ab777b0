import Offside.Text.Glyph

/-!
# Quoted characters and texts

Messages quote a character between apostrophes and a text between quotation marks. The enclosing
mark and the backslash are written after a backslash, a few control characters have letters of
their own, and every other character without a shape is written by its code point, in lower-case
hexadecimal between braces.
-/

namespace Offside.Quoted

/-- A code point between braces, after a backslash and the letter u. -/
def codePoint (c : Char) : String :=
  "\\u\x7b" ++ String.ofList (Nat.toDigits 16 c.toNat) ++ "\x7d"

/-- A character as it stands between two marks. -/
def escape (mark c : Char) : String :=
  if c = '\x00' then "\\0"
  else if c = '\t' then "\\t"
  else if c = '\n' then "\\n"
  else if c = '\r' then "\\r"
  else if c = '\\' then "\\\\"
  else if c = mark then "\\" ++ String.singleton mark
  else if Glyph.isShown c then String.singleton c
  else codePoint c

/-- A character between apostrophes. -/
def char (c : Char) : String := "'" ++ escape '\'' c ++ "'"

/-- A text between quotation marks. -/
def text (s : String) : String := "\"" ++ String.join (s.toList.map (escape '"')) ++ "\""

end Offside.Quoted
