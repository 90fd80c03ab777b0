/-!
# Positions in a source text

A position is a line and a column, both counted from one. Columns count characters, a tab being
one.
-/

namespace Offside

/-- A position in a source text. -/
structure Span where
  line : Nat
  column : Nat
  deriving DecidableEq

namespace Span

/-- The first character of a text. -/
def start : Span := ⟨1, 1⟩

/-- So many characters further on the same line. -/
def right (s : Span) (count : Nat) : Span := ⟨s.line, s.column + count⟩

/-- The first column of the next line. -/
def nextLine (s : Span) : Span := ⟨s.line + 1, 1⟩

/-- Line and column with a colon between them. -/
def text (s : Span) : String := toString s.line ++ ":" ++ toString s.column

end Span

end Offside
