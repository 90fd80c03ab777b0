import Offside.Span
import Offside.Word

/-!
# Indentation

How far a line is indented, and how to find the next line that has something on it. A line that
holds only blanks or a comment counts for nothing, but its indentation is measured as well.

Widths are 64-bit words: a space is one column wide, and a tab reaches to the next multiple of the
tab width. Carriage returns and form feeds take no room. An indentation whose width is no word
cannot be measured.
-/

namespace Offside.Layout

/-- The characters that separate tokens on a line. -/
def isBlank (c : Char) : Bool := c = ' ' || c = '\t' || c = '\r' || c = '\x0c'

/-- The width after one more blank character. -/
def advance (tabWidth width : UInt64) (c : Char) : Except Trap UInt64 :=
  if c = ' ' then Word.add width 1
  else if c = '\t' then do
    -- the number of the next tab stop, times the distance between two
    let stop ← Word.div width tabWidth
    let next ← Word.add stop 1
    Word.mul next tabWidth
  else .ok width

/-- Where a search through the lines ends. -/
inductive Landing where
  /-- At a character that is neither blank nor in a comment, after an indentation of some width. -/
  | content (width : UInt64) (here : Span) (rest : List Char)
  /-- At the end of the text. -/
  | endOfText (here : Span)
  /-- In an indentation that cannot be measured. -/
  | trapped (trap : Trap)

/-- From inside the indentation of a line, or from inside a comment, the next line with something
on it. `width` is the indentation so far and `here` the position of the first character given. -/
def seek (tabWidth : UInt64) (comment : Bool) (width : UInt64) (here : Span) :
    List Char → Landing
  | [] => .endOfText here
  | c :: cs =>
    -- a comment ends with its line, and the measuring begins anew
    if c = '\n' then seek tabWidth false 0 here.nextLine cs
    else if comment || c = '#' then seek tabWidth true width (here.right 1) cs
    else if isBlank c then
      match advance tabWidth width c with
      | .ok width => seek tabWidth false width (here.right 1) cs
      | .error trap => .trapped trap
    else .content width here (c :: cs)

/-- Past the blanks and the comment, if any, before the next token or the end of the line. -/
def skip (comment : Bool) (here : Span) : List Char → Span × List Char
  | [] => (here, [])
  | c :: cs =>
    if c = '\n' then (here, c :: cs)
    else if comment || c = '#' then skip true (here.right 1) cs
    else if isBlank c then skip false (here.right 1) cs
    else (here, c :: cs)

end Offside.Layout
