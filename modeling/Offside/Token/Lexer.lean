import Offside.Fault
import Offside.Token.Layout
import Offside.Token.Lexeme

/-!
# From text to tokens

A `Lexer` is a place in a source text together with what the lines before it leave open. Taking
the `next` token is one step, which never goes back:

* a token of the layout that is still due comes first;
* at the end of a line the next line with something on it is compared with the blocks that are
  open: deeper opens a block, equally deep goes on, less deep closes blocks, one token for each;
* at the end of the text every open block is closed;
* anywhere else the lexeme at hand is read.

The first line opens nothing and must not be indented. A fault leaves the lexer where it stands, so
that one can ask again; `Lexer.nextOrStop` ends the tokens at the first fault instead. A line whose
indentation cannot be measured is a trap: then there is neither a token nor a fault, and the lexer
is left as it was.
-/

namespace Offside

/-- How far a lexer has come. -/
inductive Phase where
  /-- Before the first line. -/
  | fresh
  /-- On some line. -/
  | reading
  /-- After the last token, those still due apart. -/
  | done
  deriving DecidableEq

/-- A place in a source text. -/
structure Lexer where
  /-- The characters not yet read. -/
  rest : List Char
  /-- The position of the first of them. -/
  here : Span
  /-- The columns between two tab stops; at least one. -/
  tabWidth : UInt64
  /-- The widths of the open blocks, the innermost first. The last one is that of the text itself,
  which is zero. -/
  levels : List UInt64
  /-- Tokens that are due before anything else is read. -/
  pending : List Token
  /-- Whether a minus sign before a digit is the sign of a literal here. -/
  signed : Bool
  phase : Phase

namespace Lexer

/-- A lexer before a text. A tab width of zero counts as one. -/
def ofSource (tabWidth : UInt64) (source : String) : Lexer where
  rest := source.toList
  here := Span.start
  tabWidth := if tabWidth = 0 then 1 else tabWidth
  levels := [0]
  pending := []
  signed := true
  phase := .fresh

/-- What one step gives: a token, a fault, a trap, or nothing at the end. -/
abbrev Answer := Option (Except (Halt LexicalError) Token)

/-- The width of the innermost open block. -/
def level (l : Lexer) : UInt64 := l.levels.headD 0

/-- Hand out a token. -/
def give (l : Lexer) (t : Token) : Answer × Lexer :=
  (some (.ok t), { l with signed := !t.kind.endsOperand })

/-- Report a fault. -/
def fail (l : Lexer) (fault : LexicalFault) : Answer × Lexer :=
  (some (.error (.fault ⟨fault, l.here⟩)), l)

/-- Hand out the first token that is due, if there is one. -/
def giveDue (l : Lexer) : List Token → Answer × Lexer
  | [] => (none, { l with pending := [] })
  | t :: ts => { l with pending := ts }.give t

/-- At the end of the text: close every open block, so that only the text itself is left. -/
def close (l : Lexer) (here : Span) : Answer × Lexer :=
  let opened := l.levels.length - 1
  { l with rest := [], here := here, levels := l.levels.drop opened, phase := .done }.giveDue
    (List.replicate opened (Token.plain .dedent here))

/-- At the first character of a line that is not the first: compare its indentation with the open
blocks. -/
def layOut (l : Lexer) (width : UInt64) : Answer × Lexer :=
  if l.level < width then
    { l with levels := width :: l.levels }.give (Token.plain .indent l.here)
  else if width < l.level then
    -- the deeper levels are gone, also where the line turns out to be inconsistent
    let kept := l.levels.dropWhile fun level => width < level
    let inner := { l with levels := kept }
    if inner.level = width then
      inner.giveDue
        (List.replicate (l.levels.length - kept.length) (Token.plain .dedent l.here))
    -- no block is this wide, and there is no going on after that
    else { inner with phase := .done }.fail .inconsistentDedent
  else l.give (Token.plain .newline l.here)

/-- At the first character of a lexeme: read it. A number out of range is passed over; a character
that begins no token is not. -/
def scan (l : Lexer) : Answer × Lexer :=
  match Token.Lexeme.read l.signed l.rest, l.rest with
  | .token chars kind value, _ =>
    { l with rest := l.rest.drop chars.length, here := l.here.right chars.length }.give
      ⟨kind, value, l.here⟩
  | .outOfRange chars, _ =>
    (some (.error (.fault ⟨.numberOutOfRange, l.here⟩)),
      { l with rest := l.rest.drop chars.length, here := l.here.right chars.length })
  | .unexpected, c :: _ => l.fail (.unexpectedChar c)
  | .unexpected, [] => (none, l)

/-- Give up in an indentation that cannot be measured. -/
def giveUp (l : Lexer) (trap : Trap) : Answer × Lexer := (some (.error (.trap trap)), l)

/-- **One step.** The next token, a fault, a trap, or nothing at the end. -/
def next (l : Lexer) : Answer × Lexer :=
  match l.pending, l.phase with
  | t :: ts, _ => { l with pending := ts }.give t
  | [], .done => (none, l)
  | [], .fresh =>
    match Layout.seek l.tabWidth false 0 l.here l.rest with
    | .endOfText here => l.close here
    | .trapped trap => l.giveUp trap
    | .content width here rest =>
      -- the lexer has moved on to the lexeme, so asking again reads it
      let l := { l with phase := .reading, here := here, rest := rest }
      if width = 0 then l.scan else l.fail .unexpectedIndent
  | [], .reading =>
    -- blanks and a comment are passed over, a line break only together with the lines that have
    -- nothing on them
    match Layout.skip false l.here l.rest with
    | (here, []) => l.close here
    | (here, '\n' :: rest) =>
      match Layout.seek l.tabWidth false 0 here.nextLine rest with
      | .endOfText here => l.close here
      | .trapped trap => l.giveUp trap
      | .content width here rest => { l with here := here, rest := rest }.layOut width
    | (here, rest) => { l with here := here, rest := rest }.scan

/-- One step after which a fault ends the tokens. -/
def nextOrStop (l : Lexer) : Answer × Lexer :=
  match l.next with
  | (some (.error (.fault e)), l) =>
    (some (.error (.fault e)), { l with pending := [], phase := .done })
  | step => step

/-- A bound on the steps that still give a token: every character gives at most three, one for
itself and one each for opening and closing a block. -/
def budget (l : Lexer) : Nat := 3 * l.rest.length + l.levels.length + l.pending.length + 1

/-- Steps up to a fault, a trap or the end, at most so many: all answers, and the lexer then. -/
def drainWithin : Nat → Lexer → List Answer × Lexer
  | 0, l => ([], l)
  | steps + 1, l =>
    match l.next with
    | (some (.ok t), l) =>
      -- only a token is followed by another answer
      let (answers, l) := drainWithin steps l
      (some (.ok t) :: answers, l)
    | (answer, l) => ([answer], l)

/-- **All steps up to a fault, a trap or the end**, the last one included. -/
def drain (l : Lexer) : List Answer × Lexer := drainWithin l.budget l

/-- The tokens before the end, within a number of steps. -/
def tokensWithin : Nat → Lexer → Except (Halt LexicalError) (List Token)
  | 0, _ => .ok []
  | steps + 1, l =>
    match l.next with
    | (some (.ok t), l) => (tokensWithin steps l).map (t :: ·)
    | (some (.error halt), _) => .error halt
    | (none, _) => .ok []

end Lexer

/-- **The tokens of a source text**, or its first fault, or a trap before it. -/
def tokenize (tabWidth : UInt64) (source : String) : Except (Halt LexicalError) (List Token) :=
  let l := Lexer.ofSource tabWidth source
  l.tokensWithin l.budget

end Offside
