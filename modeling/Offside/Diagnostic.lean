import Offside.Fault
import Offside.Json.Printer
import Offside.OutputMode
import Offside.Text.Colour

/-!
# Diagnostics

A diagnostic reports a fault to whoever ran the program. What it says is put together step by
step: a position, the token at fault, the line of the source text, the name of the file. It can be
shown in each output mode; only rich output shows the line of the source, with a caret below the
place.
-/

namespace Offside

/-- Which part of the program reports. -/
inductive Topic where
  | lexical
  | grammar
  | settings
  | system
  deriving DecidableEq

namespace Topic

/-- The name of a topic in data. -/
def text : Topic → String
  | .lexical => "lexical"
  | .grammar => "syntax"
  | .settings => "config"
  | .system => "io"

/-- The topic with a given name. -/
def ofText? (s : String) : Option Topic :=
  [Topic.lexical, .grammar, .settings, .system].find? fun topic => topic.text == s

end Topic

/-- A report on a fault. -/
structure Diagnostic where
  topic : Topic
  message : String
  span : Option Span
  /-- The token at fault as it is shown. -/
  token : Option String
  /-- The line of the source text at fault. -/
  sourceLine : Option String
  /-- The name of the file. -/
  path : Option String
  deriving DecidableEq

namespace Diagnostic

/-- A report without a place. -/
def new (topic : Topic) (message : String) : Diagnostic := ⟨topic, message, none, none, none, none⟩

/-- The lines of a text. A line break ends a line, so nothing follows the last one. -/
def linesOf (cs : List Char) : List (List Char) :=
  let parts := cs.splitOn '\n'
  if parts.getLast? = some [] then parts.dropLast else parts

/-- The line with a number counted from one, without carriage returns at its end. Line zero is the
first too. -/
def sourceLine? (source : String) (line : Nat) : Option String :=
  (linesOf source.toList)[line - 1]?.map fun cs =>
    -- all carriage returns at the end, not only one
    String.ofList (cs.reverse.dropWhile (· == '\r')).reverse

/-- With a position. -/
def withSpan (d : Diagnostic) (span : Span) : Diagnostic := { d with span := some span }

/-- With the token at fault. -/
def withToken (d : Diagnostic) (token : String) : Diagnostic := { d with token := some token }

/-- With the line at the position. Without a position nothing changes. -/
def withSource (d : Diagnostic) (source : String) : Diagnostic :=
  match d.span with
  | some span => { d with sourceLine := sourceLine? source span.line }
  | none => d

/-- With the name of the file. -/
def withPath (d : Diagnostic) (path : String) : Diagnostic := { d with path := some path }

/-- The report on a fault. -/
def ofFault : Fault → Diagnostic
  | .lexical e => (new .lexical e.fault.message).withSpan e.span
  | .grammar e =>
    { (new .grammar e.message).withSpan e.span with token := e.token.map Token.text }
  | .settings e => new .settings e.message
  | .system text => new .system text

/-- The first line of a report. -/
def header (d : Diagnostic) : String :=
  -- a report without a position is on line zero
  let line := toString ((d.span.map Span.line).getD 0)
  match d.topic with
  | .lexical => "lexical error: line " ++ line
  | .grammar =>
    match d.token with
    | some token => "syntax error: token " ++ token ++ ", line " ++ line
    | none => "syntax error: end of input, line " ++ line
  | .settings => "configuration error"
  | .system => "I/O error"

/-- The report on two lines. -/
def renderPlain (d : Diagnostic) : String := d.header ++ "\n" ++ d.message

/-- The blanks that bring a caret below a column of a line. Tabs stay tabs, so that both lines are
spread alike. -/
def caretIndent (line : String) (column : Nat) : String :=
  let width := column - 1
  let under := (line.toList.take width).map fun c => if c = '\t' then '\t' else ' '
  String.ofList (under ++ List.replicate (width - under.length) ' ')

/-- The lines that show the place. -/
def excerpt (span : Span) (source : String) : List String :=
  let number := toString span.line
  let blank := String.ofList (List.replicate number.length ' ')
  ["  " ++ Colour.paint Colour.cyan (blank ++ " |"),
    "  " ++ Colour.paint Colour.cyan (number ++ " |") ++ " " ++ source,
    "  " ++ Colour.paint Colour.cyan (blank ++ " |") ++ " " ++ caretIndent source span.column
      ++ Colour.paint Colour.brightRed "^"]

/-- The lines about the position. -/
def place (d : Diagnostic) (span : Span) : List String :=
  let location := (d.path.map fun path => path ++ ":" ++ span.text).getD span.text
  ("  " ++ Colour.paint Colour.dim ("--> " ++ location)) ::
    ((d.sourceLine.map (excerpt span)).getD [])

/-- The report with colours and the place. -/
def renderRich (d : Diagnostic) : String :=
  String.intercalate "\n"
    (Colour.paint (Colour.bold ++ Colour.red) d.header :: ("  " ++ d.message) ::
      ((d.span.map d.place).getD []))

/-- The report as data. -/
def toJson (d : Diagnostic) : Json :=
  .obj [("kind", .str d.topic.text), ("line", .ofOption (fun s => .nat s.line) d.span),
    ("column", .ofOption (fun s => .nat s.column) d.span), ("token", .ofOption .str d.token),
    ("message", .str d.message)]

/-- **The report in an output mode.** -/
def render (mode : OutputMode) (d : Diagnostic) : String :=
  match mode with
  | .plain => d.renderPlain
  | .rich => d.renderRich
  | .json => d.toJson.prettySorted

end Diagnostic

end Offside
