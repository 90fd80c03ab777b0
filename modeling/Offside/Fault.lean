import Offside.Program.Types
import Offside.Text.Quoted
import Offside.Token.Basic

/-!
# What can go wrong

A source text can be wrong in its characters and lines (`LexicalError`) or in the order of its
tokens (`GrammarError`). Apart from the text, the settings can be out of range (`SettingsError`)
and the system can refuse a request. `Fault` is any of these; its wording is `Fault.message`.
-/

namespace Offside

/-- Why a text has no next token. -/
inductive LexicalFault where
  /-- A character that begins no token. -/
  | unexpectedChar (c : Char)
  /-- A line less indented than the one before, but like none of the blocks around it. -/
  | inconsistentDedent
  /-- The first line of the text is indented. -/
  | unexpectedIndent
  /-- A numeric literal beyond the range of its type. -/
  | numberOutOfRange
  deriving DecidableEq

/-- A fault of the text at a position. -/
structure LexicalError where
  fault : LexicalFault
  span : Span
  deriving DecidableEq

/-- In which way a token does not fit. -/
inductive GrammarFault where
  /-- A token that the grammar does not allow here. -/
  | unexpectedToken
  /-- The tokens end inside a construct. -/
  | unexpectedEnd
  /-- A variable is declared again with another type in the same scope. -/
  | typeConflict (previous declared : ValueType)
  /-- A function inside a block. -/
  | nestedFunction
  deriving DecidableEq

/-- A fault of the token sequence, with the token at fault unless the sequence has ended. -/
structure GrammarError where
  fault : GrammarFault
  token : Option Token
  span : Span
  message : String
  deriving DecidableEq

/-- A setting that cannot be used, and what was wrong with its text if that was the reason. -/
structure SettingsError where
  message : String
  cause : Option String
  deriving DecidableEq

/-- Anything that can go wrong. -/
inductive Fault where
  | lexical (error : LexicalError)
  | grammar (error : GrammarError)
  | settings (error : SettingsError)
  | system (message : String)
  deriving DecidableEq

/-- The wording of a lexical fault. -/
def LexicalFault.message : LexicalFault → String
  | .unexpectedChar c => "unexpected character " ++ Quoted.char c
  | .inconsistentDedent => "unindent does not match any outer indentation level"
  | .unexpectedIndent => "unexpected indent"
  | .numberOutOfRange => "numeric literal out of range"

/-- The wording of a lexical error, with its line. -/
def LexicalError.message (e : LexicalError) : String :=
  "lexical error: line " ++ toString e.span.line ++ ": " ++ e.fault.message

namespace GrammarError

/-- A token that the grammar does not allow here. -/
def unexpected (token : Token) (message : String) : GrammarError :=
  ⟨.unexpectedToken, some token, token.span, message⟩

/-- The tokens end too early. -/
def unexpectedEnd (span : Span) (message : String) : GrammarError :=
  ⟨.unexpectedEnd, none, span, message⟩

/-- What the error is about: a token, or the end of the input. -/
def subject (e : GrammarError) : String :=
  match e.token with
  | some token => "token " ++ token.text
  | none => "end of input"

/-- The wording of a grammar error, with its line. -/
def text (e : GrammarError) : String :=
  "syntax error: " ++ e.subject ++ ", line " ++ toString e.span.line ++ ": " ++ e.message

end GrammarError

namespace Fault

/-- The full wording. -/
def message : Fault → String
  | .lexical e => e.message
  | .grammar e => e.text
  | .settings e => "Configuration error: " ++ e.message
  | .system text => "I/O error: " ++ text

/-- Where in the source text, if the text is at fault. -/
def span? : Fault → Option Span
  | .lexical e => some e.span
  | .grammar e => some e.span
  | .settings _ | .system _ => none

/-- The line at fault. -/
def line? (f : Fault) : Option Nat := f.span?.map Span.line

/-- Whether the source text is at fault. -/
def isOfSource : Fault → Bool
  | .lexical _ | .grammar _ => true
  | .settings _ | .system _ => false

/-- What lies behind the fault: the error itself for a fault of the text or the system, and the
cause of a setting that cannot be used. -/
def cause? : Fault → Option String
  | .lexical e => some e.message
  | .grammar e => some e.text
  | .settings e => e.cause
  | .system text => some text

end Fault

end Offside
