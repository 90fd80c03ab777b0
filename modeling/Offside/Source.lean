import Offside.Parser.Statement
import Offside.Program.Cpp
import Offside.Program.Exchange
import Offside.Program.Outline
import Offside.Settings
import Offside.Token.Lexer
import Offside.Token.Listing

/-!
# Source texts

What can be done with a source text under some settings: list its tokens, show its tree, and
compile it to C++. The settings are checked before the text is looked at; only `analyze` takes any
tab width as it is. What can go wrong is a fault or, where a line of the text is too far indented to
be measured, a trap.
-/

namespace Offside.Source

/-- The tokens of a text. -/
def tokens (s : Settings) (text : String) : Except (Halt Fault) (List Token) := do
  s.validate.mapError fun e => .fault (.settings e)
  (tokenize s.tabWidth text).mapError (Halt.map .lexical)

/-- The symbol table and the tree of a text, with any tab width. -/
def analyze (tabWidth : UInt64) (text : String) : Except (Halt Fault) (SymbolTable × Program) := do
  let ts ← (tokenize tabWidth text).mapError (Halt.map .lexical)
  (Parser.parse ts).mapError fun e => .fault (.grammar e)

/-- The symbol table and the tree of a text under settings that are in range. -/
def parse (s : Settings) (text : String) : Except (Halt Fault) (SymbolTable × Program) := do
  s.validate.mapError fun e => .fault (.settings e)
  analyze s.tabWidth text

/-- **The C++ text of a source text.** -/
def compile (s : Settings) (text : String) : Except (Halt Fault) String := do
  let (table, program) ← parse s text
  .ok (Cpp.emit s.indentWidth.toNat table program)

/-- A symbol table and a program in an output mode: as data, or as an outline. -/
def treeView (mode : OutputMode) (table : SymbolTable) (program : Program) : String :=
  if mode.isJson then (Program.document table program).prettySorted
  else Outline.render table program

/-- The tokens of a text, listed. -/
def listing (s : Settings) (mode : OutputMode) (text : String) : Except (Halt Fault) String := do
  .ok (Listing.render mode (← tokens s text))

/-- The tree of a text, shown. -/
def tree (s : Settings) (mode : OutputMode) (text : String) : Except (Halt Fault) String := do
  let (table, program) ← parse s text
  .ok (treeView mode table program)

end Offside.Source
