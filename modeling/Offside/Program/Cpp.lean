import Offside.Program.Spelling
import Offside.Scope

/-!
# Emitting C++

A program becomes one C++ text: its functions first, then a main function with the statements of
the module. The variables of a scope are declared at the top of its function, one line for each
declaration in the symbol table, so a statement that only declares emits nothing.

The text is put together as lines, each at a depth of nesting (`Cpp.lines`), and only then is each
line indented (`Cpp.emit`).
-/

namespace Offside.Cpp

/-- The name of the language. -/
def language : String := "c++"

/-- A line and its depth of nesting. -/
structure Line where
  depth : Nat
  text : String
  deriving DecidableEq

/-- An expression in C++. -/
def expression (e : Expr) : String := e.spell .cpp

/-- The line of a print statement. -/
def printText (args : List Expr) : String :=
  "std::cout << " ++ String.join (args.map fun e => expression e ++ " << ") ++ "std::endl;"

/-- A body between braces. -/
def braced (depth : Nat) (body : List Line) : List Line :=
  ⟨depth, "\x7b"⟩ :: body ++ [⟨depth, "\x7d"⟩]

mutual

/-- The lines of a statement. -/
def statement (depth : Nat) : Stmt → List Line
  | .assign target _ value _ => [⟨depth, target ++ " = " ++ expression value ++ ";"⟩]
  -- the declaration stands at the top of the function
  | .declare _ _ _ => []
  | .giveBack (some value) _ => [⟨depth, "return " ++ expression value ++ ";"⟩]
  | .giveBack none _ => [⟨depth, "return;"⟩]
  | .loop condition body _ =>
    ⟨depth, "while(" ++ expression condition ++ ")"⟩ :: braced depth (block (depth + 1) body)
  | .choose bs none _ => branches depth "if" bs
  | .choose bs (some body) _ =>
    branches depth "if" bs ++ ⟨depth, "else"⟩ :: braced depth (block (depth + 1) body)
  | .print args _ => [⟨depth, printText args⟩]
  | .call c => [⟨depth, c.spell .cpp ++ ";"⟩]

/-- The lines of a block. -/
def block (depth : Nat) : List Stmt → List Line
  | [] => []
  | s :: ss => statement depth s ++ block depth ss

/-- The lines of a chain of branches. The first begins with the given word and all others go on
from the one before. -/
def branches (depth : Nat) (word : String) : List Branch → List Line
  | [] => []
  | .mk condition body _ :: bs =>
    ⟨depth, word ++ "(" ++ expression condition ++ ")"⟩ ::
      braced depth (block (depth + 1) body) ++ branches depth "else if" bs

end

/-- One line for each declaration of a scope. -/
def declarations (table : SymbolTable) (scope : String) : List Line :=
  (table.symbols scope).map fun s => ⟨1, s.type.text ++ " " ++ s.name ++ ";"⟩

/-- The line that begins a function. -/
def header (f : Function) : String :=
  f.returnType.cpp ++ " " ++ f.name ++ "("
    ++ String.intercalate ", " (f.params.map fun p => p.type.text ++ " " ++ p.name) ++ ")"

/-- The lines of a function. -/
def function (table : SymbolTable) (f : Function) : List Line :=
  ⟨0, header f⟩ :: braced 0 (declarations table f.name ++ block 1 f.body)

/-- The lines of the main function. -/
def mainFunction (table : SymbolTable) (body : List Stmt) : List Line :=
  ⟨0, "int main()"⟩ ::
    braced 0 (declarations table SymbolTable.moduleName ++ block 1 body ++ [⟨1, "return 0;"⟩])

/-- **The lines of a program.** -/
def lines (table : SymbolTable) (p : Program) : List Line :=
  [⟨0, "#include <iostream>"⟩, ⟨0, ""⟩] ++ p.functions.flatMap (function table)
    ++ ⟨0, ""⟩ :: mainFunction table p.body

/-- A line, indented by so many spaces for each level, and its line break. -/
def Line.render (indentWidth : Nat) (l : Line) : String :=
  String.ofList (List.replicate (l.depth * indentWidth) ' ') ++ l.text ++ "\n"

/-- **The C++ text of a program.** -/
def emit (indentWidth : Nat) (table : SymbolTable) (p : Program) : String :=
  String.join ((lines table p).map (Line.render indentWidth))

end Offside.Cpp
