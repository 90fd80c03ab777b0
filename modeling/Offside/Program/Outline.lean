import Offside.Program.Spelling
import Offside.Scope

/-!
# Outlines

The tree view of a symbol table and a program. First both become trees of labels, then the trees
are drawn, one label to a line, with connectors that show which node belongs to which.
-/

namespace Offside

/-- A tree of labels. -/
inductive Outline where
  | node (label : String) (children : List Outline)

namespace Outline

/-- A node without children. -/
def leaf (label : String) : Outline := .node label []

mutual

/-- The lines of a node below the root. `margin` stands before everything on them, and the
connectors tell whether the node is the last of its siblings. -/
def drawAt (margin : String) (last : Bool) : Outline → List String
  | .node label children =>
    (margin ++ (if last then "\\-- " else "+-- ") ++ label) ::
      -- below the last sibling nothing has to be connected
      drawAll (margin ++ (if last then "    " else "|   ")) children

/-- The lines of siblings. -/
def drawAll (margin : String) : List Outline → List String
  | [] => []
  | o :: os => drawAt margin os.isEmpty o ++ drawAll margin os

end

/-- The lines of a tree. The root stands alone on its line. -/
def draw : Outline → List String
  | .node label children => label :: drawAll "" children

end Outline

namespace Outline

/-- An expression as the source language writes it. -/
def expression (e : Expr) : String := e.spell .source

mutual

/-- The nodes of a statement. The branches of a conditional are siblings. -/
def statement : Stmt → List Outline
  | .assign target none value _ => [leaf (target ++ " = " ++ expression value)]
  | .assign target (some type) value _ =>
    [leaf (target ++ ": " ++ type.text ++ " = " ++ expression value)]
  | .declare name type _ => [leaf (name ++ ": " ++ type.text)]
  | .giveBack (some value) _ => [leaf ("return " ++ expression value)]
  | .giveBack none _ => [leaf "return"]
  | .loop condition body _ => [.node ("while " ++ expression condition) (block body)]
  | .choose bs none _ => branches "if" bs
  | .choose bs (some body) _ => branches "if" bs ++ [.node "else" (block body)]
  | .print args _ =>
    [leaf ("print(" ++ String.intercalate ", " (args.map expression) ++ ")")]
  | .call c => [leaf (c.spell .source)]

/-- The nodes of a block. -/
def block : List Stmt → List Outline
  | [] => []
  | s :: ss => statement s ++ block ss

/-- The nodes of a chain of branches, of which the first begins with the given word. -/
def branches (word : String) : List Branch → List Outline
  | [] => []
  | .mk condition body _ :: bs =>
    .node (word ++ " " ++ expression condition) (block body) :: branches "elif" bs

end

/-- The node of a function. -/
def function (f : Function) : Outline :=
  .node
    ("def " ++ f.name ++ "("
      ++ String.intercalate ", " (f.params.map fun p => p.name ++ ": " ++ p.type.text)
      ++ ") -> " ++ f.returnType.text)
    (block f.body)

/-- The tree of a program. -/
def program (p : Program) : Outline :=
  if p.isEmpty then leaf "Program: (empty)"
  else .node "Program" (p.functions.map function ++ block p.body)

/-- The label of a scope. -/
def scopeLabel (name : String) : String :=
  if name == SymbolTable.moduleName then "<module>" else "def " ++ name

/-- The tree of a symbol table. -/
def symbols (t : SymbolTable) : Outline :=
  if t.isEmpty then leaf "Symbols: (empty)"
  else
    .node "Symbols" (t.scopes.map fun scope =>
      .node (scopeLabel scope.name) (scope.symbols.map fun s => leaf s.text))

/-- **The tree view**: the symbol table, and the program below it. -/
def render (t : SymbolTable) (p : Program) : String :=
  String.intercalate "\n" ((symbols t).draw ++ (program p).draw)

end Outline

end Offside
