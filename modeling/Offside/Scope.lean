import Offside.Program.Types
import Offside.Span

/-!
# Symbol tables

A symbol table lists the annotated variables of every scope: the module, whose name is empty, and
each function by its name. Scopes stand in the order in which their first variable was declared,
and variables in the order of their declarations. A variable may be declared again with the same
type, and then it is listed again.
-/

namespace Offside

/-- A declared variable. -/
structure Symbol where
  name : String
  type : ValueType
  span : Span
  deriving DecidableEq

namespace Symbol

/-- Name, type and position. -/
def text (s : Symbol) : String := s.name ++ ": " ++ s.type.text ++ " @" ++ s.span.text

end Symbol

/-- The variables of the module or of a function. -/
structure Scope where
  name : String
  symbols : List Symbol
  deriving DecidableEq

/-- The scopes of a program that have a variable. -/
structure SymbolTable where
  scopes : List Scope
  deriving DecidableEq

namespace SymbolTable

/-- The table without scopes. -/
def empty : SymbolTable := ⟨[]⟩

/-- The name of the module's own scope. -/
def moduleName : String := ""

/-- Whether there is no scope. -/
def isEmpty (t : SymbolTable) : Bool := t.scopes.isEmpty

/-- The first scope with a name. -/
def scope? (t : SymbolTable) (name : String) : Option Scope :=
  t.scopes.find? fun scope => scope.name == name

/-- The variables of a scope, none if there is no such scope. -/
def symbols (t : SymbolTable) (name : String) : List Symbol :=
  ((t.scope? name).map Scope.symbols).getD []

/-- Add a variable to the first scope with a name, or to a new scope at the end. -/
def insert (scope : String) (symbol : Symbol) : List Scope → List Scope
  | [] => [⟨scope, [symbol]⟩]
  | s :: scopes =>
    -- repeats are kept: a variable is listed once for each of its declarations
    if s.name == scope then { s with symbols := s.symbols ++ [symbol] } :: scopes
    else s :: insert scope symbol scopes

/-- The first variable of a scope with the same name and another type. -/
def conflict? (t : SymbolTable) (scope : String) (symbol : Symbol) : Option Symbol :=
  (t.symbols scope).find? fun s => s.name == symbol.name && s.type != symbol.type

/-- **Declare a variable in a scope.** A variable of the same name and another type stands in the
way and is returned; then the table stays as it was. -/
def declare (t : SymbolTable) (scope : String) (symbol : Symbol) :
    Except Symbol SymbolTable :=
  match t.conflict? scope symbol with
  | some previous => .error previous
  | none => .ok ⟨insert scope symbol t.scopes⟩

end SymbolTable

end Offside
