import Offside.Token.Basic
import Offside.Program.Types

/-!
# Programs

The tree of a program. Expressions are flat: an operation is a sequence of operands joined by
operators in the order they are written, with no grouping. A conditional keeps its branches in one
list, so that a chain of any length is not nested.
-/

namespace Offside

/-- A constant. -/
inductive Literal where
  | int (value : Int64)
  | float (value : Binary64)
  | bool (value : Bool)
  deriving DecidableEq

/-- A variable or a constant. -/
inductive Operand where
  | name (text : String)
  | literal (value : Literal)
  deriving DecidableEq

/-- A call. Its arguments are plain operands. -/
structure Call where
  name : String
  args : List Operand
  span : Span
  deriving DecidableEq

/-- Operands joined by operators, negated as a whole or not. -/
structure Operation where
  negated : Bool
  first : Operand
  rest : List (BinaryOp × Operand)
  deriving DecidableEq

/-- An expression. -/
inductive Expr where
  | call (call : Call)
  | operation (operation : Operation)
  deriving DecidableEq

mutual

/-- A statement. -/
inductive Stmt where
  /-- Give a variable a value; an annotation may declare the variable. -/
  | assign (target : String) (type : Option ValueType) (value : Expr) (span : Span)
  /-- Declare a variable and give it no value. -/
  | declare (name : String) (type : ValueType) (span : Span)
  /-- Leave the function, with a value or without. -/
  | giveBack (value : Option Expr) (span : Span)
  /-- Repeat a block while a condition holds. -/
  | loop (condition : Expr) (body : List Stmt) (span : Span)
  /-- Run the block of the first branch whose condition holds, or else the last block. -/
  | choose (branches : List Branch) (otherwise : Option (List Stmt)) (span : Span)
  /-- Print some values on a line. -/
  | print (args : List Expr) (span : Span)
  /-- Call a function and drop what it returns. -/
  | call (call : Call)

/-- A condition and the block it guards. -/
inductive Branch where
  | mk (condition : Expr) (body : List Stmt) (span : Span)

end

namespace Stmt

/-- Where the statement begins. -/
def span : Stmt → Span
  | .assign _ _ _ span => span
  | .declare _ _ span => span
  | .giveBack _ span => span
  | .loop _ _ span => span
  | .choose _ _ span => span
  | .print _ span => span
  | .call c => c.span

end Stmt

/-- A parameter of a function. -/
structure Param where
  name : String
  type : ValueType
  deriving DecidableEq

/-- A function of the module. -/
structure Function where
  name : String
  params : List Param
  returnType : ReturnType
  body : List Stmt
  span : Span

/-- A whole source text: its functions and its other statements, each in order. -/
structure Program where
  functions : List Function
  body : List Stmt

namespace Program

/-- The program with nothing in it. -/
def empty : Program := ⟨[], []⟩

/-- Whether there is nothing in it. -/
def isEmpty (p : Program) : Bool := p.functions.isEmpty && p.body.isEmpty

end Program

end Offside
