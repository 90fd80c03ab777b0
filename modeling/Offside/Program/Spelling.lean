import Offside.Program.Basic

/-!
# Spelling expressions

The source language and C++ write an expression alike, part for part with single spaces between
the parts. They differ in three words only, which a `Spelling` lists.
-/

namespace Offside

/-- The words in which two languages differ. -/
structure Spelling where
  negation : String
  operator : BinaryOp → String
  truth : Bool → String

namespace Spelling

/-- The words of the source language. -/
def source : Spelling where
  negation := "not"
  operator := BinaryOp.text
  truth := Token.boolText

/-- The words of C++. -/
def cpp : Spelling where
  negation := "!"
  operator := BinaryOp.cpp
  truth b := if b then "true" else "false"

end Spelling

/-- A constant. Integers are decimal, and floating-point numbers are in plain decimal. -/
def Literal.spell (words : Spelling) : Literal → String
  | .int n => toString n.toInt
  | .float x => x.text
  | .bool b => words.truth b

/-- A variable or a constant. -/
def Operand.spell (words : Spelling) : Operand → String
  | .name s => s
  | .literal l => l.spell words

/-- A call, its arguments with commas between them. -/
def Call.spell (words : Spelling) (c : Call) : String :=
  c.name ++ "(" ++ String.intercalate ", " (c.args.map (Operand.spell words)) ++ ")"

/-- The parts of an operation in order: the negation, the first operand, and each operator with
the operand after it. -/
def Operation.parts (words : Spelling) (o : Operation) : List String :=
  (if o.negated then [words.negation] else []) ++ o.first.spell words ::
    o.rest.flatMap fun pair => [words.operator pair.1, pair.2.spell words]

/-- An expression. -/
def Expr.spell (words : Spelling) : Expr → String
  | .call c => c.spell words
  | .operation o => String.intercalate " " (o.parts words)

end Offside
