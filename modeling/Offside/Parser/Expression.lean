import Offside.Fault
import Offside.Program.Basic

/-!
# Reading expressions

Readers take the tokens at hand and return what they have read together with the tokens left. They
look at one token at a time, except that a name followed by a parenthesis is a call. The readers
here are those below the level of statements.

The position of the last token of the whole sequence, `stop`, is where an error points when the
tokens end too early.
-/

namespace Offside.Parser

/-- What a reader comes to: a result, or the first error. -/
abbrev Attempt := Except GrammarError

/-- What a reader gives: a result and the tokens left. -/
abbrev Reading (α : Type) := α × List Token

variable (stop : Span)

/-- The tokens end where something was expected. -/
def ended (expected : String) : GrammarError :=
  .unexpectedEnd stop ("expected " ++ expected)

/-- The next token. -/
def take (expected : String) : List Token → Attempt (Reading Token)
  | [] => .error (ended stop expected)
  | t :: ts => .ok (t, ts)

/-- The next token, which has to be of a kind. -/
def expect (kind : Token.Kind) (expected : String) (ts : List Token) : Attempt (Reading Token) := do
  let (t, ts) ← take stop expected ts
  if t.kind = kind then .ok (t, ts)
  else .error (.unexpected t ("expected " ++ expected))

/-- The next token, which has to be a name, and that name. -/
def expectName (expected : String) (ts : List Token) : Attempt (Reading (String × Span)) := do
  let (t, ts) ← expect stop .identifier expected ts
  match t.name? with
  | some name => .ok ((name, t.span), ts)
  -- the kind and the value of a token may disagree
  | none => .error (.unexpected t "identifier without a name")

/-- The next token, which has to name the type of a variable. -/
def valueType (expected : String) (ts : List Token) : Attempt (Reading ValueType) := do
  let (t, ts) ← take stop expected ts
  match ValueType.ofKind? t.kind with
  | some type => .ok (type, ts)
  | none => .error (.unexpected t ("expected " ++ expected ++ " (int, float or bool)"))

/-- Whether the next token is of a kind. -/
def nextIs (kind : Token.Kind) : List Token → Bool
  | [] => false
  | t :: _ => t.kind == kind

/-- Items with commas between them, up to a closing parenthesis; at least one. The number bounds
the items. -/
def separated {α : Type} (item : List Token → Attempt (Reading α)) :
    Nat → List Token → Attempt (Reading (List α))
  | 0, _ => .error (ended stop "',' or ')'")
  | bound + 1, ts => do
    let (x, ts) ← item ts
    let (mark, ts) ← take stop "',' or ')'" ts
    match mark.kind with
    -- behind a comma there has to be another item
    | .comma =>
      let (xs, ts) ← separated item bound ts
      .ok (x :: xs, ts)
    | .rightParen => .ok ([x], ts)
    | _ => .error (.unexpected mark "expected ',' or ')'")

/-- Items after an opening parenthesis, with commas between them. -/
def listed {α : Type} (item : List Token → Attempt (Reading α)) (ts : List Token) :
    Attempt (Reading (List α)) :=
  if nextIs .rightParen ts then .ok ([], ts.tail) else separated stop item (ts.length + 1) ts

/-- The operand that a token stands for. Its kind and its value have to agree. -/
def operandOf (t : Token) : Attempt Operand :=
  match t.kind, t.value with
  | .identifier, some (.name s) => .ok (.name s)
  | .intLiteral, some (.int v) => .ok (.literal (.int v))
  | .floatLiteral, some (.float v) => .ok (.literal (.float v))
  | .boolLiteral, some (.bool v) => .ok (.literal (.bool v))
  | _, _ => .error (.unexpected t "expected a variable or a literal")

/-- A variable or a literal. -/
def operand (ts : List Token) : Attempt (Reading Operand) := do
  let (t, ts) ← take stop "operand" ts
  let x ← operandOf t
  .ok (x, ts)

/-- Operators, each with the operand after it, as many as there are. -/
def operations : List Token → Attempt (Reading (List (BinaryOp × Operand)))
  | [] => .ok ([], [])
  | t :: ts =>
    match BinaryOp.ofKind? t.kind with
    -- anything but an operator ends the expression
    | none => .ok ([], t :: ts)
    | some op =>
      match ts with
      | [] => .error (ended stop "operand")
      | u :: ts => do
        let x ← operandOf u
        let (more, ts) ← operations ts
        .ok ((op, x) :: more, ts)

/-- The arguments of a call whose name has been read. -/
def callTail (name : String) (span : Span) (ts : List Token) : Attempt (Reading Call) := do
  let (_, ts) ← expect stop .leftParen "'('" ts
  let (args, ts) ← listed stop (operand stop) ts
  .ok (⟨name, args, span⟩, ts)

/-- Whether a call comes next. -/
def callNext (ts : List Token) : Bool := nextIs .identifier ts && nextIs .leftParen ts.tail

/-- **An expression**: a call, or operands joined by operators. -/
def expression (ts : List Token) : Attempt (Reading Expr) := do
  if callNext ts then
    let ((name, span), ts) ← expectName stop "function name" ts
    let (call, ts) ← callTail stop name span ts
    .ok (.call call, ts)
  else
    -- a negation stands before the first operand, and nowhere else
    let negated := nextIs .notWord ts
    let (first, ts) ← operand stop (if negated then ts.tail else ts)
    let (rest, ts) ← operations stop ts
    .ok (.operation ⟨negated, first, rest⟩, ts)

end Offside.Parser
