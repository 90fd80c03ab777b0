import Offside.Parser.Statement

/-!
# What is expected next

The readers of the grammar go down into a construct and come back with what is left. Seen from the
tokens, one after another, all that matters is what is still **expected**: a stack of goals, with
the module itself below them. A token is shown to the goal on top, which takes it and may put other
goals in its own place, lets it pass to the goal below, or refuses it.

* `Goal` — what can be expected, and `react` — what a goal does with a token;
* `advance` — what a whole stack does with a token;
* `run` — what it does with a token sequence: the symbol table in the end, or the fault and the
  token it is reported at, which is none at the end of the tokens.

A run never goes back over a token, so all that a sequence can still become depends on the stack it
has led to.
-/

namespace Offside.Expectation

/-- The punctuation and layout that only one place expects. None of it is an operator. -/
inductive Mark where
  | colon
  | leftParen
  | arrow
  | indent

/-- The kind of a mark. -/
def Mark.kind : Mark → Token.Kind
  | .colon => .colon
  | .leftParen => .leftParen
  | .arrow => .arrow
  | .indent => .indent

/-- Something that is still expected. -/
inductive Goal where
  | mark (m : Mark)
  /-- An operand. -/
  | operand
  /-- Operators with their operands, as many as there are. -/
  | operators
  /-- What can follow a name at the front of an expression: arguments, or operators. -/
  | callOrOperators
  /-- The arguments of a call, after the opening parenthesis. -/
  | arguments
  /-- What can follow an argument. -/
  | moreArguments
  | expression
  /-- The values of a print statement, after the opening parenthesis or a comma. -/
  | printed
  /-- What can follow a value of a print statement. -/
  | morePrinted
  /-- The value of a return statement, or none. -/
  | returned
  /-- What can follow a name at the front of a statement. -/
  | afterName (scope : String) (name : Token)
  /-- The type that is given to a name. -/
  | namedType (scope : String) (name : Token)
  /-- The value that a declared variable is given, or none. -/
  | assigned
  /-- The end of a statement on one line. -/
  | lineEnd
  | statement (scope : String)
  /-- The statements of a block up to its end. -/
  | items (scope : String)
  /-- Further branches of a conditional, or none. -/
  | moreBranches (scope : String)
  /-- The name of a parameter. -/
  | paramName
  /-- The type of a parameter. -/
  | paramType
  /-- The parameters of a function, after the opening parenthesis. -/
  | params
  /-- What can follow a parameter. -/
  | moreParams
  | returnType
  /-- A function after its first word. -/
  | function

/-- What a goal does with a token. -/
inductive Reaction where
  /-- It takes the token, and other goals come in its place. -/
  | shift (table : SymbolTable) (goals : List Goal)
  /-- It is content, and the token is for the goal below. -/
  | pass
  /-- It has no use for the token. -/
  | refuse (fault : GrammarFault) (token : Token)

/-- Further goals below those that come in the place of the first. -/
def Reaction.andThen : Reaction → List Goal → Reaction
  | .shift table goals, more => .shift table (goals ++ more)
  | .pass, _ => .pass
  | .refuse fault token, _ => .refuse fault token

variable (table : SymbolTable)

/-- A token where it cannot stand. -/
def unexpected (t : Token) : Reaction := .refuse .unexpectedToken t

/-- Goals in the place of one that takes a token of a kind. -/
def onKind (kind : Token.Kind) (goals : List Goal) (otherwise : Reaction) (t : Token) : Reaction :=
  if t.kind = kind then .shift table goals else otherwise

/-- An operand, and then some goals. -/
def onOperand (goals : List Goal) (t : Token) : Reaction :=
  match Parser.operandOf t with
  | .ok _ => .shift table goals
  | .error _ => unexpected t

/-- The first token of an expression. -/
def onExpression (t : Token) : Reaction :=
  if t.kind = .notWord then .shift table [.operand, .operators]
  else if t.kind = .identifier then onOperand table [.callOrOperators] t
  else onOperand table [.operators] t

/-- An operator, if there is one. -/
def onOperator (t : Token) : Reaction :=
  match BinaryOp.ofKind? t.kind with
  | some _ => .shift table [.operand, .operators]
  | none => .pass

/-- A condition and the block it guards. -/
def guarded (scope : String) : List Goal :=
  [.expression, .mark .colon, .mark .indent, .items scope]

/-- The first token of a statement. -/
def onStatement (scope : String) (t : Token) : Reaction :=
  match t.kind with
  | .identifier => .shift table [.afterName scope t, .lineEnd]
  | .returnWord => .shift table [.returned, .lineEnd]
  | .printWord => .shift table [.mark .leftParen, .printed, .lineEnd]
  | .whileWord => .shift table (guarded scope)
  | .ifWord => .shift table (guarded scope ++ [.moreBranches scope])
  | .defWord => .refuse .nestedFunction t
  | _ => unexpected t

/-- The type of a variable, which is declared with it. -/
def onNamedType (scope : String) (name t : Token) : Reaction :=
  match ValueType.ofKind? t.kind with
  | none => unexpected t
  | some type =>
    match table.declare scope ⟨name.name?.getD "", type, name.span⟩ with
    | .ok table => .shift table []
    | .error previous => .refuse (.typeConflict previous.type type) name

/-- The name of a parameter, and then some goals. -/
def onParamName (goals : List Goal) (t : Token) : Reaction :=
  if t.kind = .identifier ∧ t.name?.isSome then .shift table goals else unexpected t

/-- What can follow an item of a list in parentheses: a comma and another item, or the end. -/
def onSeparator (item : List Goal) (t : Token) : Reaction :=
  match t.kind with
  | .comma => .shift table item
  | .rightParen => .shift table []
  | _ => unexpected t

/-- **What a goal does with a token.** -/
def react : Goal → Token → Reaction
  | .mark m, t => onKind table m.kind [] (unexpected t) t
  | .operand, t => onOperand table [] t
  | .operators, t => onOperator table t
  | .callOrOperators, t => onKind table .leftParen [.arguments] (onOperator table t) t
  | .arguments, t => onKind table .rightParen [] (onOperand table [.moreArguments] t) t
  | .moreArguments, t => onSeparator table [.operand, .moreArguments] t
  | .expression, t => onExpression table t
  | .printed, t => onKind table .rightParen [] ((onExpression table t).andThen [.morePrinted]) t
  | .morePrinted, t => onSeparator table [.printed] t
  | .returned, t => if t.kind = .newline ∨ t.kind = .dedent then .pass else onExpression table t
  | .afterName scope name, t =>
    match t.kind with
    | .colon => .shift table [.namedType scope name, .assigned]
    | .assign => .shift table [.expression]
    | .leftParen => .shift table [.arguments]
    | _ => unexpected t
  | .namedType scope name, t => onNamedType table scope name t
  | .assigned, t => onKind table .assign [.expression] .pass t
  | .lineEnd, t => onKind table .newline [] (if t.kind = .dedent then .pass else unexpected t) t
  | .statement scope, t => onStatement table scope t
  | .items scope, t =>
    match t.kind with
    | .dedent => .shift table []
    | .newline => .shift table [.items scope]
    | _ => (onStatement table scope t).andThen [.items scope]
  | .moreBranches scope, t =>
    match t.kind with
    | .elifWord => .shift table (guarded scope ++ [.moreBranches scope])
    | .elseWord => .shift table [.mark .colon, .mark .indent, .items scope]
    | _ => .pass
  | .paramName, t => onParamName table [] t
  | .paramType, t =>
    if (ValueType.ofKind? t.kind).isSome then .shift table [] else unexpected t
  | .params, t =>
    onKind table .rightParen []
      (onParamName table [.mark .colon, .paramType, .moreParams] t) t
  | .moreParams, t =>
    onSeparator table [.paramName, .mark .colon, .paramType, .moreParams] t
  | .returnType, t =>
    if (ReturnType.ofKind? t.kind).isSome then .shift table [] else unexpected t
  | .function, t =>
    match t.kind, t.name? with
    | .identifier, some name =>
      .shift table
        [.mark .leftParen, .params, .mark .arrow, .returnType, .mark .colon, .mark .indent,
          .items name]
    | _, _ => unexpected t

/-- What the module does with a token when nothing else is expected. -/
def onModule (t : Token) : Reaction :=
  match t.kind with
  | .newline => .shift table []
  | .defWord => .shift table [.function]
  | .dedent => unexpected t
  | _ => onStatement table SymbolTable.moduleName t

/-- Why a run does not end in a symbol table: a fault, and the token it is reported at. -/
abbrev Refusal := GrammarFault × Option Token

/-- **What a stack of goals does with a token.** Below all goals is the module. -/
def advance : List Goal → Token → Except Refusal (SymbolTable × List Goal)
  | [], t =>
    match onModule table t with
    | .shift table goals => .ok (table, goals)
    | .pass => .ok (table, [])
    | .refuse fault token => .error (fault, some token)
  | g :: gs, t =>
    match react table g t with
    | .shift table goals => .ok (table, goals ++ gs)
    | .pass => advance gs t
    | .refuse fault token => .error (fault, some token)

/-- Whether a goal is content with the end of the tokens. -/
def Goal.optional : Goal → Bool
  | .operators | .callOrOperators | .returned | .assigned | .lineEnd | .items _
  | .moreBranches _ => true
  | _ => false

/-- **What a stack of goals does with a token sequence.** -/
def run (table : SymbolTable) (gs : List Goal) : List Token → Except Refusal SymbolTable
  | [] => if gs.all Goal.optional then .ok table else .error (.unexpectedEnd, none)
  | t :: ts => do
    let (table, gs) ← advance table gs t
    run table gs ts

end Offside.Expectation
