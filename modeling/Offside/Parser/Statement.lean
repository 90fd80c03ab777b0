import Offside.Parser.Expression
import Offside.Scope

/-!
# Reading statements

Readers of statements also carry the symbol table, to which every annotation adds a variable. A
block is what stands between two tokens of the layout; the end of the tokens closes it too.

Statements nest in blocks and blocks in statements, so these readers take a bound on the steps
down, for which four times the number of tokens is always enough (`budget`).
-/

namespace Offside.Parser

/-- What a reader of statements gives: a result, the symbol table and the tokens left. -/
abbrev Step (α : Type) := α × SymbolTable × List Token

/-- A bound on the steps down that reading some tokens can take. -/
def budget (ts : List Token) : Nat := 4 * ts.length + 4

variable (stop : Span)

/-- A variable is declared again with another type. -/
def conflict (t : Token) (name : String) (previous declared : ValueType) : GrammarError :=
  ⟨.typeConflict previous declared, some t, t.span,
    "variable '" ++ name ++ "' already declared as " ++ previous.text
      ++ ", cannot redeclare as " ++ declared.text⟩

/-- Declare the variable that a token names. -/
def declare (scope : String) (t : Token) (name : String) (type : ValueType)
    (table : SymbolTable) : Attempt SymbolTable :=
  match table.declare scope ⟨name, type, t.span⟩ with
  | .ok table => .ok table
  | .error previous => .error (conflict t name previous.type type)

/-- Whether a statement on one line may end here. -/
def atEnd (ts : List Token) : Bool := ts.isEmpty || nextIs .newline ts || nextIs .dedent ts

/-- The end of a statement on one line. A line break is passed over, the end of a block is not. -/
def endOfStatement : List Token → Attempt (List Token)
  | [] => .ok []
  | t :: ts =>
    match t.kind with
    | .dedent => .ok (t :: ts)
    | .newline => .ok ts
    | _ => .error (.unexpected t "expected end of statement")

/-- The values of a print statement after the opening parenthesis. A comma may stand before the
closing one. -/
def printed : Nat → List Token → Attempt (Reading (List Expr))
  | 0, _ => .error (ended stop "',' or ')'")
  | bound + 1, ts =>
    if nextIs .rightParen ts then .ok ([], ts.tail)
    else do
      let (x, ts) ← expression stop ts
      let (mark, ts) ← take stop "',' or ')'" ts
      match mark.kind with
      -- here, and only here, a comma may come last
      | .comma =>
        let (xs, ts) ← printed bound ts
        .ok (x :: xs, ts)
      | .rightParen => .ok ([x], ts)
      | _ => .error (.unexpected mark "expected ',' or ')'")

/-- A statement that begins with a name: a declaration, an assignment or a call. -/
def nameStatement (scope : String) (t : Token) (table : SymbolTable) (ts : List Token) :
    Attempt (Step Stmt) := do
  let name := t.name?.getD ""
  if nextIs .colon ts then
    let (type, ts) ← valueType stop "type annotation" ts.tail
    -- declared before the value is read, so a conflict is reported before a fault of the value
    let table ← declare scope t name type table
    if nextIs .assign ts then
      let (value, ts) ← expression stop ts.tail
      .ok (.assign name (some type) value t.span, table, ts)
    else .ok (.declare name type t.span, table, ts)
  else if nextIs .assign ts then
    let (value, ts) ← expression stop ts.tail
    .ok (.assign name none value t.span, table, ts)
  else if nextIs .leftParen ts then
    let (call, ts) ← callTail stop name t.span ts
    .ok (.call call, table, ts)
  else
    -- none of the three, or nothing at all
    let (next, _) ← take stop "'=', ':' or '(' after identifier" ts
    .error (.unexpected next ("expected '=', ':' or '(' after '" ++ name ++ "'"))

/-- The value of a return statement, if there is one. -/
def returned (ts : List Token) : Attempt (Reading (Option Expr)) := do
  if atEnd ts then .ok (none, ts)
  else
    let (value, ts) ← expression stop ts
    .ok (some value, ts)

/-- A condition and the colon after it. -/
def condition (after : String) (ts : List Token) : Attempt (Reading Expr) := do
  let (e, ts) ← expression stop ts
  let (_, ts) ← expect stop .colon after ts
  .ok (e, ts)

mutual

/-- **A statement** in a scope. -/
def statement : Nat → String → SymbolTable → List Token → Attempt (Step Stmt)
  | 0, _, _, _ => .error (ended stop "statement")
  | bound + 1, scope, table, ts => do
    let (t, ts) ← take stop "statement" ts
    match t.kind with
    | .identifier =>
      let (s, table, ts) ← nameStatement stop scope t table ts
      let ts ← endOfStatement ts
      .ok (s, table, ts)
    | .returnWord =>
      let (value, ts) ← returned stop ts
      let ts ← endOfStatement ts
      .ok (.giveBack value t.span, table, ts)
    | .printWord =>
      let (_, ts) ← expect stop .leftParen "'(' after print" ts
      let (args, ts) ← printed stop (ts.length + 1) ts
      let ts ← endOfStatement ts
      .ok (.print args t.span, table, ts)
    | .whileWord =>
      let (e, ts) ← condition stop "':' after while condition" ts
      let (body, table, ts) ← block bound scope table ts
      .ok (.loop e body t.span, table, ts)
    | .ifWord =>
      let (branches, table, ts) ← branches bound scope t.span table ts
      let (otherwise, table, ts) ← otherwise bound scope table ts
      .ok (.choose branches otherwise t.span, table, ts)
    -- what comes now begins no statement
    | .defWord =>
      .error ⟨.nestedFunction, some t, t.span, "functions can only be defined at module level"⟩
    | .indent => .error (.unexpected t "unexpected indent")
    | _ => .error (.unexpected t "expected a statement")

/-- The branches of a conditional after its first word, which stands at `span`. -/
def branches : Nat → String → Span → SymbolTable → List Token → Attempt (Step (List Branch))
  | 0, _, _, _, _ => .error (ended stop "statement")
  | bound + 1, scope, span, table, ts => do
    let (e, ts) ← condition stop "':' after if condition" ts
    let (body, table, ts) ← block bound scope table ts
    match ts with
    | t :: rest =>
      -- a branch stands at its own word
      if t.kind = .elifWord then
        let (more, table, ts) ← branches bound scope t.span table rest
        .ok (.mk e body span :: more, table, ts)
      else .ok ([.mk e body span], table, ts)
    | [] => .ok ([.mk e body span], table, ts)

/-- The last block of a conditional, if there is one. -/
def otherwise : Nat → String → SymbolTable → List Token → Attempt (Step (Option (List Stmt)))
  | 0, _, _, _ => .error (ended stop "statement")
  | bound + 1, scope, table, ts => do
    if nextIs .elseWord ts then
      let (_, ts) ← expect stop .colon "':' after else" ts.tail
      let (body, table, ts) ← block bound scope table ts
      .ok (some body, table, ts)
    else .ok (none, table, ts)

/-- A block in a scope. -/
def block : Nat → String → SymbolTable → List Token → Attempt (Step (List Stmt))
  | 0, _, _, _ => .error (ended stop "statement")
  | bound + 1, scope, table, ts => do
    let (_, ts) ← expect stop .indent "indented block" ts
    items bound scope table ts

/-- The statements of a block up to its end. -/
def items : Nat → String → SymbolTable → List Token → Attempt (Step (List Stmt))
  | 0, _, _, _ => .error (ended stop "statement")
  | _ + 1, _, table, [] => .ok ([], table, [])
  | bound + 1, scope, table, t :: ts =>
    match t.kind with
    -- the end of a block is taken here, where its beginning was taken by `block`
    | .dedent => .ok ([], table, ts)
    | .newline => items bound scope table ts
    | _ => do
      let (s, table, ts) ← statement bound scope table (t :: ts)
      let (more, table, ts) ← items bound scope table ts
      .ok (s :: more, table, ts)

end

/-- A parameter of a function. -/
def param (ts : List Token) : Attempt (Reading Param) := do
  let ((name, _), ts) ← expectName stop "parameter name" ts
  let (_, ts) ← expect stop .colon "':' after parameter name" ts
  let (type, ts) ← valueType stop "parameter type" ts
  .ok (⟨name, type⟩, ts)

/-- What a function returns. -/
def returnType (ts : List Token) : Attempt (Reading ReturnType) := do
  let (t, ts) ← take stop "return type" ts
  match ReturnType.ofKind? t.kind with
  | some type => .ok (type, ts)
  | none => .error (.unexpected t "expected return type (int, float, bool or None)")

/-- A function after its first word, which stands at `span`. -/
def function (span : Span) (table : SymbolTable) (ts : List Token) : Attempt (Step Function) := do
  let ((name, _), ts) ← expectName stop "function name" ts
  let (_, ts) ← expect stop .leftParen "'(' after function name" ts
  let (params, ts) ← listed stop (param stop) ts
  let (_, ts) ← expect stop .arrow "'->' after parameter list" ts
  let (type, ts) ← returnType stop ts
  let (_, ts) ← expect stop .colon "':' after return type" ts
  -- the scope is known by the name of the function, so two functions of one name share it
  let (body, table, ts) ← block stop (budget ts) name table ts
  .ok (⟨name, params, type, body, span⟩, table, ts)

/-- The functions and statements of a module. The number bounds them. -/
def topLevel : Nat → SymbolTable → List Token → Attempt (SymbolTable × Program)
  | 0, _, _ => .error (ended stop "statement")
  | _ + 1, table, [] => .ok (table, .empty)
  | bound + 1, table, t :: ts =>
    match t.kind with
    | .newline => topLevel bound table ts
    | .defWord => do
      let (f, table, ts) ← function stop t.span table ts
      let (table, p) ← topLevel bound table ts
      .ok (table, { p with functions := f :: p.functions })
    -- every block takes its own end, so this one is of no block
    | .dedent => .error (.unexpected t "unexpected dedent")
    | _ => do
      let (s, table, ts) ← statement stop (budget (t :: ts)) SymbolTable.moduleName table (t :: ts)
      let (table, p) ← topLevel bound table ts
      .ok (table, { p with body := s :: p.body })

/-- The position of the last token, which an early end is reported at. -/
def stopOf (ts : List Token) : Span := (ts.getLast?.map Token.span).getD Span.start

/-- **The symbol table and the tree of a token sequence**, or its first error. -/
def parse (ts : List Token) : Attempt (SymbolTable × Program) :=
  topLevel (stopOf ts) (ts.length + 1) .empty ts

end Offside.Parser
