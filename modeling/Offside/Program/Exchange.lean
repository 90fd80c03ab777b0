import Offside.Program.Basic
import Offside.Scope
import Offside.Token.Exchange

/-!
# Programs as data

How symbol tables and programs are written as JSON values and read back. Statements are objects
whose field `stmt` tells the kind of statement; every other choice is a variant. What is missing
is written as `null`. Of a statement inside another one the kind may also be given by its number.

Reading a tree takes a bound on its nesting, for which the nesting of the value is enough.
-/

namespace Offside

/-- A type as a JSON value. -/
def ValueType.toJson (t : ValueType) : Json := .str t.text

/-- A type from a JSON value. -/
def ValueType.ofJson? (site : Json.Site) (j : Json) : Option ValueType := do
  ValueType.ofText? (← j.plainVariant? site)

/-- A return type as a JSON value. -/
def ReturnType.toJson : ReturnType → Json
  | .value type => .obj [("value", type.toJson)]
  | .nothing => .str "none"

/-- A return type from a JSON value. -/
def ReturnType.ofJson? (j : Json) : Option ReturnType :=
  match j.variant? with
  | some ("value", some contents) => (ValueType.ofJson? .outer contents).map .value
  -- the name alone, or with `null` for its contents
  | some ("none", none) | some ("none", some .null) => some .nothing
  | _ => none

/-- An operator as a JSON value. -/
def BinaryOp.toJson (op : BinaryOp) : Json := .str op.tag

/-- An operator from a JSON value. -/
def BinaryOp.ofJson? (site : Json.Site) (j : Json) : Option BinaryOp := do
  BinaryOp.ofTag? (← j.plainVariant? site)

/-- A constant as a JSON value. -/
def Literal.toJson : Literal → Json
  | .int n => .obj [("int", .int n.toInt)]
  | .float x => .obj [("float", .float x)]
  | .bool b => .obj [("bool", .bool b)]

/-- A constant from a JSON value. -/
def Literal.ofJson? (j : Json) : Option Literal :=
  match j.variant? with
  | some ("int", some contents) => contents.int64?.map .int
  | some ("float", some contents) => contents.float?.map .float
  | some ("bool", some contents) => contents.bool?.map .bool
  | _ => none

/-- An operand as a JSON value. -/
def Operand.toJson : Operand → Json
  | .name s => .obj [("ident", .str s)]
  | .literal l => .obj [("literal", l.toJson)]

/-- An operand from a JSON value. -/
def Operand.ofJson? (j : Json) : Option Operand :=
  match j.variant? with
  | some ("ident", some contents) => contents.str?.map .name
  | some ("literal", some contents) => (Literal.ofJson? contents).map .literal
  | _ => none

/-- A call as a list of fields. -/
def Call.toFields (c : Call) : List (String × Json) :=
  [("name", .str c.name), ("args", .ofList Operand.toJson c.args), ("span", c.span.toJson)]

/-- The names of the fields of a call. -/
def Call.fieldNames : List String := ["name", "args", "span"]

/-- A call from its fields. -/
def Call.ofFields? : List (Option Json) → Option Call
  | [name, args, span] => do
    return ⟨← Json.need? Json.str? name, ← Json.need? (Json.list? Operand.ofJson?) args,
      ← Json.need? Span.ofJson? span⟩
  | _ => none

/-- A call from a JSON value. -/
def Call.ofJson? (j : Json) : Option Call := do Call.ofFields? (← j.record? Call.fieldNames)

/-- An operator and its operand as a JSON value. -/
def BinaryOp.pairToJson (pair : BinaryOp × Operand) : Json :=
  .arr [pair.1.toJson, pair.2.toJson]

/-- An operator and its operand from a JSON value. -/
def BinaryOp.pairOfJson? (site : Json.Site) : Json → Option (BinaryOp × Operand)
  | .arr [op, x] => do return (← BinaryOp.ofJson? site op, ← Operand.ofJson? x)
  | _ => none

/-- An operation as a JSON value. -/
def Operation.toJson (o : Operation) : Json :=
  .obj [("negated", .bool o.negated), ("first", o.first.toJson),
    ("rest", .ofList BinaryOp.pairToJson o.rest)]

/-- An operation from a JSON value. -/
def Operation.ofJson? (site : Json.Site) (j : Json) : Option Operation := do
  match ← j.record? ["negated", "first", "rest"] with
  | [negated, first, rest] =>
    return ⟨← Json.need? Json.bool? negated, ← Json.need? Operand.ofJson? first,
      ← Json.need? (Json.list? (BinaryOp.pairOfJson? site)) rest⟩
  | _ => none

/-- An expression as a JSON value. -/
def Expr.toJson : Expr → Json
  | .call c => .obj [("call", .obj c.toFields)]
  | .operation o => .obj [("operation", o.toJson)]

/-- An expression from a JSON value. -/
def Expr.ofJson? (site : Json.Site) (j : Json) : Option Expr :=
  match j.variant? with
  | some ("call", some contents) => (Call.ofJson? contents).map .call
  | some ("operation", some contents) => (Operation.ofJson? site contents).map .operation
  | _ => none

mutual

/-- A statement as a JSON value. -/
def Stmt.toJson : Stmt → Json
  | .assign target type value span =>
    .obj [("stmt", .str "assign"), ("target", .str target),
      ("annotation", .ofOption ValueType.toJson type), ("value", value.toJson),
      ("span", span.toJson)]
  | .declare name type span =>
    .obj [("stmt", .str "declare"), ("name", .str name), ("ty", type.toJson),
      ("span", span.toJson)]
  | .giveBack value span =>
    .obj [("stmt", .str "return"), ("value", .ofOption Expr.toJson value), ("span", span.toJson)]
  | .loop condition body span =>
    .obj [("stmt", .str "while"), ("condition", condition.toJson),
      ("body", .arr (Stmt.blockToJson body)), ("span", span.toJson)]
  | .choose branches none span =>
    .obj [("stmt", .str "if"), ("arms", .arr (Stmt.branchesToJson branches)),
      ("else_block", .null), ("span", span.toJson)]
  | .choose branches (some body) span =>
    .obj [("stmt", .str "if"), ("arms", .arr (Stmt.branchesToJson branches)),
      ("else_block", .arr (Stmt.blockToJson body)), ("span", span.toJson)]
  | .print args span =>
    .obj [("stmt", .str "print"), ("args", .ofList Expr.toJson args), ("span", span.toJson)]
  -- the fields of the call are those of the statement
  | .call c => .obj (("stmt", .str "call") :: c.toFields)

/-- The statements of a block as JSON values. -/
def Stmt.blockToJson : List Stmt → List Json
  | [] => []
  | s :: ss => s.toJson :: Stmt.blockToJson ss

/-- The branches of a conditional as JSON values. -/
def Stmt.branchesToJson : List Branch → List Json
  | [] => []
  | .mk condition body span :: bs =>
    .obj [("condition", condition.toJson), ("body", .arr (Stmt.blockToJson body)),
      ("span", span.toJson)] :: Stmt.branchesToJson bs

end

/-- The kinds of statements in the order of their numbers. -/
def Stmt.tags : List String := ["assign", "declare", "return", "while", "if", "print", "call"]

/-- The kind of a statement from the value that tells it: its name or, for a statement inside
another one, its number. -/
def Stmt.tag? (site : Json.Site) : Json → Option String
  | .str name => some name
  | .int n => if site = .inner ∧ 0 ≤ n then Stmt.tags[n.toNat]? else none
  | _ => none

/-- The kind of a statement and the value that holds the rest: the same object, or the items after
the first of an array. -/
def Stmt.tagged? (site : Json.Site) : Json → Option (String × Json)
  | .obj fields => do return (← Stmt.tag? site (← fields.lookup "stmt"), .obj fields)
  | .arr (tag :: items) => do return (← Stmt.tag? site tag, .arr items)
  | _ => none

/-- The names of the fields of a statement, apart from that for its kind. -/
def Stmt.fieldNames : String → List String
  | "assign" => ["target", "annotation", "value", "span"]
  | "declare" => ["name", "ty", "span"]
  | "return" => ["value", "span"]
  | "while" => ["condition", "body", "span"]
  | "if" => ["arms", "else_block", "span"]
  | "print" => ["args", "span"]
  | "call" => Call.fieldNames
  | _ => []

/-- A statement from its kind and its fields. What decodes the blocks and the branches inside of it
is given. -/
def Stmt.ofFields? (block? : Json → Option (List Stmt)) (branches? : Json → Option (List Branch)) :
    String → List (Option Json) → Option Stmt
  | "assign", [target, type, value, span] => do
    return .assign (← Json.need? Json.str? target) (← Json.may? (ValueType.ofJson? .inner) type)
      (← Json.need? (Expr.ofJson? .inner) value) (← Json.need? Span.ofJson? span)
  | "declare", [name, type, span] => do
    return .declare (← Json.need? Json.str? name) (← Json.need? (ValueType.ofJson? .inner) type)
      (← Json.need? Span.ofJson? span)
  | "return", [value, span] => do
    return .giveBack (← Json.may? (Expr.ofJson? .inner) value) (← Json.need? Span.ofJson? span)
  | "while", [condition, body, span] => do
    return .loop (← Json.need? (Expr.ofJson? .inner) condition) (← Json.need? block? body)
      (← Json.need? Span.ofJson? span)
  | "if", [branches, otherwise, span] => do
    return .choose (← Json.need? branches? branches) (← Json.may? block? otherwise)
      (← Json.need? Span.ofJson? span)
  | "print", [args, span] => do
    return .print (← Json.need? (Json.list? (Expr.ofJson? .inner)) args)
      (← Json.need? Span.ofJson? span)
  | "call", fields => (Call.ofFields? fields).map .call
  | _, _ => none

mutual

/-- A statement from a JSON value, nested at most so deeply. -/
def Stmt.ofJsonWithin? : Nat → Json.Site → Json → Option Stmt
  | 0, _, _ => none
  | bound + 1, site, j => do
    -- what is nested in this statement is inside of one
    let (tag, contents) ← Stmt.tagged? site j
    Stmt.ofFields? (Json.list? (Stmt.ofJsonWithin? bound .inner))
      (Json.list? (Branch.ofJsonWithin? bound)) tag (← contents.record? (Stmt.fieldNames tag))

/-- A branch of a conditional from a JSON value, nested at most so deeply. -/
def Branch.ofJsonWithin? : Nat → Json → Option Branch
  | 0, _ => none
  | bound + 1, j => do
    match ← j.record? ["condition", "body", "span"] with
    | [condition, body, span] =>
      return .mk (← Json.need? (Expr.ofJson? .inner) condition)
        (← Json.need? (Json.list? (Stmt.ofJsonWithin? bound .inner)) body)
        (← Json.need? Span.ofJson? span)
    | _ => none

end

/-- A statement that stands in no other one from a JSON value. -/
def Stmt.ofJson? (j : Json) : Option Stmt := Stmt.ofJsonWithin? (j.depth + 1) .outer j

/-- A parameter as a JSON value. -/
def Param.toJson (p : Param) : Json := .obj [("name", .str p.name), ("ty", p.type.toJson)]

/-- A parameter from a JSON value. -/
def Param.ofJson? (j : Json) : Option Param := do
  match ← j.record? ["name", "ty"] with
  | [name, type] =>
    return ⟨← Json.need? Json.str? name, ← Json.need? (ValueType.ofJson? .outer) type⟩
  | _ => none

/-- A function as a JSON value. -/
def Function.toJson (f : Function) : Json :=
  .obj [("name", .str f.name), ("params", .ofList Param.toJson f.params),
    ("return_type", f.returnType.toJson), ("body", .arr (Stmt.blockToJson f.body)),
    ("span", f.span.toJson)]

/-- A function from a JSON value. -/
def Function.ofJson? (j : Json) : Option Function := do
  match ← j.record? ["name", "params", "return_type", "body", "span"] with
  | [name, params, returnType, body, span] =>
    return ⟨← Json.need? Json.str? name, ← Json.need? (Json.list? Param.ofJson?) params,
      ← Json.need? ReturnType.ofJson? returnType,
      ← Json.need? (Json.list? Stmt.ofJson?) body, ← Json.need? Span.ofJson? span⟩
  | _ => none

/-- A program as a JSON value. -/
def Program.toJson (p : Program) : Json :=
  .obj [("functions", .ofList Function.toJson p.functions),
    ("body", .arr (Stmt.blockToJson p.body))]

/-- A program from a JSON value. -/
def Program.ofJson? (j : Json) : Option Program := do
  match ← j.record? ["functions", "body"] with
  | [functions, body] =>
    return ⟨← Json.need? (Json.list? Function.ofJson?) functions,
      ← Json.need? (Json.list? Stmt.ofJson?) body⟩
  | _ => none

/-- A variable as a JSON value. -/
def Symbol.toJson (s : Symbol) : Json :=
  .obj [("name", .str s.name), ("ty", s.type.toJson), ("span", s.span.toJson)]

/-- A variable from a JSON value. -/
def Symbol.ofJson? (j : Json) : Option Symbol := do
  match ← j.record? ["name", "ty", "span"] with
  | [name, type, span] =>
    return ⟨← Json.need? Json.str? name, ← Json.need? (ValueType.ofJson? .outer) type,
      ← Json.need? Span.ofJson? span⟩
  | _ => none

/-- A scope as a JSON value. -/
def Scope.toJson (s : Scope) : Json :=
  .obj [("name", .str s.name), ("symbols", .ofList Symbol.toJson s.symbols)]

/-- A scope from a JSON value. -/
def Scope.ofJson? (j : Json) : Option Scope := do
  match ← j.record? ["name", "symbols"] with
  | [name, symbols] =>
    return ⟨← Json.need? Json.str? name, ← Json.need? (Json.list? Symbol.ofJson?) symbols⟩
  | _ => none

/-- A symbol table as a JSON value. -/
def SymbolTable.toJson (t : SymbolTable) : Json :=
  .obj [("scopes", .ofList Scope.toJson t.scopes)]

/-- A symbol table from a JSON value. -/
def SymbolTable.ofJson? (j : Json) : Option SymbolTable := do
  match ← j.record? ["scopes"] with
  | [scopes] => return ⟨← Json.need? (Json.list? Scope.ofJson?) scopes⟩
  | _ => none

/-- A symbol table and a program as one JSON value. -/
def Program.document (t : SymbolTable) (p : Program) : Json :=
  .obj [("symbols", t.toJson), ("program", p.toJson)]

end Offside
