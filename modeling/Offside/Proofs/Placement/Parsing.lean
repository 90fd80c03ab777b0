import Offside.Parser.Statement
import Offside.Proofs.Placement.Trees

/-!
# Parsing at other positions

The parser looks at the kinds and the values of tokens, and only writes down their positions. So it
does the same on tokens at other positions, also where it fails: with every position replaced by
another, it comes to the same table and the same tree, or to the same error, with their positions
replaced likewise (`Parser.parse_moved`).

Each reader is followed by itself at the other positions (`Follows`), and readers in sequence follow
readers in sequence (`Follows.bind`), so there is one short lemma for each reader. The end of the
tokens is one more position, the `stop` that all readers carry.
-/

namespace Offside

/-! ### Tokens, tables and errors at other positions -/

/-- The token at another position. -/
def Token.moved (g : Span → Span) (t : Token) : Token := { t with span := g t.span }

@[simp] theorem Token.moved_kind (g : Span → Span) (t : Token) : (t.moved g).kind = t.kind := rfl

@[simp] theorem Token.moved_value (g : Span → Span) (t : Token) : (t.moved g).value = t.value := rfl

@[simp] theorem Token.moved_span (g : Span → Span) (t : Token) : (t.moved g).span = g t.span := rfl

@[simp] theorem Token.moved_name? (g : Span → Span) (t : Token) : (t.moved g).name? = t.name? := rfl

/-- A scope with the positions of its variables replaced. -/
def Scope.moved (g : Span → Span) (s : Scope) : Scope :=
  { s with symbols := s.symbols.map (Symbol.moved g) }

/-- A symbol table with its positions replaced. -/
def SymbolTable.moved (g : Span → Span) (t : SymbolTable) : SymbolTable :=
  ⟨t.scopes.map (Scope.moved g)⟩

/-- A program with its positions replaced. -/
def Program.moved (g : Span → Span) (p : Program) : Program :=
  ⟨p.functions.map (Function.moved g), p.body.map (Stmt.moved g)⟩

/-- The error at another position. The token that it names is moved along. -/
def GrammarError.moved (g : Span → Span) (e : GrammarError) : GrammarError :=
  { e with token := e.token.map (Token.moved g), span := g e.span }

namespace SymbolTable

/-- Scopes are found by their names, so the same ones are found. -/
theorem symbols_moved (g : Span → Span) (t : SymbolTable) (scope : String) :
    (t.moved g).symbols scope = (t.symbols scope).map (Symbol.moved g) := by
  have hscope : (t.moved g).scope? scope = (t.scope? scope).map (Scope.moved g) := List.find?_map
  rw [symbols, symbols, hscope]
  cases t.scope? scope <;> rfl

/-- A conflict is one of names, types aside from positions, and so the same symbol is in the way. -/
theorem conflict?_moved (g : Span → Span) (t : SymbolTable) (scope : String) (symbol : Symbol) :
    (t.moved g).conflict? scope (symbol.moved g) =
      (t.conflict? scope symbol).map (Symbol.moved g) := by
  rw [conflict?, symbols_moved, List.find?_map]
  rfl

/-- A symbol goes to the same place among the scopes. -/
theorem insert_moved (g : Span → Span) (scope : String) (symbol : Symbol) (scopes : List Scope) :
    insert scope (symbol.moved g) (scopes.map (Scope.moved g)) =
      (insert scope symbol scopes).map (Scope.moved g) := by
  induction scopes with
  | nil => rfl
  | cons s scopes ih =>
    by_cases hs : s.name == scope
    · simp [insert, Scope.moved, hs]
    · simpa [insert, Scope.moved, hs] using ih

/-- A declaration succeeds at other positions exactly if it does here, with the same symbol in its
way if not (`conflict?_moved`), and then extends the table alike (`insert_moved`). -/
theorem declare_moved (g : Span → Span) (t : SymbolTable) (scope : String) (symbol : Symbol) :
    (t.moved g).declare scope (symbol.moved g) =
      ((t.declare scope symbol).map (SymbolTable.moved g)).mapError (Symbol.moved g) := by
  -- a conflict is decided by names and types alone
  rw [declare, declare, conflict?_moved]
  cases t.conflict? scope symbol with
  | some previous => rfl
  | none =>
    show Except.ok (SymbolTable.mk (insert scope (symbol.moved g) (t.scopes.map _))) = _
    rw [insert_moved]
    rfl

end SymbolTable

namespace Parser

variable {g : Span → Span} {stop : Span} {α β : Type}

/-! ### Readers that follow each other -/

/-- **One reader follows another**: it fails with the moved error, or it gives the moved result. -/
def Follows (g : Span → Span) (move : α → α) (x y : Attempt α) : Prop :=
  y = (x.map move).mapError (GrammarError.moved g)

/-- What a reader gives at other positions. -/
abbrev Reading.moved (g : Span → Span) (move : α → α) : Reading α → Reading α :=
  Prod.map move (List.map (Token.moved g))

/-- What a reader of statements gives at other positions. -/
abbrev Step.moved (g : Span → Span) (move : α → α) : Step α → Step α :=
  Prod.map move (Prod.map (SymbolTable.moved g) (List.map (Token.moved g)))

/-- Readers in sequence follow readers in sequence. What comes second is only asked about the moved
results of what comes first. -/
theorem Follows.bind {move : α → α} {move' : β → β} {x y : Attempt α} {f f' : α → Attempt β}
    (hx : Follows g move x y) (hf : ∀ a, Follows g move' (f a) (f' (move a))) :
    Follows g move' (x >>= f) (y >>= f') := by
  cases hx
  cases x with
  | error e => rfl
  | ok a => exact hf a

/-- A reader that succeeds is followed by one that gives the moved result. -/
theorem follows_ok {move : α → α} {a b : α} (h : b = move a) :
    Follows g move (.ok a) (.ok b) := by
  rw [h]
  rfl

/-- A reader that fails is followed by one that fails with the moved error. -/
theorem follows_error {move : α → α} {e e' : GrammarError} (h : e' = e.moved g) :
    Follows g move (.error e) (.error e') := by
  rw [h]
  rfl

/-! ### Single tokens -/

/-- Looking at the kind of the next token does not see its position. -/
theorem nextIs_moved (g : Span → Span) (kind : Token.Kind) (ts : List Token) :
    nextIs kind (ts.map (Token.moved g)) = nextIs kind ts := by
  cases ts <;> rfl

/-- Where there is no token left, the error is placed at the end of the tokens, which has moved to
`g stop`. -/
theorem take_follows (expected : String) (ts : List Token) :
    Follows g (Reading.moved g (Token.moved g)) (take stop expected ts)
      (take (g stop) expected (ts.map (Token.moved g))) := by
  cases ts with
  | nil => exact follows_error rfl
  | cons t ts => exact follows_ok rfl

/-- A token of a given kind, or an error that names the token found instead (`take_follows`). -/
theorem expect_follows (kind : Token.Kind) (expected : String) (ts : List Token) :
    Follows g (Reading.moved g (Token.moved g)) (expect stop kind expected ts)
      (expect (g stop) kind expected (ts.map (Token.moved g))) := by
  refine (take_follows expected ts).bind ?_
  rintro ⟨t, us⟩
  -- the kind of a moved token is its kind
  change Follows g _ (if t.kind = kind then _ else _) (if t.kind = kind then _ else _)
  split
  · exact follows_ok rfl
  · exact follows_error rfl

/-- A name comes with its position, which is moved along. -/
theorem expectName_follows (expected : String) (ts : List Token) :
    Follows g (Reading.moved g (Prod.map id g)) (expectName stop expected ts)
      (expectName (g stop) expected (ts.map (Token.moved g))) := by
  refine (expect_follows _ expected ts).bind ?_
  rintro ⟨t, us⟩
  simp only [Prod.map, Token.moved_name?]
  cases t.name? with
  | none => exact follows_error rfl
  | some name => exact follows_ok rfl

/-- A type has no position of its own. -/
theorem valueType_follows (expected : String) (ts : List Token) :
    Follows g (Reading.moved g id) (valueType stop expected ts)
      (valueType (g stop) expected (ts.map (Token.moved g))) := by
  refine (take_follows expected ts).bind ?_
  rintro ⟨t, us⟩
  simp only [Prod.map, Token.moved_kind]
  cases ValueType.ofKind? t.kind with
  | none => exact follows_error rfl
  | some type => exact follows_ok rfl

/-- Nor has the type after an arrow. -/
theorem returnType_follows (ts : List Token) :
    Follows g (Reading.moved g id) (returnType stop ts)
      (returnType (g stop) (ts.map (Token.moved g))) := by
  refine (take_follows _ ts).bind ?_
  rintro ⟨t, us⟩
  simp only [Prod.map, Token.moved_kind]
  cases ReturnType.ofKind? t.kind with
  | none => exact follows_error rfl
  | some type => exact follows_ok rfl

/-! ### Expressions and lists -/

/-- An operand is its token, and the error at one that is none is placed at it. -/
theorem operandOf_follows (t : Token) :
    Follows g id (operandOf t) (operandOf (t.moved g)) := by
  unfold operandOf
  simp only [Token.moved_kind, Token.moved_value]
  split
  -- the fifth case is that of all tokens that are no operand
  case h_5 => exact follows_error rfl
  all_goals exact follows_ok rfl

/-- An operand is read like a token (`take_follows`) and then looked at (`operandOf_follows`). -/
theorem operand_follows (ts : List Token) :
    Follows g (Reading.moved g id) (operand stop ts)
      (operand (g stop) (ts.map (Token.moved g))) := by
  refine (take_follows _ ts).bind ?_
  rintro ⟨t, us⟩
  exact (operandOf_follows t).bind fun x => follows_ok rfl

/-- The operators and operands after the first one, by the recursion of the reader. -/
theorem operations_follows (ts : List Token) :
    Follows g (Reading.moved g id) (operations stop ts)
      (operations (g stop) (ts.map (Token.moved g))) := by
  -- the cases are those of the reader: no token, no operator, an operator at the end, a pair
  fun_induction operations stop ts with
  | case1 => exact follows_ok rfl
  | case2 t ts hk =>
    rw [List.map_cons, operations, Token.moved_kind, hk]
    exact follows_ok rfl
  | case3 t op hk =>
    rw [List.map_cons, operations, Token.moved_kind, hk]
    exact follows_error rfl
  | case4 t op hk u ts ih =>
    rw [List.map_cons, List.map_cons, operations, Token.moved_kind, hk]
    refine (operandOf_follows u).bind fun x => ih.bind ?_
    rintro ⟨more, us⟩
    exact follows_ok rfl

/-- A list follows if its items do, under every bound: both lists use up the same number of turns.
-/
theorem separated_follows {item item' : List Token → Attempt (Reading α)}
    (hitem : ∀ ts, Follows g (Reading.moved g id) (item ts) (item' (ts.map (Token.moved g))))
    (bound : Nat) (ts : List Token) :
    Follows g (Reading.moved g id) (separated stop item bound ts)
      (separated (g stop) item' bound (ts.map (Token.moved g))) := by
  induction bound generalizing ts with
  | zero => exact follows_error rfl
  | succ bound ih =>
    refine (hitem ts).bind ?_
    rintro ⟨x, us⟩
    refine (take_follows _ us).bind ?_
    rintro ⟨mark, vs⟩
    simp only [Prod.map, Token.moved_kind]
    -- the two kinds that are expected after an item, and all the others
    cases mark.kind
    case comma =>
      refine (ih vs).bind ?_
      rintro ⟨xs, ws⟩
      exact follows_ok rfl
    case rightParen => exact follows_ok rfl
    all_goals exact follows_error rfl

/-- A list in parentheses, which may be empty. Both are read under the same bound, since there are
as many tokens (`separated_follows`). -/
theorem listed_follows {item item' : List Token → Attempt (Reading α)}
    (hitem : ∀ ts, Follows g (Reading.moved g id) (item ts) (item' (ts.map (Token.moved g))))
    (ts : List Token) :
    Follows g (Reading.moved g id) (listed stop item ts)
      (listed (g stop) item' (ts.map (Token.moved g))) := by
  unfold listed
  rw [nextIs_moved, List.length_map]
  split
  · exact follows_ok (by rw [← List.map_tail]; rfl)
  · exact separated_follows hitem _ ts

/-- The arguments of a call; the position of the call is that of its name. -/
theorem callTail_follows (name : String) (span : Span) (ts : List Token) :
    Follows g (Reading.moved g (Call.moved g)) (callTail stop name span ts)
      (callTail (g stop) name (g span) (ts.map (Token.moved g))) := by
  refine (expect_follows _ _ ts).bind ?_
  rintro ⟨l, us⟩
  refine (listed_follows operand_follows us).bind ?_
  rintro ⟨args, vs⟩
  exact follows_ok rfl

/-- Whether a call comes next is seen from two kinds. -/
theorem callNext_moved (g : Span → Span) (ts : List Token) :
    callNext (ts.map (Token.moved g)) = callNext ts := by
  rw [callNext, ← List.map_tail, nextIs_moved, nextIs_moved]
  rfl

/-- An expression is a call (`callTail_follows`) or operands with operators between them
(`operand_follows`, `operations_follows`), and which of them is seen from the kinds. -/
theorem expression_follows (ts : List Token) :
    Follows g (Reading.moved g (Expr.moved g)) (expression stop ts)
      (expression (g stop) (ts.map (Token.moved g))) := by
  unfold expression
  rw [callNext_moved, nextIs_moved]
  split
  · refine (expectName_follows _ ts).bind ?_
    rintro ⟨⟨name, span⟩, us⟩
    refine (callTail_follows name span us).bind ?_
    rintro ⟨call, vs⟩
    exact follows_ok rfl
  · dsimp only
    -- the sign in front may be skipped before or after moving
    rw [← List.map_tail, ← apply_ite (List.map (Token.moved g))]
    refine (operand_follows _).bind ?_
    rintro ⟨first, us⟩
    refine (operations_follows us).bind ?_
    rintro ⟨rest, vs⟩
    exact follows_ok rfl

/-- A parameter: its name, a colon and a type. -/
theorem param_follows (ts : List Token) :
    Follows g (Reading.moved g id) (param stop ts) (param (g stop) (ts.map (Token.moved g))) := by
  refine (expectName_follows _ ts).bind ?_
  rintro ⟨⟨name, span⟩, us⟩
  refine (expect_follows _ _ us).bind ?_
  rintro ⟨c, vs⟩
  refine (valueType_follows _ vs).bind ?_
  rintro ⟨type, ws⟩
  exact follows_ok rfl

/-! ### Statements on one line -/

/-- Declaring a variable where a statement is read. The error names the symbol in the way, at its
own moved position (`SymbolTable.declare_moved`). -/
theorem declare_follows (scope : String) (t : Token) (name : String) (type : ValueType)
    (table : SymbolTable) :
    Follows g (SymbolTable.moved g) (declare scope t name type table)
      (declare scope (t.moved g) name type (table.moved g)) := by
  have hdeclare : (table.moved g).declare scope ⟨name, type, (t.moved g).span⟩ = _ :=
    SymbolTable.declare_moved g table scope ⟨name, type, t.span⟩
  unfold declare
  rw [hdeclare]
  cases table.declare scope ⟨name, type, t.span⟩ with
  | ok u => exact follows_ok rfl
  | error previous => exact follows_error rfl

/-- The end of a statement is seen from the kind of the next token. -/
theorem atEnd_moved (g : Span → Span) (ts : List Token) :
    atEnd (ts.map (Token.moved g)) = atEnd ts := by
  rw [atEnd, atEnd, nextIs_moved, nextIs_moved, List.isEmpty_map]

/-- What ends a statement is taken or left alike. -/
theorem endOfStatement_follows (ts : List Token) :
    Follows g (List.map (Token.moved g)) (endOfStatement ts)
      (endOfStatement (ts.map (Token.moved g))) := by
  cases ts with
  | nil => exact follows_ok rfl
  | cons t ts =>
    simp only [List.map_cons, endOfStatement, Token.moved_kind]
    cases t.kind
    case dedent => exact follows_ok rfl
    case newline => exact follows_ok rfl
    all_goals exact follows_error rfl

/-- The values of a print statement, by induction on the bound as for `separated_follows`; they may
end after a comma, which that reader does not allow. -/
theorem printed_follows (bound : Nat) (ts : List Token) :
    Follows g (Reading.moved g (List.map (Expr.moved g))) (printed stop bound ts)
      (printed (g stop) bound (ts.map (Token.moved g))) := by
  induction bound generalizing ts with
  | zero => exact follows_error rfl
  | succ bound ih =>
    unfold printed
    rw [nextIs_moved]
    split
    · exact follows_ok (by rw [← List.map_tail]; rfl)
    · refine (expression_follows ts).bind ?_
      rintro ⟨x, us⟩
      refine (take_follows _ us).bind ?_
      rintro ⟨mark, vs⟩
      simp only [Prod.map, Token.moved_kind]
      -- the kinds are the same, so both take the same branch
      cases mark.kind
      case comma =>
        refine (ih vs).bind ?_
        rintro ⟨xs, ws⟩
        exact follows_ok rfl
      case rightParen => exact follows_ok rfl
      all_goals exact follows_error rfl

/-- A statement that begins with a name. The next token tells the three forms apart, and all readers
called from here on follow. -/
theorem nameStatement_follows (scope : String) (t : Token) (table : SymbolTable)
    (ts : List Token) :
    Follows g (Step.moved g (Stmt.moved g)) (nameStatement stop scope t table ts)
      (nameStatement (g stop) scope (t.moved g) (table.moved g) (ts.map (Token.moved g))) := by
  unfold nameStatement
  simp only [nextIs_moved, Token.moved_name?, Token.moved_span, ← List.map_tail]
  split
  · -- a declaration, with a value or without
    refine (valueType_follows _ _).bind ?_
    rintro ⟨type, us⟩
    refine (declare_follows scope t _ type table).bind fun table' => ?_
    simp only [Prod.map, nextIs_moved, id, ← List.map_tail]
    split
    · refine (expression_follows _).bind ?_
      rintro ⟨value, vs⟩
      exact follows_ok rfl
    · exact follows_ok rfl
  · split
    · refine (expression_follows _).bind ?_
      rintro ⟨value, us⟩
      exact follows_ok rfl
    · split
      · -- a call
        refine (callTail_follows _ _ _).bind ?_
        rintro ⟨call, us⟩
        exact follows_ok rfl
      · -- none of them: the error is placed at the token after the name
        refine (take_follows _ _).bind ?_
        rintro ⟨next, us⟩
        exact follows_error rfl

/-- What a statement gives back, if anything. -/
theorem returned_follows (ts : List Token) :
    Follows g (Reading.moved g (Option.map (Expr.moved g))) (returned stop ts)
      (returned (g stop) (ts.map (Token.moved g))) := by
  unfold returned
  rw [atEnd_moved]
  split
  · exact follows_ok rfl
  · refine (expression_follows ts).bind ?_
    rintro ⟨value, us⟩
    exact follows_ok rfl

/-- A condition with its colon. -/
theorem condition_follows (after : String) (ts : List Token) :
    Follows g (Reading.moved g (Expr.moved g)) (condition stop after ts)
      (condition (g stop) after (ts.map (Token.moved g))) := by
  refine (expression_follows ts).bind ?_
  rintro ⟨e, us⟩
  refine (expect_follows _ _ us).bind ?_
  rintro ⟨c, vs⟩
  exact follows_ok rfl

/-! ### Statements and blocks -/

/-- Under a bound, the readers of statements follow themselves at other positions. -/
structure Following (g : Span → Span) (stop : Span) (bound : Nat) : Prop where
  statement : ∀ scope table ts, Follows g (Step.moved g (Stmt.moved g))
    (statement stop bound scope table ts)
    (statement (g stop) bound scope (table.moved g) (ts.map (Token.moved g)))
  branches : ∀ scope span table ts, Follows g (Step.moved g (Stmt.movedBranches g))
    (branches stop bound scope span table ts)
    (branches (g stop) bound scope (g span) (table.moved g) (ts.map (Token.moved g)))
  otherwise : ∀ scope table ts, Follows g (Step.moved g (Option.map (Stmt.movedBlock g)))
    (otherwise stop bound scope table ts)
    (otherwise (g stop) bound scope (table.moved g) (ts.map (Token.moved g)))
  block : ∀ scope table ts, Follows g (Step.moved g (Stmt.movedBlock g))
    (block stop bound scope table ts)
    (block (g stop) bound scope (table.moved g) (ts.map (Token.moved g)))
  items : ∀ scope table ts, Follows g (Step.moved g (Stmt.movedBlock g))
    (items stop bound scope table ts)
    (items (g stop) bound scope (table.moved g) (ts.map (Token.moved g)))

section Step

variable {bound : Nat} (ih : Following g stop bound) (scope : String) (table : SymbolTable)
  (ts : List Token)

include ih

/-- A statement, given that its parts follow under the smaller bound. -/
theorem statement_follows :
    Follows g (Step.moved g (Stmt.moved g)) (statement stop (bound + 1) scope table ts)
      (statement (g stop) (bound + 1) scope (table.moved g) (ts.map (Token.moved g))) := by
  unfold statement
  refine (take_follows _ ts).bind ?_
  rintro ⟨t, us⟩
  simp only [Prod.map, Token.moved_kind]
  -- three statements of one line, two with blocks, and words that begin no statement
  cases t.kind
  case identifier =>
    refine (nameStatement_follows scope t table us).bind ?_
    rintro ⟨s, table', vs⟩
    exact (endOfStatement_follows vs).bind fun ws => follows_ok rfl
  case returnWord =>
    refine (returned_follows us).bind ?_
    rintro ⟨value, vs⟩
    exact (endOfStatement_follows vs).bind fun ws => follows_ok rfl
  case printWord =>
    refine (expect_follows _ _ us).bind ?_
    rintro ⟨l, vs⟩
    simp only [Prod.map, List.length_map]
    refine (printed_follows _ vs).bind ?_
    rintro ⟨args, ws⟩
    exact (endOfStatement_follows ws).bind fun xs => follows_ok rfl
  case whileWord =>
    refine (condition_follows _ us).bind ?_
    rintro ⟨e, vs⟩
    refine (ih.block scope table vs).bind ?_
    rintro ⟨body, table', ws⟩
    exact follows_ok rfl
  case ifWord =>
    refine (ih.branches scope t.span table us).bind ?_
    rintro ⟨bs, table', vs⟩
    refine (ih.otherwise scope table' vs).bind ?_
    rintro ⟨last, table'', ws⟩
    -- whether there is a last block decides the form of the tree
    exact follows_ok (Prod.ext (Stmt.moved_choose g bs last t.span).symm rfl)
  all_goals exact follows_error rfl

/-- The branches of a conditional. Each has the position of the word in front of it, so that of the
next is moved along. -/
theorem branches_follow (span : Span) :
    Follows g (Step.moved g (Stmt.movedBranches g)) (branches stop (bound + 1) scope span table ts)
      (branches (g stop) (bound + 1) scope (g span) (table.moved g)
        (ts.map (Token.moved g))) := by
  unfold branches
  refine (condition_follows _ ts).bind ?_
  rintro ⟨e, us⟩
  refine (ih.block scope table us).bind ?_
  rintro ⟨body, table', vs⟩
  cases vs with
  | nil => exact follows_ok rfl
  | cons t rest =>
    simp only [Prod.map, List.map_cons, Token.moved_kind]
    split
    · -- the place of a further branch is that of its word
      refine (ih.branches scope t.span table' rest).bind ?_
      rintro ⟨more, table'', ws⟩
      exact follows_ok rfl
    · exact follows_ok rfl

/-- The last block of a conditional, if the next word says there is one. -/
theorem otherwise_follows :
    Follows g (Step.moved g (Option.map (Stmt.movedBlock g)))
      (otherwise stop (bound + 1) scope table ts)
      (otherwise (g stop) (bound + 1) scope (table.moved g) (ts.map (Token.moved g))) := by
  unfold otherwise
  rw [nextIs_moved, ← List.map_tail]
  split
  · refine (expect_follows _ _ _).bind ?_
    rintro ⟨c, us⟩
    refine (ih.block scope table us).bind ?_
    rintro ⟨body, table', vs⟩
    exact follows_ok rfl
  · exact follows_ok rfl

/-- A block: the token that opens it, and what stands in it. -/
theorem block_follows :
    Follows g (Step.moved g (Stmt.movedBlock g)) (block stop (bound + 1) scope table ts)
      (block (g stop) (bound + 1) scope (table.moved g) (ts.map (Token.moved g))) := by
  unfold block
  refine (expect_follows _ _ ts).bind ?_
  rintro ⟨i, us⟩
  exact ih.items scope table us

/-- What stands in a block, line breaks and statements, up to the token that closes it. -/
theorem items_follow :
    Follows g (Step.moved g (Stmt.movedBlock g)) (items stop (bound + 1) scope table ts)
      (items (g stop) (bound + 1) scope (table.moved g) (ts.map (Token.moved g))) := by
  cases ts with
  | nil => exact follows_ok rfl
  | cons t ts =>
    simp only [List.map_cons, items, Token.moved_kind]
    -- the parser decides on the kind alone, and moving keeps it
    cases t.kind
    case dedent => exact follows_ok rfl
    case newline => exact ih.items scope table ts
    all_goals
      refine (ih.statement scope table (t :: ts)).bind ?_
      rintro ⟨s, table', us⟩
      refine (ih.items scope table' us).bind ?_
      rintro ⟨more, table'', vs⟩
      exact follows_ok rfl

end Step

/-- **All readers of statements follow themselves**, under every bound: with none left they all fail
alike, and one more is given by the lemmas of this section. -/
theorem following (g : Span → Span) (stop : Span) (bound : Nat) : Following g stop bound := by
  induction bound with
  -- at the bound zero every reader stops with the same error
  | zero =>
    constructor
    all_goals
      intros
      exact follows_error rfl
  | succ bound ih =>
    exact ⟨statement_follows ih, fun scope span table ts => branches_follow ih scope table ts span,
      otherwise_follows ih, block_follows ih, items_follow ih⟩

/-! ### Modules -/

/-- A function: its head part by part, and its block under the bound that the tokens left ask for,
of which there are as many (`following`). -/
theorem function_follows (span : Span) (table : SymbolTable) (ts : List Token) :
    Follows g (Step.moved g (Function.moved g)) (function stop span table ts)
      (function (g stop) (g span) (table.moved g) (ts.map (Token.moved g))) := by
  refine (expectName_follows _ ts).bind ?_
  rintro ⟨⟨name, nameSpan⟩, us⟩
  refine (expect_follows _ _ us).bind ?_
  rintro ⟨l, vs⟩
  refine (listed_follows param_follows vs).bind ?_
  rintro ⟨params, ws⟩
  refine (expect_follows _ _ ws).bind ?_
  rintro ⟨a, xs⟩
  refine (returnType_follows xs).bind ?_
  rintro ⟨type, ys⟩
  refine (expect_follows _ _ ys).bind ?_
  rintro ⟨c, zs⟩
  -- the budget depends on the number of tokens only
  simp only [Prod.map, budget, List.length_map, id]
  refine ((following g stop _).block name table zs).bind ?_
  rintro ⟨body, table', rest⟩
  exact follows_ok (Prod.ext (by simp only [Prod.map, Function.moved, Stmt.movedBlock_eq]) rfl)

/-- The parts of a module one after the other, by induction on the bound. -/
theorem topLevel_follows (bound : Nat) (table : SymbolTable) (ts : List Token) :
    Follows g (Prod.map (SymbolTable.moved g) (Program.moved g)) (topLevel stop bound table ts)
      (topLevel (g stop) bound (table.moved g) (ts.map (Token.moved g))) := by
  induction bound generalizing table ts with
  | zero => exact follows_error rfl
  | succ bound ih =>
    cases ts with
    | nil => exact follows_ok rfl
    | cons t ts =>
      simp only [List.map_cons, topLevel, Token.moved_kind, budget, List.length_cons,
        List.length_map]
      cases t.kind
      case newline => exact ih table ts
      case defWord =>
        refine (function_follows t.span table ts).bind ?_
        rintro ⟨f, table', us⟩
        refine (ih table' us).bind ?_
        rintro ⟨table'', p⟩
        exact follows_ok rfl
      case dedent => exact follows_error rfl
      -- any other word begins a statement
      all_goals
        refine ((following g stop _).statement _ table (t :: ts)).bind ?_
        rintro ⟨s, table', us⟩
        refine (ih table' us).bind ?_
        rintro ⟨table'', p⟩
        exact follows_ok rfl

/-- The end of the tokens is the position of the last one. If there is none, it does not move, so
the empty sequence is left out here. -/
theorem stopOf_moved (g : Span → Span) {ts : List Token} (h : ts ≠ []) :
    stopOf (ts.map (Token.moved g)) = g (stopOf ts) := by
  rw [stopOf, stopOf, List.getLast?_map, List.getLast?_eq_some_getLast h]
  rfl

/-- **Tokens at other positions are parsed alike**: to the same table and tree, or to the same
error, at the other positions (`topLevel_follows`). Without tokens there is nothing to move, and for
the others the end of the tokens moves with the last one (`stopOf_moved`). -/
theorem parse_moved (g : Span → Span) (ts : List Token) :
    parse (ts.map (Token.moved g)) =
      ((parse ts).map (Prod.map (SymbolTable.moved g) (Program.moved g))).mapError
        (GrammarError.moved g) := by
  cases ts with
  | nil => rfl
  | cons t ts =>
    rw [parse, stopOf_moved g (List.cons_ne_nil t ts), List.length_map]
    exact topLevel_follows _ .empty (t :: ts)

end Parser

end Offside
