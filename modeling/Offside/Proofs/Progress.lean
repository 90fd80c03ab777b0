import Mathlib.Logic.Function.Iterate
import Offside.Proofs.Prefix.Simulation

/-!
# Progress of the parser

The parser goes through its tokens with a cursor that only moves on. A reader that gives a result
has moved the cursor by at least one token and not past the end (`Advances`), and this is what ends
the loops.

The readers of the library carry a bound, and a reader that has used it up reports the end of the
tokens. To say that the bound plays no part, each loop is written down once more without it, as what
one turn does with the outcome of the turns after it. Unrolling so many turns leaves the turns after
them open; a loop has ended if its outcome does not depend on what is put there (`Ends`). A loop
that went on forever would fail this, because what is put there would be its outcome. The same is
said of the recursion between statements and blocks (`Readers.AgreeBelow`).

The loop over a module is the one that decides whether a token sequence is accepted: it comes to a
result exactly if its turns lead the cursor from the first token to the end (`Passes`).
-/

namespace Offside.Parser

open Grammar

variable {stop : Span}

/-! ### Readers move the cursor on -/

/-- The tokens left after a reader of statements. -/
abbrev Step.left {α : Type} (x : Step α) : List Token := x.2.2

/-- **A reader moves the cursor on**: started at any position of any token sequence, it leaves the
cursor at a later position that is not past the end, if it gives a result. -/
def Advances {α : Type} (left : α → List Token) (read : List Token → Attempt α) : Prop :=
  ∀ (tokens : List Token) (p : Nat) (x : α), p ≤ tokens.length →
    read (tokens.drop p) = .ok x → ∃ q, p < q ∧ q ≤ tokens.length ∧ left x = tokens.drop q

/-- Tokens that are left after the tokens from a position are those from a later position. -/
theorem exists_drop_of_takes {tokens rest : List Token} {p : Nat} (hp : p ≤ tokens.length)
    (h : Takes (tokens.drop p) rest) : ∃ q, p < q ∧ q ≤ tokens.length ∧ rest = tokens.drop q := by
  obtain ⟨⟨taken, htaken⟩, hlt⟩ := h
  have hlen := congrArg List.length htaken
  rw [List.length_append, List.length_drop] at hlen
  rw [List.length_drop] at hlt
  refine ⟨p + taken.length, by omega, by omega, ?_⟩
  rw [← List.drop_drop, ← htaken, List.drop_left]

/-- Readers that take tokens from the front move the cursor on. -/
theorem advances_of_takes {α : Type} {left : α → List Token} {read : List Token → Attempt α}
    (h : ∀ {ts x}, read ts = .ok x → Takes ts (left x)) : Advances left read :=
  fun _ _ _ hp hread => exists_drop_of_takes hp (h hread)

/-- An operand is one token. -/
theorem operand_takes {ts rest : List Token} {x : Operand}
    (h : operand stop ts = .ok (x, rest)) : Takes ts rest := by
  obtain ⟨t, rfl, -⟩ := operand_eq_ok.mp h
  exact .of_suffix List.suffix_rfl

/-- An expression is derived from the tokens taken (`expression_derives`) and has a first one. -/
theorem expression_takes {ts rest : List Token} {e : Expr}
    (h : expression stop ts = .ok (e, rest)) : Takes ts rest := by
  obtain ⟨pre, rfl, he⟩ := expression_derives h
  obtain ⟨t, us, rfl, -⟩ := he.first
  exact .of_suffix (List.suffix_append _ _)

/-- The arguments of a call are taken up to the closing parenthesis (`arguments_derive`). -/
theorem callTail_takes {name : String} {span : Span} {ts rest : List Token} {c : Call}
    (h : callTail stop name span ts = .ok (c, rest)) : Takes ts rest := by
  obtain ⟨l, us, args, rfl, -, hargs, -⟩ := callTail_eq_ok.mp h
  obtain ⟨pre, rfl, -⟩ := arguments_derive hargs
  exact .of_suffix (List.suffix_append _ _)

/-- A condition is taken with its colon, and so with at least one token. -/
theorem condition_takes {after : String} {ts rest : List Token} {e : Expr}
    (h : condition stop after ts = .ok (e, rest)) : Takes ts rest := by
  obtain ⟨es, c, rfl, -, -⟩ := condition_derives h
  exact Takes.append (.of_suffix List.suffix_rfl)

/-- A function is taken up to the end of its block: by `function_derives` it is derived, and the
tokens of its head are put before those of the block one by one. -/
theorem function_takes {span : Span} {table : SymbolTable} {ts : List Token} {x : Step Function}
    (h : function stop span table ts = .ok x) : Takes ts x.left := by
  obtain ⟨f, table', rest⟩ := x
  obtain ⟨hf, -⟩ := function_derives (d := ⟨.defWord, none, span⟩) rfl h
  cases hf with
  | mk _ _ _ _ _ _ _ hblock => exact hblock.takes.cons.cons.cons.append.cons.cons

/-- A statement takes at least its first token. This and the next two hold under every bound,
because the readers are sound under every bound (`sound`). -/
theorem statement_takes {bound : Nat} {scope : String} {table : SymbolTable} {ts : List Token}
    {x : Step Stmt} (h : statement stop bound scope table ts = .ok x) : Takes ts x.left := by
  obtain ⟨s, table', rest⟩ := x
  exact ((sound stop bound).statement h).1.takes

theorem branches_takes {bound : Nat} {scope : String} {span : Span} {table : SymbolTable}
    {ts : List Token} {x : Step (List Branch)}
    (h : branches stop bound scope span table ts = .ok x) : Takes ts x.left := by
  obtain ⟨bs, table', rest⟩ := x
  exact ((sound stop bound).branches h).1.takes

theorem block_takes {bound : Nat} {scope : String} {table : SymbolTable} {ts : List Token}
    {x : Step (List Stmt)} (h : block stop bound scope table ts = .ok x) : Takes ts x.left := by
  obtain ⟨body, table', rest⟩ := x
  exact ((sound stop bound).block h).1.takes

/-! ### One turn of a loop -/

section Turns

variable (stop)

/-- One item of a list, and the list goes on after a comma. -/
def separatedTurn {α : Type} (item : List Token → Attempt (Reading α))
    (loop : List Token → Attempt (Reading (List α))) (ts : List Token) :
    Attempt (Reading (List α)) := do
  let (x, ts) ← item ts
  let (mark, ts) ← take stop "',' or ')'" ts
  -- the mark decides whether the list goes on
  match mark.kind with
  | .comma =>
    let (xs, ts) ← loop ts
    .ok (x :: xs, ts)
  | .rightParen => .ok ([x], ts)
  | _ => .error (.unexpected mark "expected ',' or ')'")

/-- One value of a print statement, and more may follow after a comma. -/
def printedTurn (loop : List Token → Attempt (Reading (List Expr))) (ts : List Token) :
    Attempt (Reading (List Expr)) :=
  if nextIs .rightParen ts then .ok ([], ts.tail)
  else separatedTurn stop (expression stop) loop ts

/-- One operator of an expression and its operand, and more may follow. -/
def operationsTurn (loop : List Token → Attempt (Reading (List (BinaryOp × Operand)))) :
    List Token → Attempt (Reading (List (BinaryOp × Operand)))
  | [] => .ok ([], [])
  | t :: ts =>
    match BinaryOp.ofKind? t.kind with
    | none => .ok ([], t :: ts)
    | some op => do
      let (x, ts) ← operand stop ts
      let (more, ts) ← loop ts
      .ok ((op, x) :: more, ts)

/-- One line break, function or statement of a module, and the module goes on. -/
def topLevelTurn (loop : List Token → SymbolTable → Attempt (SymbolTable × Program)) :
    List Token → SymbolTable → Attempt (SymbolTable × Program)
  | [], table => .ok (table, .empty)
  | t :: ts, table =>
    match t.kind with
    | .newline => loop ts table
    | .defWord => do
      let (f, table, ts) ← function stop t.span table ts
      let (table, p) ← loop ts table
      .ok (table, { p with functions := f :: p.functions })
    -- at the level of the module there is nothing to step out of
    | .dedent => .error (.unexpected t "unexpected dedent")
    | _ => do
      let (s, table, ts) ← statement stop (budget (t :: ts)) SymbolTable.moduleName table (t :: ts)
      let (table, p) ← loop ts table
      .ok (table, { p with body := s :: p.body })

/-- The values of a print statement with the parentheses around them. -/
def printArgs (ts : List Token) : Attempt (Reading (List Expr)) := do
  let (_, ts) ← expect stop .leftParen "'(' after print" ts
  printed stop (ts.length + 1) ts

/-- The values of a print statement are taken with both parentheses (`printed_derives`). -/
theorem printArgs_takes {stop : Span} {ts rest : List Token} {es : List Expr}
    (h : printArgs stop ts = .ok (es, rest)) : Takes ts rest := by
  obtain ⟨⟨l, us⟩, hl, hes⟩ := bind_eq_ok.mp h
  obtain ⟨rfl, -⟩ := expect_eq_ok.mp hl
  obtain ⟨pre, rfl, -⟩ := printed_derives hes
  exact .of_suffix (List.suffix_append _ _)

/-- The readers that call each other. -/
structure Readers where
  statement : String → SymbolTable → List Token → Attempt (Step Stmt)
  branches : String → Span → SymbolTable → List Token → Attempt (Step (List Branch))
  otherwise : String → SymbolTable → List Token → Attempt (Step (Option (List Stmt)))
  block : String → SymbolTable → List Token → Attempt (Step (List Stmt))
  items : String → SymbolTable → List Token → Attempt (Step (List Stmt))

namespace Readers

/-- A condition with the block that it guards. -/
def condBlock (r : Readers) (after scope : String) (table : SymbolTable) (ts : List Token) :
    Attempt (Step (Expr × List Stmt)) := do
  let (e, ts) ← condition stop after ts
  let (body, table, ts) ← r.block scope table ts
  .ok ((e, body), table, ts)

/-- A conditional after its first word: the branches and then the last block. -/
def ifTail (r : Readers) (scope : String) (span : Span) (table : SymbolTable) (ts : List Token) :
    Attempt (Step (List Branch × Option (List Stmt))) := do
  let (bs, table, ts) ← r.branches scope span table ts
  let (last, table, ts) ← r.otherwise scope table ts
  .ok ((bs, last), table, ts)

/-- A statement, whose blocks are read by the given readers. -/
def statementTurn (r : Readers) (scope : String) (table : SymbolTable) (ts : List Token) :
    Attempt (Step Stmt) := do
  let (t, ts) ← take stop "statement" ts
  match t.kind with
  | .identifier =>
    let (s, table, ts) ← nameStatement stop scope t table ts
    let ts ← endOfStatement ts
    .ok (s, table, ts)
  | .returnWord =>
    let (value, ts) ← returned stop ts
    let ts ← endOfStatement ts
    .ok (.giveBack value t.span, table, ts)
  | .printWord =>
    let (args, ts) ← printArgs stop ts
    let ts ← endOfStatement ts
    .ok (.print args t.span, table, ts)
  | .whileWord =>
    let ((e, body), table, ts) ← r.condBlock stop "':' after while condition" scope table ts
    .ok (.loop e body t.span, table, ts)
  | .ifWord =>
    let ((bs, last), table, ts) ← r.ifTail scope t.span table ts
    .ok (.choose bs last t.span, table, ts)
  | .defWord =>
    .error ⟨.nestedFunction, some t, t.span, "functions can only be defined at module level"⟩
  | .indent => .error (.unexpected t "unexpected indent")
  | _ => .error (.unexpected t "expected a statement")

/-- One branch of a conditional, and more follow after an `elif`. -/
def branchesTurn (r : Readers) (scope : String) (span : Span) (table : SymbolTable)
    (ts : List Token) : Attempt (Step (List Branch)) := do
  let ((e, body), table, ts) ← r.condBlock stop "':' after if condition" scope table ts
  match ts with
  | t :: rest =>
    if t.kind = .elifWord then
      let (more, table, ts) ← r.branches scope t.span table rest
      .ok (.mk e body span :: more, table, ts)
    else .ok ([.mk e body span], table, ts)
  | [] => .ok ([.mk e body span], table, ts)

/-- The last block of a conditional, if there is one. -/
def otherwiseTurn (r : Readers) (scope : String) (table : SymbolTable) (ts : List Token) :
    Attempt (Step (Option (List Stmt))) := do
  if nextIs .elseWord ts then
    let (_, ts) ← expect stop .colon "':' after else" ts.tail
    let (body, table, ts) ← r.block scope table ts
    .ok (some body, table, ts)
  else .ok (none, table, ts)

/-- A block: its first token, and then what stands in it. -/
def blockTurn (r : Readers) (scope : String) (table : SymbolTable) (ts : List Token) :
    Attempt (Step (List Stmt)) := do
  let (_, ts) ← expect stop .indent "indented block" ts
  r.items scope table ts

/-- One line break or statement of a block, and the block goes on. -/
def itemsTurn (r : Readers) (scope : String) (table : SymbolTable) :
    List Token → Attempt (Step (List Stmt))
  | [] => .ok ([], table, [])
  | t :: ts =>
    match t.kind with
    | .dedent => .ok ([], table, ts)
    | .newline => r.items scope table ts
    | _ => do
      let (s, table, ts) ← r.statement scope table (t :: ts)
      let (more, table, ts) ← r.items scope table ts
      .ok (s :: more, table, ts)

/-- One step down: the readers whose parts are read by the given readers. -/
def turn (r : Readers) : Readers where
  statement := r.statementTurn stop
  branches := r.branchesTurn stop
  otherwise := r.otherwiseTurn stop
  block := r.blockTurn stop
  items := r.itemsTurn

/-- The readers under a bound. -/
def bounded (bound : Nat) : Readers where
  statement := Parser.statement stop bound
  branches := Parser.branches stop bound
  otherwise := Parser.otherwise stop bound
  block := Parser.block stop bound
  items := Parser.items stop bound

/-- The readers under the bound that the tokens at hand ask for. -/
def budgeted : Readers where
  statement scope table ts := Parser.statement stop (budget ts) scope table ts
  branches scope span table ts := Parser.branches stop (budget ts) scope span table ts
  otherwise scope table ts := Parser.otherwise stop (budget ts) scope table ts
  block scope table ts := Parser.block stop (budget ts) scope table ts
  items scope table ts := Parser.items stop (budget ts) scope table ts

end Readers

end Turns

/-! ### The loops end -/

/-- **The loop ends**: as many turns as there are tokens, and one more, come to the outcome of the
loop, whatever the turns after them would give. -/
def Ends {β : Type} (turn : (List Token → β) → List Token → β) (loop : List Token → β) : Prop :=
  ∀ (after : List Token → β) (ts : List Token) (n : Nat), ts.length < n →
    turn^[n] after ts = loop ts

/-- A turn leaves fewer tokens to the turns after it. -/
def Descends {β : Type} (turn : (List Token → β) → List Token → β) : Prop :=
  ∀ (f g : List Token → β) (ts : List Token), (∀ us, us.length < ts.length → f us = g us) →
    turn f ts = turn g ts

/-- A loop under a bound, each turn of which descends, ends, and so before the bound. This is the
one argument for all loops; what remains for each of them is `Descends`. -/
theorem Descends.ends {β : Type} {turn : (List Token → β) → List Token → β}
    (h : Descends turn) (loop : Nat → List Token → β)
    (hloop : ∀ bound, loop (bound + 1) = turn (loop bound)) :
    Ends turn fun ts => loop (ts.length + 1) ts := by
  -- the first turn of both is the same, and it leaves fewer tokens to turns of which both have one
  -- less; so what is put after the last turn is never reached
  have key : ∀ n m after ts, ts.length < n → ts.length < m → turn^[n] after ts = loop m ts := by
    intro n
    induction n with
    | zero => intro m after ts hn; omega
    | succ n ih =>
      intro m after ts hn hm
      cases m with
      | zero => omega
      | succ m =>
        rw [Function.iterate_succ_apply', hloop]
        exact h _ _ ts fun us hus => ih m after us (by omega) (by omega)
  exact fun after ts n hn => key n _ after ts hn (Nat.lt_succ_self _)

/-- Two ways to go on from the same attempt agree if they do on what it gives. -/
theorem bind_congr_ok {α β : Type} {x : Attempt α} {f g : α → Attempt β}
    (h : ∀ a, x = .ok a → f a = g a) : (x >>= f) = (x >>= g) := by
  cases x with
  | error e => rfl
  | ok a => exact h a rfl

/-- A list descends if its items take tokens: the item and the mark after it are gone when the list
goes on. -/
theorem separatedTurn_descends {α : Type} {item : List Token → Attempt (Reading α)}
    (hitem : ∀ {ts x rest}, item ts = .ok (x, rest) → rest.length < ts.length) :
    Descends (separatedTurn stop item) := by
  intro f g ts h
  refine bind_congr_ok ?_
  rintro ⟨x, us⟩ hx
  refine bind_congr_ok ?_
  rintro ⟨mark, vs⟩ hm
  obtain rfl := take_eq_ok.mp hm
  -- the item takes a token and the separator another
  have hlt := hitem hx
  rw [List.length_cons] at hlt
  dsimp only
  rw [h vs (by omega)]

/-- The values of a print statement are a list that may end early (`separatedTurn_descends`). -/
theorem printedTurn_descends : Descends (printedTurn stop) := by
  intro f g ts h
  unfold printedTurn
  rw [separatedTurn_descends (fun hx => (expression_takes hx).2) f g ts h]

/-- An operator and its operand are gone when the operations go on (`operand_takes`). -/
theorem operationsTurn_descends : Descends (operationsTurn stop) := by
  intro f g ts h
  cases ts with
  | nil => rfl
  | cons t ts =>
    rw [operationsTurn, operationsTurn]
    cases BinaryOp.ofKind? t.kind with
    | none => rfl
    | some op =>
      -- the operator is one token, and its operand another
      refine bind_congr_ok ?_
      rintro ⟨x, us⟩ hx
      dsimp only
      rw [h us (Nat.lt_succ_of_lt (operand_takes hx).2)]

/-- The operations are read without a bound, by recursion on the tokens. They are a loop all the
same, and every turn of it is `operationsTurn`. -/
theorem operations_eq_turn : operations stop = operationsTurn stop (operations stop) := by
  funext ts
  -- the recursion looks at two tokens, the turn at one after the other
  cases ts with
  | nil => rfl
  | cons t ts =>
    rw [operations, operationsTurn]
    cases BinaryOp.ofKind? t.kind with
    | none => rfl
    | some op =>
      cases ts with
      | nil => rfl
      | cons u ts =>
        dsimp only [operand, take, bind, Except.bind]
        cases operandOf u <;> rfl

/-- With one more turn allowed, the loop over a module does one turn and goes on. -/
theorem topLevel_succ_eq_turn (bound : Nat) :
    (fun ts table => topLevel stop (bound + 1) table ts) =
      topLevelTurn stop fun ts table => topLevel stop bound table ts := by
  funext ts table
  cases ts <;> rfl

/-- Each part of a module takes tokens, by `function_takes` and `statement_takes`. -/
theorem topLevelTurn_descends : Descends (topLevelTurn stop) := by
  intro f g ts h
  funext table
  cases ts with
  | nil => rfl
  | cons t ts =>
    unfold topLevelTurn
    dsimp only
    split
    · -- a line break
      rw [h ts (by simp)]
    · -- a function
      refine bind_congr_ok ?_
      intro x hx
      rw [h x.left (Nat.lt_succ_of_lt (function_takes hx).2)]
    · -- a step out, which is an error
      rfl
    · -- a statement
      refine bind_congr_ok ?_
      intro x hx
      rw [h x.left (statement_takes hx).2]

namespace Readers

/-! ### The recursion between statements and blocks ends -/

/-- A condition, its block and what follows them are three steps in a row. -/
theorem condBlock_bind {β : Type} (r : Readers) (after scope : String) (table : SymbolTable)
    (ts : List Token) (f : Step (Expr × List Stmt) → Attempt β) :
    (r.condBlock stop after scope table ts >>= f) =
      condition stop after ts >>= fun p => r.block scope table p.2 >>= fun q =>
        f ((p.1, q.1), q.2) := by
  unfold condBlock
  cases condition stop after ts with
  | error e => rfl
  | ok p => exact bind_assoc (r.block scope table p.2) _ _

/-- The branches, the last block and what follows them are three steps in a row. -/
theorem ifTail_bind {β : Type} (r : Readers) (scope : String) (span : Span) (table : SymbolTable)
    (ts : List Token) (f : Step (List Branch × Option (List Stmt)) → Attempt β) :
    (r.ifTail scope span table ts >>= f) =
      r.branches scope span table ts >>= fun p => r.otherwise scope p.2.1 p.2.2 >>= fun q =>
        f ((p.1, q.1), q.2) := by
  unfold ifTail
  cases r.branches scope span table ts with
  | error e => rfl
  | ok p => exact bind_assoc (r.otherwise scope p.2.1 p.2.2) _ _

/-- A bound of one more is one step down: the reader of statements under it is `statementTurn` over
the readers under the smaller bound. -/
theorem statement_succ (bound : Nat) :
    Parser.statement stop (bound + 1) = (bounded stop bound).statementTurn stop := by
  funext scope table ts
  cases ts with
  | nil => rfl
  | cons t ts =>
    rw [Parser.statement, statementTurn]
    refine bind_congr_ok ?_
    rintro ⟨u, us⟩ -
    dsimp only
    -- what was put together under names of its own is taken apart again
    rw [condBlock_bind, ifTail_bind]
    unfold printArgs
    rw [bind_assoc]
    rfl

/-- The same of the branches of a conditional. -/
theorem branches_succ (bound : Nat) :
    Parser.branches stop (bound + 1) = (bounded stop bound).branchesTurn stop := by
  funext scope span table ts
  rw [Parser.branches, branchesTurn, condBlock_bind]
  rfl

/-- The same of what stands in a block. -/
theorem items_succ (bound : Nat) :
    Parser.items stop (bound + 1) = (bounded stop bound).itemsTurn := by
  funext scope table ts
  cases ts <;> rfl

/-- All readers take the step together, from `statement_succ`, `branches_succ` and `items_succ`; for
the other two both sides are the same text. -/
theorem bounded_succ (bound : Nat) :
    bounded stop (bound + 1) = (bounded stop bound).turn stop := by
  unfold turn
  rw [← statement_succ, ← branches_succ, ← items_succ]
  rfl

/-- Two collections of readers give the same wherever fewer steps down than `n` are needed. A list
of items or an `else` needs one step more than a statement, which may come first in it. -/
structure AgreeBelow (n : Nat) (r r' : Readers) : Prop where
  statement : ∀ {scope table ts}, 4 * ts.length < n →
    r.statement scope table ts = r'.statement scope table ts
  branches : ∀ {scope span table ts}, 4 * ts.length < n →
    r.branches scope span table ts = r'.branches scope span table ts
  otherwise : ∀ {scope table ts}, 4 * ts.length + 1 < n →
    r.otherwise scope table ts = r'.otherwise scope table ts
  block : ∀ {scope table ts}, 4 * ts.length < n →
    r.block scope table ts = r'.block scope table ts
  items : ∀ {scope table ts}, 4 * ts.length + 1 < n →
    r.items scope table ts = r'.items scope table ts

/-- A condition and its block take tokens (`condition_takes`, `block_takes`). -/
theorem condBlock_takes {bound : Nat} {after scope : String} {table : SymbolTable}
    {ts : List Token} {x : Step (Expr × List Stmt)}
    (h : (bounded stop bound).condBlock stop after scope table ts = .ok x) : Takes ts x.left := by
  obtain ⟨⟨e, us⟩, he, h₁⟩ := bind_eq_ok.mp h
  obtain ⟨⟨body, table', vs⟩, hb, h₂⟩ := bind_eq_ok.mp h₁
  cases h₂
  exact (condition_takes he).trans (block_takes hb).1

/-- So does the rest of a conditional. The last block may be missing; the branches are not. -/
theorem ifTail_takes {bound : Nat} {scope : String} {span : Span} {table : SymbolTable}
    {ts : List Token} {x : Step (List Branch × Option (List Stmt))}
    (h : (bounded stop bound).ifTail scope span table ts = .ok x) : Takes ts x.left := by
  obtain ⟨⟨bs, table₁, us⟩, hbs, h₁⟩ := bind_eq_ok.mp h
  obtain ⟨⟨last, table₂, vs⟩, hlast, h₂⟩ := bind_eq_ok.mp h₁
  cases h₂
  exact (branches_takes hbs).trans ((sound stop bound).otherwise hlast).1.suffix

namespace AgreeBelow

theorem symm {n : Nat} {r r' : Readers} (h : AgreeBelow n r r') : AgreeBelow n r' r where
  statement := fun hn => (h.statement hn).symm
  branches := fun hn => (h.branches hn).symm
  otherwise := fun hn => (h.otherwise hn).symm
  block := fun hn => (h.block hn).symm
  items := fun hn => (h.items hn).symm

theorem trans {n : Nat} {r r' r'' : Readers} (h : AgreeBelow n r r') (h' : AgreeBelow n r' r'') :
    AgreeBelow n r r'' where
  statement := fun hn => (h.statement hn).trans (h'.statement hn)
  branches := fun hn => (h.branches hn).trans (h'.branches hn)
  otherwise := fun hn => (h.otherwise hn).trans (h'.otherwise hn)
  block := fun hn => (h.block hn).trans (h'.block hn)
  items := fun hn => (h.items hn).trans (h'.items hn)

variable {n : Nat} {r : Readers} {scope : String} {span : Span} {table : SymbolTable}
  {ts : List Token}

/-- The condition takes a token, so its block needs fewer steps down. -/
theorem condBlock (h : AgreeBelow n r (bounded stop n)) {after : String}
    (hn : 4 * ts.length < n + 1) :
    r.condBlock stop after scope table ts =
      (bounded stop n).condBlock stop after scope table ts := by
  refine bind_congr_ok ?_
  rintro ⟨e, us⟩ he
  have hlt := (condition_takes he).2
  dsimp only
  rw [h.block (by omega)]

/-- The branches take a token, so the last block needs fewer steps down. -/
theorem ifTail (h : AgreeBelow n r (bounded stop n)) (hn : 4 * ts.length + 1 < n) :
    r.ifTail scope span table ts = (bounded stop n).ifTail scope span table ts := by
  unfold Readers.ifTail
  -- of arbitrary readers it is not known that they leave fewer tokens, but of the bounded ones it
  -- is, and on these tokens the branches are read by them
  rw [h.branches (by omega)]
  refine bind_congr_ok ?_
  rintro ⟨bs, table', us⟩ hbs
  have hlt := (branches_takes hbs).2
  dsimp only
  rw [h.otherwise (by dsimp only [Step.left] at hlt; omega)]

/-- The first word of a statement is taken before any other reader is called. -/
theorem statementTurn (h : AgreeBelow n r (bounded stop n)) (hn : 4 * ts.length < n + 1) :
    r.statementTurn stop scope table ts = (bounded stop n).statementTurn stop scope table ts := by
  refine bind_congr_ok ?_
  rintro ⟨t, us⟩ ht
  obtain rfl := take_eq_ok.mp ht
  rw [List.length_cons] at hn
  dsimp only
  rw [h.condBlock (by omega), h.ifTail (by omega)]

/-- The next branch comes after the condition and the block of this one (`condBlock_takes`). -/
theorem branchesTurn (h : AgreeBelow n r (bounded stop n)) (hn : 4 * ts.length < n + 1) :
    r.branchesTurn stop scope span table ts =
      (bounded stop n).branchesTurn stop scope span table ts := by
  unfold Readers.branchesTurn
  rw [h.condBlock hn]
  refine bind_congr_ok ?_
  rintro ⟨⟨e, body⟩, table', us⟩ hb
  -- a condition and a block use up tokens, so the next branch is below the bound
  have hlt := (condBlock_takes hb).2
  dsimp only [Step.left] at hlt ⊢
  cases us with
  | nil => rfl
  | cons u us =>
    rw [List.length_cons] at hlt
    dsimp only
    rw [h.branches (by omega)]

/-- The block comes after the word and the colon. The step this costs is the one that the bound
allows for more than the length. -/
theorem otherwiseTurn (h : AgreeBelow n r (bounded stop n)) (hn : 4 * ts.length + 1 < n + 1) :
    r.otherwiseTurn stop scope table ts = (bounded stop n).otherwiseTurn stop scope table ts := by
  unfold Readers.otherwiseTurn
  split
  · refine bind_congr_ok ?_
    rintro ⟨c, us⟩ hc
    obtain ⟨hts, -⟩ := expect_eq_ok.mp hc
    -- the word and the colon have been taken, so the block has less before it
    have hlt := congrArg List.length hts
    rw [List.length_tail, List.length_cons] at hlt
    dsimp only
    rw [h.block (by omega)]
  · rfl

/-- What stands in a block comes after the token it begins with. -/
theorem blockTurn (h : AgreeBelow n r (bounded stop n)) (hn : 4 * ts.length < n + 1) :
    r.blockTurn stop scope table ts = (bounded stop n).blockTurn stop scope table ts := by
  refine bind_congr_ok ?_
  rintro ⟨i, us⟩ hi
  obtain ⟨rfl, -⟩ := expect_eq_ok.mp hi
  rw [List.length_cons] at hn
  exact h.items (by omega)

/-- The first statement of a block begins with the first token of the block and takes no token
before; that is why items are given one step more than statements. -/
theorem itemsTurn (h : AgreeBelow n r (bounded stop n)) (hn : 4 * ts.length + 1 < n + 1) :
    r.itemsTurn scope table ts = (bounded stop n).itemsTurn scope table ts := by
  cases ts with
  | nil => rfl
  | cons t ts =>
    rw [Readers.itemsTurn, Readers.itemsTurn, h.statement (by omega)]
    rw [List.length_cons] at hn
    split
    · rfl
    · exact h.items (by omega)
    · refine bind_congr_ok ?_
      rintro ⟨s, table', us⟩ hs
      -- the rest comes after the statement, which takes a token
      have hlt := (statement_takes hs).2
      dsimp only [Step.left, List.length_cons] at hlt ⊢
      rw [h.items (by omega)]

/-- **One step down**: readers that agree with the bounded ones go on agreeing with them when both
take a step. -/
theorem turn (h : AgreeBelow n r (bounded stop n)) :
    AgreeBelow (n + 1) (r.turn stop) (bounded stop (n + 1)) := by
  rw [bounded_succ]
  exact {
    statement := h.statementTurn
    branches := h.branchesTurn
    otherwise := h.otherwiseTurn
    block := h.blockTurn
    items := h.itemsTurn }

end AgreeBelow

/-- Without a step nothing is asked of the readers. -/
theorem agreeBelow_zero (r r' : Readers) : AgreeBelow 0 r r' := by
  constructor <;> (intros; omega)

/-- What the readers do after `n` steps down makes no difference to tokens that need fewer, by
`AgreeBelow.turn` for each step. -/
theorem agreeBelow_iterate (r : Readers) (n : Nat) :
    AgreeBelow n ((turn stop)^[n] r) (bounded stop n) := by
  induction n with
  | zero => exact agreeBelow_zero _ _
  | succ n ih =>
    rw [Function.iterate_succ_apply']
    exact ih.turn

/-- A larger bound makes no difference, again by `AgreeBelow.turn`. -/
theorem agreeBelow_bounded {n m : Nat} (h : n ≤ m) :
    AgreeBelow n (bounded stop m) (bounded stop n) := by
  induction n generalizing m with
  | zero => exact agreeBelow_zero _ _
  | succ n ih =>
    -- the larger bound also allows for one step more than some other one
    obtain ⟨m, rfl⟩ := Nat.exists_eq_add_of_lt h
    have := (ih (Nat.le_add_right n m)).turn
    rwa [← bounded_succ] at this

/-- Two bounds agree below the smaller of them. -/
theorem agreeBelow_min (n m : Nat) :
    AgreeBelow (min n m) (bounded stop n) (bounded stop m) := by
  rcases Nat.le_total n m with h | h
  · rw [Nat.min_eq_left h]
    exact (agreeBelow_bounded h).symm
  · rw [Nat.min_eq_right h]
    exact agreeBelow_bounded h

/-- The bound that the tokens at hand ask for is large enough. -/
theorem agreeBelow_budgeted (n : Nat) : AgreeBelow n (bounded stop n) (budgeted stop) where
  statement := fun h => (agreeBelow_min n (budget _)).statement (by unfold budget; omega)
  branches := fun h => (agreeBelow_min n (budget _)).branches (by unfold budget; omega)
  otherwise := fun h => (agreeBelow_min n (budget _)).otherwise (by unfold budget; omega)
  block := fun h => (agreeBelow_min n (budget _)).block (by unfold budget; omega)
  items := fun h => (agreeBelow_min n (budget _)).items (by unfold budget; omega)

end Readers

/-! ### The loop over a module -/

/-- **Turns of the loop over a module**: from one position and symbol table to another, with what
has been read in between. -/
inductive Passes (stop : Span) (tokens : List Token) :
    Nat → SymbolTable → List Item → Nat → SymbolTable → Prop
  | done {p : Nat} {table : SymbolTable} : Passes stop tokens p table [] p table
  | newline {p q : Nat} {table table' : SymbolTable} {t : Token} {is : List Item} :
    tokens[p]? = some t → t.kind = .newline → Passes stop tokens (p + 1) table is q table' →
      Passes stop tokens p table is q table'
  | function {p r q : Nat} {table table₁ table' : SymbolTable} {t : Token} {f : Function}
      {is : List Item} :
    tokens[p]? = some t → t.kind = .defWord →
      Parser.function stop t.span table (tokens.drop (p + 1)) = .ok (f, table₁, tokens.drop r) →
      r ≤ tokens.length → Passes stop tokens r table₁ is q table' →
      Passes stop tokens p table (.function f :: is) q table'
  | statement {p r q : Nat} {table table₁ table' : SymbolTable} {t : Token} {s : Stmt}
      {is : List Item} :
    tokens[p]? = some t → t.kind ≠ .newline → t.kind ≠ .defWord → t.kind ≠ .dedent →
      Parser.statement stop (budget (tokens.drop p)) SymbolTable.moduleName table
        (tokens.drop p) = .ok (s, table₁, tokens.drop r) →
      r ≤ tokens.length → Passes stop tokens r table₁ is q table' →
      Passes stop tokens p table (.statement s :: is) q table'

/-- A loop that gives a result has gone to the end of the tokens. -/
theorem passes_of_topLevel {bound p : Nat} {tokens : List Token} {table table' : SymbolTable}
    {program : Program} (hp : p ≤ tokens.length)
    (h : topLevel stop bound table (tokens.drop p) = .ok (table', program)) :
    ∃ is, Passes stop tokens p table is tokens.length table' ∧ program = Item.program is := by
  -- on the bound, which is one less in each turn
  induction bound generalizing p table program with
  | zero => simp [topLevel] at h
  | succ bound ih =>
    cases hts : tokens.drop p with
    | nil =>
      have hend : p = tokens.length := Nat.le_antisymm hp (List.drop_eq_nil_iff.mp hts)
      rw [hts] at h
      cases h
      exact ⟨[], hend ▸ .done, rfl⟩
    | cons t ts =>
      have ht : tokens[p]? = some t := by rw [← List.head?_drop, hts, List.head?_cons]
      have hrest : tokens.drop (p + 1) = ts := by rw [← List.tail_drop, hts, List.tail_cons]
      have hlt : p < tokens.length := (List.getElem?_eq_some_iff.mp ht).1
      rw [hts, topLevel] at h
      split at h
      · next hk =>
        rw [← hrest] at h
        obtain ⟨is, his, hprogram⟩ := ih hlt h
        exact ⟨is, .newline ht hk his, hprogram⟩
      · next hk =>
        obtain ⟨⟨f, table₁, us⟩, hf, h₁⟩ := bind_eq_ok.mp h
        obtain ⟨⟨table₂, program₁⟩, hmore, h₂⟩ := bind_eq_ok.mp h₁
        cases h₂
        rw [← hrest] at hf
        obtain ⟨r, -, hr, rfl⟩ := exists_drop_of_takes hlt (function_takes hf)
        obtain ⟨is, his, rfl⟩ := ih hr hmore
        exact ⟨.function f :: is, .function ht hk hf hr his, rfl⟩
      · -- a step out is no result
        cases h
      · next hn hd hdd =>
        obtain ⟨⟨s, table₁, us⟩, hs, h₁⟩ := bind_eq_ok.mp h
        obtain ⟨⟨table₂, program₁⟩, hmore, h₂⟩ := bind_eq_ok.mp h₁
        cases h₂
        rw [← hts] at hs
        obtain ⟨r, -, hr, rfl⟩ := exists_drop_of_takes hp (statement_takes hs)
        obtain ⟨is, his, rfl⟩ := ih hr hmore
        exact ⟨.statement s :: is, .statement ht hn hd hdd hs hr his, rfl⟩

/-- The tokens from a position on begin with the token at it. -/
theorem drop_eq_cons {tokens : List Token} {t : Token} {p : Nat} (h : tokens[p]? = some t) :
    tokens.drop p = t :: tokens.drop (p + 1) := by
  obtain ⟨hlt, rfl⟩ := List.getElem?_eq_some_iff.mp h
  exact List.drop_eq_getElem_cons hlt

/-- Turns that lead to the end of the tokens are a result of the loop. -/
theorem Passes.topLevel {tokens : List Token} {p q : Nat} {table table' : SymbolTable}
    {is : List Item} (h : Passes stop tokens p table is q table') (hq : q = tokens.length)
    {bound : Nat} (hb : tokens.length - p < bound) :
    topLevel stop bound table (tokens.drop p) = .ok (table', Item.program is) := by
  -- each turn takes at least one token, so the bound is not used up before the tokens are
  induction h generalizing bound with
  | done =>
    subst hq
    obtain ⟨bound, rfl⟩ := Nat.exists_eq_add_one.mpr (Nat.zero_lt_of_lt hb)
    rw [List.drop_length]
    rfl
  | @newline p _ _ _ _ _ ht hk _ ih =>
    have hlt : p < tokens.length := (List.getElem?_eq_some_iff.mp ht).1
    obtain ⟨bound, rfl⟩ := Nat.exists_eq_add_one.mpr (Nat.zero_lt_of_lt hb)
    rw [drop_eq_cons ht, Parser.topLevel]
    simp only [hk]
    exact ih hq (by omega)
  | @function p r _ _ _ _ _ _ _ ht hk hf hr _ ih =>
    have hlt : p < tokens.length := (List.getElem?_eq_some_iff.mp ht).1
    obtain ⟨bound, rfl⟩ := Nat.exists_eq_add_one.mpr (Nat.zero_lt_of_lt hb)
    -- the function ends further on, so the bound of the rest is smaller by one at least
    have htakes := (function_takes hf).2
    rw [Step.left, List.length_drop, List.length_drop] at htakes
    rw [drop_eq_cons ht, Parser.topLevel]
    simp only [hk]
    exact bind_eq_ok.mpr ⟨_, hf, bind_eq_ok.mpr ⟨_, ih hq (by omega), rfl⟩⟩
  | @statement p r _ _ _ _ _ _ _ ht hn hd hdd hs hr _ ih =>
    have hlt : p < tokens.length := (List.getElem?_eq_some_iff.mp ht).1
    obtain ⟨bound, rfl⟩ := Nat.exists_eq_add_one.mpr (Nat.zero_lt_of_lt hb)
    have htakes := (statement_takes hs).2
    rw [Step.left, List.length_drop, List.length_drop] at htakes
    rw [drop_eq_cons ht] at hs ⊢
    rw [Expectation.topLevel_statement stop hn hd hdd]
    exact bind_eq_ok.mpr ⟨_, hs, bind_eq_ok.mpr ⟨_, ih hq (by omega), rfl⟩⟩

/-! ### Progress -/

/-- **Every reader moves the cursor on**, under every bound. -/
structure ReadersAdvance (stop : Span) : Prop where
  operand : Advances Prod.snd (operand stop)
  callTail : ∀ name span, Advances Prod.snd (callTail stop name span)
  expression : Advances Prod.snd (expression stop)
  printArgs : Advances Prod.snd (printArgs stop)
  condBlock : ∀ bound after scope table,
    Advances Step.left ((Readers.bounded stop bound).condBlock stop after scope table)
  ifTail : ∀ bound scope span table,
    Advances Step.left ((Readers.bounded stop bound).ifTail scope span table)
  block : ∀ bound scope table, Advances Step.left (block stop bound scope table)
  statement : ∀ bound scope table, Advances Step.left (statement stop bound scope table)
  function : ∀ span table, Advances Step.left (function stop span table)

/-- Each reader advances because it takes tokens (`advances_of_takes`). -/
theorem readersAdvance (stop : Span) : ReadersAdvance stop where
  operand := advances_of_takes operand_takes
  callTail := fun _ _ => advances_of_takes callTail_takes
  expression := advances_of_takes expression_takes
  printArgs := advances_of_takes printArgs_takes
  condBlock := fun _ _ _ _ => advances_of_takes Readers.condBlock_takes
  ifTail := fun _ _ _ _ => advances_of_takes Readers.ifTail_takes
  block := fun _ _ _ => advances_of_takes block_takes
  statement := fun _ _ _ => advances_of_takes statement_takes
  function := fun _ _ => advances_of_takes function_takes

/-- **Every loop ends**, and so does the recursion between statements and blocks. -/
structure LoopsEnd (stop : Span) : Prop where
  arguments : Ends (separatedTurn stop (operand stop)) fun ts =>
    separated stop (operand stop) (ts.length + 1) ts
  params : Ends (separatedTurn stop (param stop)) fun ts =>
    separated stop (param stop) (ts.length + 1) ts
  operations : Ends (operationsTurn stop) (operations stop)
  printed : Ends (printedTurn stop) fun ts => printed stop (ts.length + 1) ts
  nested : ∀ after n,
    Readers.AgreeBelow n ((Readers.turn stop)^[n] after) (Readers.budgeted stop)
  topLevel : Ends (topLevelTurn stop) fun ts table => topLevel stop (ts.length + 1) table ts

/-- Each loop ends because its turns descend (`Descends.ends`); the recursion does because it agrees
with the bounded readers below every number of steps, and they with the budgeted ones. -/
theorem loopsEnd (stop : Span) : LoopsEnd stop where
  arguments := (separatedTurn_descends fun h => (operand_takes h).2).ends
    (separated stop (operand stop)) fun _ => rfl
  params := (separatedTurn_descends fun h => Expectation.param_length stop h).ends
    (separated stop (param stop)) fun _ => rfl
  operations := operationsTurn_descends.ends (fun _ => operations stop) fun _ => operations_eq_turn
  printed := printedTurn_descends.ends (printed stop) fun _ => rfl
  -- the readers that call each other are bounded by one common measure
  nested := fun after n =>
    (Readers.agreeBelow_iterate after n).trans (Readers.agreeBelow_budgeted n)
  topLevel := topLevelTurn_descends.ends (fun bound ts table => topLevel stop bound table ts)
    topLevel_succ_eq_turn

/-- **Progress of the parser.** Every reader that gives a result has moved the cursor on and not
past the end (`readersAdvance`); every loop ends, whatever the tokens are (`loopsEnd`); and a token
sequence is accepted exactly if the turns of the loop over the module lead from its first token to
its end, and then with what these turns have read (`passes_of_topLevel`, `Passes.topLevel`). -/
theorem parse_progress (stop : Span) (tokens : List Token) (table : SymbolTable)
    (program : Program) :
    ReadersAdvance stop ∧ LoopsEnd stop ∧
      (parse tokens = .ok (table, program) ↔
        ∃ is, Passes (stopOf tokens) tokens 0 .empty is tokens.length table ∧
          program = Item.program is) := by
  refine ⟨readersAdvance stop, loopsEnd stop, passes_of_topLevel (Nat.zero_le _), ?_⟩
  rintro ⟨is, his, rfl⟩
  exact his.topLevel rfl (Nat.lt_succ_self _)

end Offside.Parser
