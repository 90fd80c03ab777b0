import Offside.Proofs.Grammar.Lines

/-!
# What the readers report

All errors of the readers below the level of the module, listed once: tokens that end too early, a
token that does not fit, a variable with two types, and a function in a block. An error that names a
token stands where the token does, and one that names none stands at the end.

A token that closes a block is `unexpectedDedent` only at the level of the module. No other error
has the same wording.
-/

namespace Offside.Parser

/-- The error for a token that closes a block where no block is open. -/
def unexpectedDedent (t : Token) : GrammarError := .unexpected t "unexpected dedent"

/-- **The errors of the readers** below the level of the module. -/
inductive Reported (stop : Span) : GrammarError → Prop
  | ended (message : String) : Reported stop (.unexpectedEnd stop message)
  | token (t : Token) {message : String} : message ≠ "unexpected dedent" →
    Reported stop (.unexpected t message)
  | conflict (t : Token) (name : String) (previous declared : ValueType) :
    Reported stop (conflict t name previous declared)
  | nested (t : Token) (message : String) :
    Reported stop ⟨.nestedFunction, some t, t.span, message⟩

/-- If the reader fails, then with one of these errors. -/
def Reports (stop : Span) {α : Type} (x : Attempt α) : Prop :=
  ∀ e, x = .error e → Reported stop e

variable {stop : Span} {α β : Type}

/-- None of these errors is the one for a token that closes a block, by its wording or by its kind.
-/
theorem Reported.ne_unexpectedDedent {e : GrammarError} (h : Reported stop e) (t : Token) :
    e ≠ unexpectedDedent t := by
  intro heq
  cases h with
  | ended message => cases heq
  | token u hmessage => exact hmessage (congrArg GrammarError.message heq)
  | conflict u name previous declared => cases heq
  | nested u message => cases heq

/-- A reader that gives a result reports nothing. -/
theorem reports_ok (a : α) : Reports stop (.ok a : Attempt α) := by
  intro e he
  cases he

/-- A reader that fails with one of the errors. -/
theorem reports_error {e : GrammarError} (h : Reported stop e) :
    Reports stop (.error e : Attempt α) := by
  intro e' he
  cases he
  exact h

/-- A sequence of two steps fails exactly if one of them does. -/
theorem bind_eq_error {x : Attempt α} {f : α → Attempt β} {e : GrammarError} :
    (x >>= f) = .error e ↔ x = .error e ∨ ∃ a, x = .ok a ∧ f a = .error e := by
  cases x <;> simp [bind, Except.bind]

/-- A reader in two steps reports what its steps report. -/
theorem reports_bind {x : Attempt α} {f : α → Attempt β} (hx : Reports stop x)
    (hf : ∀ a, Reports stop (f a)) : Reports stop (x >>= f) := by
  intro e he
  rcases bind_eq_error.mp he with he | ⟨a, -, he⟩
  · exact hx e he
  · exact hf a e he

/-- A message that begins with another letter is another one. -/
theorem ne_of_head {message : String} (h : message.toList.head? = some 'e') :
    message ≠ "unexpected dedent" := by
  rintro rfl
  exact absurd h (by decide)

/-- Most errors say what was expected. -/
theorem expected_ne (what : String) : "expected " ++ what ≠ "unexpected dedent" :=
  ne_of_head (by simp)

/-! ### Single tokens -/

/-- Where a token is missing, the tokens have ended. -/
theorem take_reports (expected : String) (ts : List Token) :
    Reports stop (take stop expected ts) := by
  cases ts with
  | nil => exact reports_error (.ended _)
  | cons t ts => exact reports_ok _

/-- A token of another kind is reported with what was expected (`expected_ne`). -/
theorem expect_reports (kind : Token.Kind) (expected : String) (ts : List Token) :
    Reports stop (expect stop kind expected ts) := by
  refine reports_bind (take_reports expected ts) ?_
  rintro ⟨t, us⟩
  dsimp only
  split
  · exact reports_ok _
  · exact reports_error (.token t (expected_ne expected))

/-- An identifier without a name is reported by itself. -/
theorem expectName_reports (expected : String) (ts : List Token) :
    Reports stop (expectName stop expected ts) := by
  refine reports_bind (expect_reports _ expected ts) ?_
  rintro ⟨t, us⟩
  dsimp only
  split
  · exact reports_ok _
  · exact reports_error (.token t (by decide))

/-- A token that is no type. -/
theorem valueType_reports (expected : String) (ts : List Token) :
    Reports stop (valueType stop expected ts) := by
  refine reports_bind (take_reports expected ts) ?_
  rintro ⟨t, us⟩
  dsimp only
  split
  · exact reports_ok _
  · rw [String.append_assoc]
    exact reports_error (.token t (expected_ne _))

/-- The same after an arrow. -/
theorem returnType_reports (ts : List Token) : Reports stop (returnType stop ts) := by
  refine reports_bind (take_reports _ ts) ?_
  rintro ⟨t, us⟩
  dsimp only
  split
  · exact reports_ok _
  · exact reports_error (.token t (by decide))

/-! ### Expressions and lists -/

/-- A token that is no operand. -/
theorem operandOf_reports (t : Token) : Reports stop (operandOf t) := by
  unfold operandOf
  split
  -- the fifth case is that of all tokens that are no operand
  case h_5 => exact reports_error (.token t (by decide))
  all_goals exact reports_ok _

/-- A missing operand, or a token that is none. -/
theorem operand_reports (ts : List Token) : Reports stop (operand stop ts) := by
  refine reports_bind (take_reports _ ts) ?_
  rintro ⟨t, us⟩
  exact reports_bind (operandOf_reports t) fun x => reports_ok _

/-- The operators and operands after the first one, by the recursion of the reader. -/
theorem operations_reports (ts : List Token) : Reports stop (operations stop ts) := by
  fun_induction operations stop ts with
  | case1 => exact reports_ok _
  | case2 t ts hk => exact reports_ok _
  | case3 t op hk => exact reports_error (.ended _)
  | case4 t op hk u ts ih =>
    refine reports_bind (operandOf_reports u) fun x => reports_bind ih ?_
    rintro ⟨more, us⟩
    exact reports_ok _

/-- A list reports what its items do, or a mark that does not fit. A bound that is used up is
reported like the end of the tokens. -/
theorem separated_reports {item : List Token → Attempt (Reading α)}
    (hitem : ∀ ts, Reports stop (item ts)) (bound : Nat) (ts : List Token) :
    Reports stop (separated stop item bound ts) := by
  induction bound generalizing ts with
  | zero => exact reports_error (.ended _)
  | succ bound ih =>
    refine reports_bind (hitem ts) ?_
    rintro ⟨x, us⟩
    refine reports_bind (take_reports _ us) ?_
    rintro ⟨mark, vs⟩
    dsimp only
    -- a comma, a parenthesis, or another token
    split
    · refine reports_bind (ih vs) ?_
      rintro ⟨xs, ws⟩
      exact reports_ok _
    · exact reports_ok _
    · exact reports_error (.token mark (by decide))

/-- A list in parentheses (`separated_reports`). -/
theorem listed_reports {item : List Token → Attempt (Reading α)}
    (hitem : ∀ ts, Reports stop (item ts)) (ts : List Token) :
    Reports stop (listed stop item ts) := by
  unfold listed
  split
  · exact reports_ok _
  · exact separated_reports hitem _ ts

/-- The arguments of a call. -/
theorem callTail_reports (name : String) (span : Span) (ts : List Token) :
    Reports stop (callTail stop name span ts) := by
  refine reports_bind (expect_reports _ _ ts) ?_
  rintro ⟨l, us⟩
  refine reports_bind (listed_reports operand_reports us) ?_
  rintro ⟨args, vs⟩
  exact reports_ok _

/-- An expression, by the readers it is made of. -/
theorem expression_reports (ts : List Token) : Reports stop (expression stop ts) := by
  unfold expression
  split
  · refine reports_bind (expectName_reports _ ts) ?_
    rintro ⟨⟨name, span⟩, us⟩
    refine reports_bind (callTail_reports name span us) ?_
    rintro ⟨call, vs⟩
    exact reports_ok _
  · -- no call: an operand, and operations while there are any
    refine reports_bind (operand_reports _) ?_
    rintro ⟨first, us⟩
    refine reports_bind (operations_reports us) ?_
    rintro ⟨rest, vs⟩
    exact reports_ok _

/-- A parameter. -/
theorem param_reports (ts : List Token) : Reports stop (param stop ts) := by
  refine reports_bind (expectName_reports _ ts) ?_
  rintro ⟨⟨name, span⟩, us⟩
  refine reports_bind (expect_reports _ _ us) ?_
  rintro ⟨c, vs⟩
  refine reports_bind (valueType_reports _ vs) ?_
  rintro ⟨type, ws⟩
  exact reports_ok _

/-! ### Statements on one line -/

/-- A declaration in conflict with another one. This is the only error that is not about the next
token. -/
theorem declare_reports (scope : String) (t : Token) (name : String) (type : ValueType)
    (table : SymbolTable) : Reports stop (declare scope t name type table) := by
  unfold declare
  split
  · exact reports_ok _
  · exact reports_error (.conflict t name _ type)

/-- A token that should have ended the statement. -/
theorem endOfStatement_reports (ts : List Token) : Reports stop (endOfStatement ts) := by
  unfold endOfStatement
  split
  · exact reports_ok _
  · split
    · exact reports_ok _
    · exact reports_ok _
    · exact reports_error (.token _ (by decide))

/-- The values of a print statement, by induction on the bound as for `separated_reports`. -/
theorem printed_reports (bound : Nat) (ts : List Token) :
    Reports stop (printed stop bound ts) := by
  induction bound generalizing ts with
  | zero => exact reports_error (.ended _)
  | succ bound ih =>
    unfold printed
    split
    · exact reports_ok _
    · -- a value, and behind it a comma, the end, or an error at another token
      refine reports_bind (expression_reports ts) ?_
      rintro ⟨x, us⟩
      refine reports_bind (take_reports _ us) ?_
      rintro ⟨mark, vs⟩
      dsimp only
      split
      · refine reports_bind (ih vs) ?_
        rintro ⟨xs, ws⟩
        exact reports_ok _
      · exact reports_ok _
      · exact reports_error (.token mark (by decide))

/-- A statement that begins with a name, in its three forms, or a token that goes with none of them.
-/
theorem nameStatement_reports (scope : String) (t : Token) (table : SymbolTable)
    (ts : List Token) : Reports stop (nameStatement stop scope t table ts) := by
  unfold nameStatement
  split
  · -- a type: this is where a declaration may be refused
    refine reports_bind (valueType_reports _ _) ?_
    rintro ⟨type, us⟩
    refine reports_bind (declare_reports scope t _ type table) fun table' => ?_
    dsimp only
    split
    · refine reports_bind (expression_reports _) ?_
      rintro ⟨value, vs⟩
      exact reports_ok _
    · exact reports_ok _
  · split
    · refine reports_bind (expression_reports _) ?_
      rintro ⟨value, us⟩
      exact reports_ok _
    · split
      · refine reports_bind (callTail_reports _ _ _) ?_
        rintro ⟨call, us⟩
        exact reports_ok _
      · -- none of the three forms
        refine reports_bind (take_reports _ _) ?_
        rintro ⟨next, us⟩
        exact reports_error (.token next (ne_of_head (by simp)))

/-- What a statement gives back. -/
theorem returned_reports (ts : List Token) : Reports stop (returned stop ts) := by
  unfold returned
  split
  · exact reports_ok _
  · refine reports_bind (expression_reports ts) ?_
    rintro ⟨value, us⟩
    exact reports_ok _

/-- A condition with its colon. -/
theorem condition_reports (after : String) (ts : List Token) :
    Reports stop (condition stop after ts) := by
  refine reports_bind (expression_reports ts) ?_
  rintro ⟨e, us⟩
  refine reports_bind (expect_reports _ _ us) ?_
  rintro ⟨c, vs⟩
  exact reports_ok _

/-! ### Statements and blocks -/

/-- The readers of statements report these errors under a bound. -/
structure Reporting (stop : Span) (bound : Nat) : Prop where
  statement : ∀ scope table ts, Reports stop (statement stop bound scope table ts)
  branches : ∀ scope span table ts, Reports stop (branches stop bound scope span table ts)
  otherwise : ∀ scope table ts, Reports stop (otherwise stop bound scope table ts)
  block : ∀ scope table ts, Reports stop (block stop bound scope table ts)
  items : ∀ scope table ts, Reports stop (items stop bound scope table ts)

section Step

variable {bound : Nat} (ih : Reporting stop bound) (scope : String) (table : SymbolTable)
  (ts : List Token)

include ih

/-- A statement, if its parts report these errors under the smaller bound. -/
theorem statement_reports : Reports stop (statement stop (bound + 1) scope table ts) := by
  unfold statement
  refine reports_bind (take_reports _ ts) ?_
  rintro ⟨t, us⟩
  dsimp only
  split
  · refine reports_bind (nameStatement_reports scope t table us) ?_
    rintro ⟨s, table', vs⟩
    exact reports_bind (endOfStatement_reports vs) fun ws => reports_ok _
  · refine reports_bind (returned_reports us) ?_
    rintro ⟨value, vs⟩
    exact reports_bind (endOfStatement_reports vs) fun ws => reports_ok _
  · refine reports_bind (expect_reports _ _ us) ?_
    rintro ⟨l, vs⟩
    refine reports_bind (printed_reports _ vs) ?_
    rintro ⟨args, ws⟩
    exact reports_bind (endOfStatement_reports ws) fun xs => reports_ok _
  · refine reports_bind (condition_reports _ us) ?_
    rintro ⟨e, vs⟩
    refine reports_bind (ih.block scope table vs) ?_
    rintro ⟨body, table', ws⟩
    exact reports_ok _
  · refine reports_bind (ih.branches scope t.span table us) ?_
    rintro ⟨bs, table', vs⟩
    refine reports_bind (ih.otherwise scope table' vs) ?_
    rintro ⟨last, table'', ws⟩
    exact reports_ok _
  · -- a function, a step in, and words that begin no statement
    exact reports_error (.nested t _)
  · exact reports_error (.token t (by decide))
  · exact reports_error (.token t (by decide))

/-- The branches of a conditional. -/
theorem branches_report (span : Span) :
    Reports stop (branches stop (bound + 1) scope span table ts) := by
  unfold branches
  refine reports_bind (condition_reports _ ts) ?_
  rintro ⟨e, us⟩
  refine reports_bind (ih.block scope table us) ?_
  rintro ⟨body, table', vs⟩
  dsimp only
  split
  · split
    · -- an `elif` comes next
      refine reports_bind (ih.branches scope _ table' _) ?_
      rintro ⟨more, table'', ws⟩
      exact reports_ok _
    · exact reports_ok _
  · exact reports_ok _

/-- The last block of a conditional. -/
theorem otherwise_reports : Reports stop (otherwise stop (bound + 1) scope table ts) := by
  unfold otherwise
  split
  · refine reports_bind (expect_reports _ _ _) ?_
    rintro ⟨c, us⟩
    refine reports_bind (ih.block scope table us) ?_
    rintro ⟨body, table', vs⟩
    exact reports_ok _
  · exact reports_ok _

/-- A block that is missing, or what stands in it. -/
theorem block_reports : Reports stop (block stop (bound + 1) scope table ts) := by
  unfold block
  refine reports_bind (expect_reports _ _ ts) ?_
  rintro ⟨i, us⟩
  exact ih.items scope table us

/-- What stands in a block. A token that closes it is no error here. -/
theorem items_report : Reports stop (items stop (bound + 1) scope table ts) := by
  cases ts with
  | nil => exact reports_ok _
  | cons t ts =>
    unfold items
    -- the end of the block, a line break, a statement
    split
    · exact reports_ok _
    · exact ih.items scope table ts
    · refine reports_bind (ih.statement scope table (t :: ts)) ?_
      rintro ⟨s, table', us⟩
      refine reports_bind (ih.items scope table' us) ?_
      rintro ⟨more, table'', vs⟩
      exact reports_ok _

end Step

/-- **The readers of statements report these errors**, under every bound: with none left they report
the end of the tokens, and with one more the lemmas of this section apply. -/
theorem reporting (stop : Span) : ∀ bound, Reporting stop bound
  | 0 => {
      -- the bound runs out: reported as the end, though `parse` never lets it happen
      statement := fun _ _ _ => reports_error (.ended _)
      branches := fun _ _ _ _ => reports_error (.ended _)
      otherwise := fun _ _ _ => reports_error (.ended _)
      block := fun _ _ _ => reports_error (.ended _)
      items := fun _ _ _ => reports_error (.ended _) }
  | bound + 1 => {
      statement := statement_reports (reporting stop bound)
      branches := fun scope span table ts =>
        branches_report (reporting stop bound) scope table ts span
      otherwise := otherwise_reports (reporting stop bound)
      block := block_reports (reporting stop bound)
      items := items_report (reporting stop bound) }

/-- A function, from its head and its block (`reporting`). -/
theorem function_reports (span : Span) (table : SymbolTable) (ts : List Token) :
    Reports stop (function stop span table ts) := by
  unfold function
  refine reports_bind (expectName_reports _ ts) ?_
  rintro ⟨⟨name, _⟩, ts₁⟩
  refine reports_bind (expect_reports _ _ ts₁) ?_
  rintro ⟨_, ts₂⟩
  refine reports_bind (listed_reports param_reports ts₂) ?_
  rintro ⟨params, ts₃⟩
  refine reports_bind (expect_reports _ _ ts₃) ?_
  rintro ⟨_, ts₄⟩
  refine reports_bind (returnType_reports ts₄) ?_
  rintro ⟨type, ts₅⟩
  refine reports_bind (expect_reports _ _ ts₅) ?_
  rintro ⟨_, ts₆⟩
  -- the block declares in the scope of the function
  refine reports_bind ((reporting stop _).block name table ts₆) ?_
  rintro ⟨body, table', ts₇⟩
  exact reports_ok _

end Offside.Parser
