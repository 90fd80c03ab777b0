import Offside.Proofs.Grammar.Sound
import Offside.Proofs.Grammar.Complete
import Offside.Proofs.Prefix.Expectation

/-!
# Readers and expectations

A reader and its goal do the same: running a stack with the goal on top is running the reader, and
then the rest of the stack on the tokens that the reader has left (`follow`). Each reader has one
such equation, and the equation of a reader is put together from those of the readers it calls.

The equations hold in failure too. A reader that runs out of its bound reports the end of the tokens
where there may be more, so for the bounded readers the equation asks for a bound that is large
enough.
-/

namespace Offside.Expectation

open Offside.Parser Offside.Grammar

variable (stop : Span) {table : SymbolTable} {gs : List Goal}

/-! ### Single steps of a run -/

/-- At the end of the tokens a goal is dropped if it may be, and otherwise something is missing. -/
theorem run_cons_nil (g : Goal) :
    run table (g :: gs) [] =
      if g.optional then run table gs [] else .error (.unexpectedEnd, none) := by
  cases h : g.optional <;> simp [run, h]

/-- The goal on top decides about the next token: it takes it and puts goals in its own place, it
lets it pass to the goals below, or it refuses it. -/
theorem run_cons_cons (g : Goal) (t : Token) (ts : List Token) :
    run table (g :: gs) (t :: ts) =
      match react table g t with
      | .shift table goals => run table (goals ++ gs) ts
      | .pass => run table gs (t :: ts)
      | .refuse fault token => .error (fault, some token) := by
  rw [run, advance]
  cases react table g t <;> rfl

/-- With no goal left, the next token begins a part of the module. -/
theorem run_nil_cons (t : Token) (ts : List Token) :
    run table [] (t :: ts) =
      match onModule table t with
      | .shift table goals => run table goals ts
      | .pass => run table [] ts
      | .refuse fault token => .error (fault, some token) := by
  rw [run, advance]
  cases onModule table t <;> rfl

/-! ### A reader, and then the rest -/

/-- What comes of a reader and of what is done with its result. -/
def follow {α β : Type} (a : Attempt α) (k : α → Except Refusal β) : Except Refusal β :=
  match a with
  | .ok x => k x
  | .error e => .error (e.fault, e.token)

@[simp] theorem follow_ok {α β : Type} (x : α) (k : α → Except Refusal β) :
    follow (.ok x) k = k x := rfl

@[simp] theorem follow_error {α β : Type} (e : GrammarError) (k : α → Except Refusal β) :
    follow (.error e) k = .error (e.fault, e.token) := rfl

@[simp] theorem follow_bind {α β γ : Type} (a : Attempt α) (f : α → Attempt β)
    (k : β → Except Refusal γ) : follow (a >>= f) k = follow a fun x => follow (f x) k := by
  cases a <;> rfl

/-- Only the results of the reader matter for what is done after it. This is where the lemmas below
learn what a reader has left, by naming the equation `a = .ok x`. -/
theorem follow_congr {α β : Type} {a : Attempt α} {k k' : α → Except Refusal β}
    (h : ∀ x, a = .ok x → k x = k' x) : follow a k = follow a k' := by
  cases a with
  | ok x => exact h x rfl
  | error e => rfl

/-! ### Single tokens -/

/-- A token of a given kind. The message of the reader is not seen by the goal, so it may be any. -/
theorem run_mark (m : Mark) (expected : String) (ts : List Token) :
    run table (.mark m :: gs) ts =
      follow (expect stop m.kind expected ts) fun p => run table gs p.2 := by
  cases ts with
  | nil => rw [run_cons_nil]; rfl
  | cons t ts =>
    rw [run_cons_cons, react, onKind]
    -- both take the token, or both report it
    by_cases h : t.kind = m.kind
    · simp [expect, take, bind, Except.bind, h]
    · simp [expect, take, bind, Except.bind, h, unexpected, GrammarError.unexpected]

/-- A token that is no operand is refused as unexpected, and by itself. -/
theorem operandOf_error {t : Token} {e : GrammarError} (h : operandOf t = .error e) :
    e.fault = .unexpectedToken ∧ e.token = some t := by
  unfold operandOf at h
  split at h <;> cases h
  exact ⟨rfl, rfl⟩

/-- The goal and the reader of an operand look at the same token (`operandOf`). -/
theorem run_operand (ts : List Token) :
    run table (.operand :: gs) ts = follow (operand stop ts) fun p => run table gs p.2 := by
  cases ts with
  | nil => rw [run_cons_nil]; rfl
  | cons t ts =>
    rw [run_cons_cons, react, onOperand, operand, follow_bind]
    cases h : operandOf t with
    | ok x => simp [take, h, bind, Except.bind]
    | error e => simp [take, h, bind, Except.bind, unexpected, operandOf_error h]

/-- The type of a parameter. -/
theorem run_paramType (expected : String) (ts : List Token) :
    run table (.paramType :: gs) ts =
      follow (valueType stop expected ts) fun p => run table gs p.2 := by
  cases ts with
  | nil => rw [run_cons_nil]; rfl
  | cons t ts =>
    rw [run_cons_cons, react, valueType, follow_bind]
    cases h : ValueType.ofKind? t.kind <;>
      simp [take, h, unexpected, GrammarError.unexpected]

/-- The type after an arrow. -/
theorem run_returnType (ts : List Token) :
    run table (.returnType :: gs) ts =
      follow (returnType stop ts) fun p => run table gs p.2 := by
  cases ts with
  | nil => rw [run_cons_nil]; rfl
  | cons t ts =>
    rw [run_cons_cons, react, returnType, follow_bind]
    cases h : ReturnType.ofKind? t.kind <;>
      simp [take, h, unexpected, GrammarError.unexpected]

/-- The name of a parameter, which has to be there. -/
theorem run_paramName (expected : String) (ts : List Token) :
    run table (.paramName :: gs) ts =
      follow (expectName stop expected ts) fun p => run table gs p.2 := by
  cases ts with
  | nil => rw [run_cons_nil]; rfl
  | cons t ts =>
    rw [run_cons_cons, react, onParamName, expectName, follow_bind]
    by_cases hk : t.kind = .identifier
    · cases h : t.name? <;>
        simp [expect, take, hk, h, bind, Except.bind, unexpected, GrammarError.unexpected]
    · simp [expect, take, hk, bind, Except.bind, unexpected, GrammarError.unexpected]

/-! ### Expressions -/

/-- Operators and operands, by the recursion of the reader. -/
theorem run_operators (ts : List Token) :
    run table (.operators :: gs) ts = follow (operations stop ts) fun p => run table gs p.2 := by
  -- no token, no operator, an operator at the end, and a pair
  fun_induction operations stop ts with
  | case1 => rw [run_cons_nil]; rfl
  | case2 t ts h => rw [run_cons_cons, react, onOperator, h]; rfl
  | case3 t op h =>
    rw [run_cons_cons, react, onOperator, h]
    exact run_cons_nil _
  | case4 t op h u ts ih =>
    rw [run_cons_cons, react, onOperator, h]
    -- an operand has to follow, and then again operators
    change run table (.operand :: .operators :: gs) (u :: ts) = _
    rw [run_operand stop, operand]
    cases hx : operandOf u <;> simp [take, hx, ih]

/-- After an item there are three cases: a comma, the closing parenthesis, or neither. -/
theorem run_onSeparator {goals : List Goal} {tail : Goal}
    (htail : ∀ t, react table tail t = onSeparator table goals t) (t : Token) (ts : List Token) :
    (t.kind = .comma ∧ run table (tail :: gs) (t :: ts) = run table (goals ++ gs) ts) ∨
    (t.kind = .rightParen ∧ run table (tail :: gs) (t :: ts) = run table gs ts) ∨
    (t.kind ≠ .comma ∧ t.kind ≠ .rightParen ∧
      run table (tail :: gs) (t :: ts) = .error (.unexpectedToken, some t)) := by
  rw [run_cons_cons, htail, onSeparator]
  by_cases hc : t.kind = .comma
  · exact .inl ⟨hc, by simp [hc]⟩
  · by_cases hr : t.kind = .rightParen
    · exact .inr (.inl ⟨hr, by simp [hr]⟩)
    · refine .inr (.inr ⟨hc, hr, ?_⟩)
      -- for every other kind the reaction is the same refusal
      cases hk : t.kind <;> first | rfl | contradiction

/-- Items with commas between them, for any item whose goals do what its reader does (`hitem`) and
whose reader takes tokens (`hshort`). The goal `tail` is what stands for the rest of the list. -/
theorem run_separated {α : Type} {item : List Token → Attempt (Reading α)} {goals : List Goal}
    {tail : Goal} (hitem : ∀ gs ts, run table (goals ++ gs) ts =
      follow (item ts) fun p => run table gs p.2)
    (hshort : ∀ {ts x rest}, item ts = .ok (x, rest) → rest.length < ts.length)
    (htail : ∀ t, react table tail t = onSeparator table (goals ++ [tail]) t)
    (hopt : tail.optional = false) {bound : Nat} {ts : List Token} (hb : ts.length < bound) :
    run table (goals ++ tail :: gs) ts =
      follow (separated stop item bound ts) fun p => run table gs p.2 := by
  induction bound generalizing ts with
  | zero => omega
  | succ bound ih =>
    rw [hitem, separated, follow_bind]
    -- the item takes a token, so the bound is large enough for the items after it
    refine follow_congr ?_
    rintro ⟨x, us⟩ hx
    have hlt := hshort hx
    cases us with
    | nil => simp [run_cons_nil, hopt, take, ended, GrammarError.unexpectedEnd]
    | cons t us =>
      rw [List.length_cons] at hlt
      simp only [take, follow_bind, follow_ok]
      -- the list goes on, ends, or is at fault
      rcases run_onSeparator htail t us with ⟨hk, h⟩ | ⟨hk, h⟩ | ⟨hc, hr, h⟩
      · rw [h, List.append_assoc, List.singleton_append, ih (show us.length < bound by omega)]
        simp [hk]
      · rw [h]
        simp [hk]
      · rw [h]
        split
        · contradiction
        · contradiction
        · rfl

/-- **A list in parentheses**, and then the rest. The goal `front` stands for the whole list: the
closing parenthesis meets it, and anything else has to begin with an item. -/
theorem run_listed {α : Type} {item : List Token → Attempt (Reading α)} {front : Goal}
    (goals : List Goal) (tail : Goal) (hitem : ∀ gs ts, run table (goals ++ gs) ts =
      follow (item ts) fun p => run table gs p.2)
    (hshort : ∀ {ts x rest}, item ts = .ok (x, rest) → rest.length < ts.length)
    (htail : ∀ t, react table tail t = onSeparator table (goals ++ [tail]) t)
    (hopt : tail.optional = false)
    (hclose : ∀ t, t.kind = .rightParen → react table front t = .shift table [])
    (hfirst : ∀ ts, nextIs .rightParen ts = false →
      run table (front :: gs) ts = run table (goals ++ tail :: gs) ts) (ts : List Token) :
    run table (front :: gs) ts = follow (listed stop item ts) fun p => run table gs p.2 := by
  unfold listed
  cases hn : nextIs .rightParen ts with
  | true =>
    obtain ⟨r, us, rfl, hr⟩ := nextIs_eq_true.mp hn
    rw [run_cons_cons, hclose r hr]
    simp
  | false =>
    -- not closed at once: the items and what separates them
    rw [hfirst ts hn]
    exact run_separated stop hitem hshort htail hopt (Nat.lt_succ_self _)

/-- An operand takes a token. -/
theorem operand_length {ts rest : List Token} {x : Operand}
    (h : operand stop ts = .ok (x, rest)) : rest.length < ts.length := by
  obtain ⟨t, rfl, -⟩ := operand_eq_ok.mp h
  simp

/-- The arguments of a call are a list of operands (`run_listed`, `run_operand`). -/
theorem run_arguments (ts : List Token) :
    run table (.arguments :: gs) ts =
      follow (listed stop (operand stop) ts) fun p => run table gs p.2 := by
  refine run_listed stop [.operand] .moreArguments (fun _ => run_operand stop)
    (operand_length stop) (fun _ => rfl) rfl ?_ ?_ ts
  · intro t hk
    rw [react, onKind, if_pos hk]
  · -- the first argument is an operand like any other
    intro ts hn
    cases ts with
    | nil => rfl
    | cons t ts =>
      rw [nextIs_cons, decide_eq_false_iff_not] at hn
      rw [List.singleton_append, run_cons_cons, run_cons_cons, react, react, onKind, if_neg hn,
        onOperand, onOperand]
      cases operandOf t <;> rfl

/-- A parameter takes tokens. -/
theorem param_length {ts rest : List Token} {x : Param}
    (h : param stop ts = .ok (x, rest)) : rest.length < ts.length := by
  obtain ⟨pre, rfl, hp⟩ := param_derives h
  cases hp
  rw [List.length_append]
  exact Nat.lt_add_of_pos_left (by simp)

/-- A parameter is three goals in a row. -/
theorem run_param (ts : List Token) :
    run table (.paramName :: .mark .colon :: .paramType :: gs) ts =
      follow (param stop ts) fun p => run table gs p.2 := by
  rw [run_paramName stop "parameter name", param, follow_bind]
  refine follow_congr ?_
  rintro ⟨name, us⟩ _
  rw [run_mark stop .colon "':' after parameter name", follow_bind]
  refine follow_congr ?_
  rintro ⟨c, vs⟩ _
  rw [run_paramType stop "parameter type", follow_bind]
  rfl

/-- The parameters of a function are a list of parameters (`run_listed`, `run_param`). -/
theorem run_params (ts : List Token) :
    run table (.params :: gs) ts =
      follow (listed stop (param stop) ts) fun p => run table gs p.2 := by
  refine run_listed stop [.paramName, .mark .colon, .paramType] .moreParams
    (fun _ => run_param stop) (param_length stop) (fun _ => rfl) rfl ?_ ?_ ts
  · intro t hk
    rw [react, onKind, if_pos hk]
  · -- what is no parenthesis has to be the name of a first parameter
    intro ts hn
    cases ts with
    | nil => rfl
    | cons t ts =>
      rw [nextIs_cons, decide_eq_false_iff_not] at hn
      rw [List.cons_append, run_cons_cons, run_cons_cons, react, react, onKind, if_neg hn,
        onParamName, onParamName]
      split_ifs <;> rfl

/-- The parentheses of a call and what stands between them (`run_arguments`). -/
theorem run_callTail (name : String) (span : Span) (ts : List Token) :
    run table (.mark .leftParen :: .arguments :: gs) ts =
      follow (callTail stop name span ts) fun p => run table gs p.2 := by
  rw [run_mark stop .leftParen "'('", callTail, follow_bind]
  refine follow_congr ?_
  rintro ⟨l, us⟩ _
  rw [run_arguments stop, follow_bind]
  rfl

/-- After a name, a parenthesis makes a call of it. -/
theorem run_callOrOperators_call {l : Token} (hl : l.kind = .leftParen) (ts : List Token) :
    run table (.callOrOperators :: gs) (l :: ts) =
      run table (.mark .leftParen :: .arguments :: gs) (l :: ts) := by
  rw [run_cons_cons, run_cons_cons]
  simp [react, onKind, hl, Mark.kind]

/-- After a name without a parenthesis only operators can follow. -/
theorem run_callOrOperators {ts : List Token} (h : nextIs .leftParen ts = false) :
    run table (.callOrOperators :: gs) ts = run table (.operators :: gs) ts := by
  cases ts with
  | nil => rfl
  | cons t ts =>
    rw [nextIs_cons, decide_eq_false_iff_not] at h
    rw [run_cons_cons, run_cons_cons, react, react, onKind, if_neg h]

/-- The first operand of an expression, where no call is. -/
theorem run_firstOperand {t : Token} {goal : Goal} (ts : List Token)
    (hg : run table (goal :: gs) ts = run table (.operators :: gs) ts) :
    (match onOperand table [goal] t with
      | .shift table goals => run table (goals ++ gs) ts
      | .pass => run table gs (t :: ts)
      | .refuse fault token => .error (fault, some token)) =
      follow (operand stop (t :: ts)) fun p =>
        follow (operations stop p.2) fun q => run table gs q.2 := by
  rw [onOperand, operand]
  -- the step and the reader both look at this one token
  cases hx : operandOf t with
  | ok x => simp [take, hx, hg, run_operators stop]
  | error e => simp [take, hx, unexpected, operandOf_error hx]

/-- An expression that is a call, or would be one if its name were there. -/
theorem run_expression_call {t l : Token} (hi : t.kind = .identifier) (hl : l.kind = .leftParen)
    (ts : List Token) :
    run table (.expression :: gs) (t :: l :: ts) =
      follow (expression stop (t :: l :: ts)) fun p => run table gs p.2 := by
  have hcall : callNext (t :: l :: ts) = true := by simp [callNext, hi, hl]
  have hnot : ¬ t.kind = .notWord := by simp [hi]
  rw [run_cons_cons, react, onExpression, if_neg hnot, if_pos hi, onOperand, expression,
    if_pos hcall]
  cases hname : t.name? with
  | some s =>
    have hx : operandOf t = .ok (.name s) := operandOf_eq_ok.mpr ⟨hi, name?_eq_some.mp hname⟩
    have hn : expectName stop "function name" (t :: l :: ts) = .ok ((s, t.span), l :: ts) :=
      expectName_eq_ok.mpr ⟨t, rfl, ⟨hi, name?_eq_some.mp hname⟩, rfl⟩
    rw [hx, hn]
    -- the step has taken the name as an operand, and sees only now that it is a call
    change run table (.callOrOperators :: gs) (l :: ts) = _
    rw [run_callOrOperators_call hl, run_callTail stop s t.span, follow_bind, follow_ok,
      follow_bind]
    rfl
  | none =>
    -- the name is looked at before the parenthesis, so its absence is what is reported
    have hn : expectName stop "function name" (t :: l :: ts) =
        .error (.unexpected t "identifier without a name") := by
      simp [expectName, expect, take, hi, hname, bind, Except.bind]
    cases hop : operandOf t with
    | ok x =>
      obtain ⟨hk, hv⟩ := operandOf_eq_ok.mp hop
      cases x with
      | name s => rw [name?_eq_some.mpr hv] at hname; cases hname
      | literal v => cases v <;> simp [hi, Operand.kind] at hk
    | error e => rw [hn]; rfl

/-- **An expression**, and then the rest. The goal looks one token ahead, the reader two, so the
case of a call is split off first (`run_expression_call`); in all others `run_firstOperand` and
`run_operators` do the rest. -/
theorem run_expression (ts : List Token) :
    run table (.expression :: gs) ts = follow (expression stop ts) fun p => run table gs p.2 := by
  cases ts with
  | nil => rw [run_cons_nil]; rfl
  | cons t ts =>
    cases hcall : callNext (t :: ts) with
    | true =>
      rw [callNext, Bool.and_eq_true, List.tail_cons] at hcall
      obtain ⟨l, us, rfl, hl⟩ := nextIs_eq_true.mp hcall.2
      exact run_expression_call stop (by simpa using hcall.1) hl us
    | false =>
      -- no call: the first operand stands at once, or behind the word for negation
      have hif : ¬ callNext (t :: ts) = true := by simp [hcall]
      rw [run_cons_cons, react, onExpression, expression, if_neg hif]
      by_cases hn : t.kind = .notWord
      · simp only [hn, nextIs_cons, List.tail_cons, if_true]
        rw [List.cons_append, run_operand stop]
        simp [run_operators stop]
      · rw [if_neg hn]
        by_cases hi : t.kind = .identifier
        · -- a name that no parenthesis follows
          have hl : nextIs .leftParen ts = false := by simpa [callNext, hi] using hcall
          rw [if_pos hi, run_firstOperand stop ts (run_callOrOperators hl)]
          simp [hi]
        · rw [if_neg hi, run_firstOperand stop ts rfl]
          simp [hn]

/-! ### Statements on one line -/

/-- An expression takes a token. -/
theorem expression_length {ts rest : List Token} {e : Expr}
    (h : expression stop ts = .ok (e, rest)) : rest.length < ts.length := by
  obtain ⟨pre, rfl, he⟩ := expression_derives h
  obtain ⟨t, us, rfl, -⟩ := he.first
  rw [List.length_append]
  exact Nat.lt_add_of_pos_left (by simp)

/-- A goal that begins with an expression. -/
theorem run_expression_then {g : Goal} {goals : List Goal} {t : Token} {ts : List Token}
    (h : react table g t = (onExpression table t).andThen goals) :
    run table (g :: gs) (t :: ts) = run table (.expression :: (goals ++ gs)) (t :: ts) := by
  -- an expression has a first token, so it never lets one pass
  have hpass : onExpression table t ≠ .pass := by
    unfold onExpression onOperand
    split_ifs
    · simp
    · cases operandOf t <;> simp [unexpected]
    · cases operandOf t <;> simp [unexpected]
  rw [run_cons_cons, run_cons_cons, h, react]
  cases hr : onExpression table t with
  | shift table' goals' => simp [Reaction.andThen]
  | pass => exact absurd hr hpass
  | refuse fault token => rfl

/-- The values of a print statement, under a bound that is large enough for the tokens. -/
theorem run_printed {bound : Nat} {ts : List Token} (hb : ts.length < bound) :
    run table (.printed :: gs) ts = follow (printed stop bound ts) fun p => run table gs p.2 := by
  -- on the bound: a value and the comma after it are taken before the next turn
  induction bound generalizing ts with
  | zero => omega
  | succ bound ih =>
    cases ts with
    | nil => rw [run_cons_nil]; rfl
    | cons t ts =>
      rw [printed, nextIs_cons]
      by_cases hk : t.kind = .rightParen
      · rw [run_cons_cons, react, onKind, if_pos hk]
        simp [hk]
      · have hreact : react table .printed t = (onExpression table t).andThen [.morePrinted] := by
          rw [react, onKind, if_neg hk]
        rw [run_expression_then hreact, run_expression stop]
        simp only [hk, decide_false, Bool.false_eq_true, if_false, follow_bind]
        refine follow_congr ?_
        rintro ⟨e, us⟩ he
        have hlt := expression_length stop he
        cases us with
        | nil => rw [List.singleton_append, run_cons_nil]; rfl
        | cons u us =>
          rw [List.length_cons] at hlt hb
          simp only [take, follow_ok]
          -- after a comma the goal is the one the values began with, since a parenthesis may follow
          have hmore : ∀ t, react table .morePrinted t = onSeparator table [.printed] t :=
            fun _ => rfl
          rcases run_onSeparator hmore u us with ⟨hu, h⟩ | ⟨hu, h⟩ | ⟨hc, hr, h⟩
          · rw [List.singleton_append, h, List.singleton_append, ih (by simp at hlt; omega)]
            simp [hu]
          · rw [List.singleton_append, h]
            simp [hu]
          · rw [List.singleton_append, h]
            split
            · contradiction
            · contradiction
            · rfl

/-- What a statement gives back: nothing at the end of the line, or an expression. -/
theorem run_returned (ts : List Token) :
    run table (.returned :: gs) ts = follow (returned stop ts) fun p => run table gs p.2 := by
  cases ts with
  | nil => rw [run_cons_nil]; rfl
  | cons t ts =>
    rw [returned]
    by_cases hk : t.kind = .newline ∨ t.kind = .dedent
    · rw [run_cons_cons, react, if_pos hk]
      simp [atEnd, hk]
    · -- no end of a line: the step reacts as to any expression
      have hreact : react table .returned t = (onExpression table t).andThen [] := by
        rw [react, if_neg hk]
        cases onExpression table t <;> simp [Reaction.andThen]
      rw [run_expression_then hreact, run_expression stop]
      simp [atEnd, hk]

/-- The end of a statement: a line break is taken, and a token that closes the block is left to it.
-/
theorem run_lineEnd (ts : List Token) :
    run table (.lineEnd :: gs) ts = follow (endOfStatement ts) fun rest => run table gs rest := by
  cases ts with
  | nil => rw [run_cons_nil]; rfl
  | cons t ts =>
    rw [run_cons_cons, react, onKind, endOfStatement]
    by_cases hn : t.kind = .newline
    · simp [hn]
    · by_cases hd : t.kind = .dedent
      · simp [hd]
      · rw [if_neg hn, if_neg hd]
        cases hk : t.kind <;> first | rfl | contradiction

/-- The value of a declared variable, if it is given one. -/
theorem run_assigned {ts : List Token} (h : nextIs .assign ts = false) :
    run table (.assigned :: gs) ts = run table gs ts := by
  cases ts with
  | nil => rw [run_cons_nil]; rfl
  | cons t ts =>
    rw [nextIs_cons, decide_eq_false_iff_not] at h
    rw [run_cons_cons, react, onKind, if_neg h]

/-- The type of a declared variable. Here the table changes, and here a conflict is found, before
the rest of the statement is looked at. -/
theorem run_namedType {t y : Token} {scope : String} {ts : List Token} {type : ValueType}
    (hy : ValueType.ofKind? y.kind = some type) :
    run table (.namedType scope t :: gs) (y :: ts) =
      follow (declare scope t (t.name?.getD "") type table) fun table => run table gs ts := by
  rw [run_cons_cons, react, onNamedType, hy, declare]
  dsimp only
  cases table.declare scope ⟨t.name?.getD "", type, t.span⟩ <;> rfl

/-- **What follows a name at the front of a statement**, and then the rest. -/
theorem run_afterName (scope : String) (t : Token) (ts : List Token) :
    run table (.afterName scope t :: gs) ts =
      follow (nameStatement stop scope t table ts) fun p => run p.2.1 gs p.2.2 := by
  cases ts with
  | nil => rw [run_cons_nil]; rfl
  | cons u ts =>
    rw [nameStatement]
    -- a declaration, an assignment, a call, or none of them
    by_cases hc : u.kind = .colon
    · rw [run_cons_cons, react]
      simp only [hc, nextIs_cons, decide_true, if_true, List.tail_cons, follow_bind]
      cases ts with
      | nil => rw [List.cons_append, run_cons_nil]; rfl
      | cons y ts =>
        cases hy : ValueType.ofKind? y.kind with
        | none =>
          rw [List.cons_append, run_cons_cons, react, onNamedType, hy, valueType]
          simp [take, hy, unexpected, GrammarError.unexpected]
        | some type =>
          have htype : valueType stop "type annotation" (y :: ts) = .ok (type, ts) :=
            valueType_eq_ok.mpr ⟨y, rfl, hy⟩
          rw [List.cons_append, run_namedType hy, htype, follow_ok]
          -- the variable is declared by now, whether or not a value comes behind it
          refine follow_congr fun table' _ => ?_
          cases ha : nextIs .assign ts with
          | true =>
            obtain ⟨a, us, rfl, hak⟩ := nextIs_eq_true.mp ha
            rw [List.singleton_append, run_cons_cons, react, onKind, if_pos hak]
            simp [run_expression stop]
          | false =>
            rw [List.singleton_append, run_assigned ha]
            simp
    · by_cases ha : u.kind = .assign
      · rw [run_cons_cons, react]
        simp [ha, run_expression stop]
      · by_cases hl : u.kind = .leftParen
        · -- the parenthesis has been seen already, while the reader looks at it again
          have hmark : run table (.mark .leftParen :: .arguments :: gs) (u :: ts) =
              run table (.arguments :: gs) ts := by
            rw [run_cons_cons, react, onKind, Mark.kind, if_pos hl]
            rfl
          rw [run_callTail stop (t.name?.getD "") t.span] at hmark
          rw [run_cons_cons, react]
          simp [hl, ← hmark]
        · -- nothing else goes with a name
          have hreact : react table (.afterName scope t) u = unexpected u := by
            rw [react]
            cases hk : u.kind <;> first | rfl | contradiction
          rw [run_cons_cons, hreact]
          simp [hc, ha, hl, take, unexpected, GrammarError.unexpected]

/-! ### Statements and blocks -/

/-- A condition with its colon. -/
theorem run_condition (after : String) (ts : List Token) :
    run table (.expression :: .mark .colon :: gs) ts =
      follow (condition stop after ts) fun p => run table gs p.2 := by
  rw [run_expression stop, condition, follow_bind]
  refine follow_congr ?_
  rintro ⟨e, us⟩ _
  rw [run_mark stop .colon after, follow_bind]
  rfl

/-- A condition takes two tokens, the colon being one of them. -/
theorem condition_length {after : String} {ts rest : List Token} {e : Expr}
    (h : condition stop after ts = .ok (e, rest)) : rest.length + 2 ≤ ts.length := by
  obtain ⟨es, c, rfl, he, -⟩ := condition_derives h
  obtain ⟨t, us, rfl, -⟩ := he.first
  simp only [List.cons_append, List.length_cons, List.length_append]
  omega

/-- The readers of statements do what their goals do, under a bound that is large enough. -/
structure Simulated (stop : Span) (bound : Nat) : Prop where
  statement : ∀ (scope table gs) {ts}, 4 * ts.length ≤ bound →
    run table (.statement scope :: gs) ts =
      follow (statement stop bound scope table ts) fun p => run p.2.1 gs p.2.2
  branches : ∀ (scope span table gs) {ts}, 4 * ts.length ≤ bound →
    run table (guarded scope ++ .moreBranches scope :: gs) ts =
      follow (branches stop bound scope span table ts) fun p =>
        run p.2.1 (.moreBranches scope :: gs) p.2.2
  otherwise : ∀ (scope table gs) {ts}, 4 * ts.length + 1 ≤ bound →
    nextIs .elifWord ts = false →
    run table (.moreBranches scope :: gs) ts =
      follow (otherwise stop bound scope table ts) fun p => run p.2.1 gs p.2.2
  block : ∀ (scope table gs) {ts}, 4 * ts.length ≤ bound →
    run table (.mark .indent :: .items scope :: gs) ts =
      follow (block stop bound scope table ts) fun p => run p.2.1 gs p.2.2
  items : ∀ (scope table gs) {ts}, 4 * ts.length + 1 ≤ bound →
    run table (.items scope :: gs) ts =
      follow (items stop bound scope table ts) fun p => run p.2.1 gs p.2.2

/-- What is neither a line break nor the end of a block begins a statement in it. -/
theorem run_items_statement {scope : String} {t : Token} {ts : List Token}
    (hd : t.kind ≠ .dedent) (hn : t.kind ≠ .newline) :
    run table (.items scope :: gs) (t :: ts) =
      run table (.statement scope :: .items scope :: gs) (t :: ts) := by
  -- the goal for a block passes the token on to the statement that it begins
  have hreact : react table (.items scope) t =
      (onStatement table scope t).andThen [.items scope] := by
    rw [react]
    cases hk : t.kind <;> first | rfl | contradiction
  rw [run_cons_cons, run_cons_cons, hreact, react]
  unfold onStatement
  cases hk : t.kind <;> rfl

/-- The branches of a conditional are read as far as they go. -/
theorem branches_rest {bound : Nat} {scope : String} {span : Span} {table table' : SymbolTable}
    {ts rest : List Token} {bs : List Branch}
    (h : branches stop bound scope span table ts = .ok (bs, table', rest)) :
    nextIs .elifWord rest = false := by
  -- on the bound: the last branch is read in some turn, and that turn has looked at the next token
  induction bound generalizing span table ts bs with
  | zero => simp [branches] at h
  | succ bound ih =>
    unfold branches at h
    obtain ⟨⟨e, us⟩, -, h₁⟩ := bind_eq_ok.mp h
    obtain ⟨⟨body, table₁, vs⟩, -, h₂⟩ := bind_eq_ok.mp h₁
    dsimp only at h₂
    -- the reader stops at the end of the tokens or before a token of another kind
    split at h₂
    · split at h₂
      · obtain ⟨⟨more, table₂, ws⟩, hm, h₃⟩ := bind_eq_ok.mp h₂
        simp only [Except.ok.injEq, Prod.mk.injEq] at h₃
        obtain ⟨-, rfl, rfl⟩ := h₃
        exact ih hm
      · next hk =>
        simp only [Except.ok.injEq, Prod.mk.injEq] at h₂
        obtain ⟨-, -, rfl⟩ := h₂
        simpa using hk
    · simp only [Except.ok.injEq, Prod.mk.injEq] at h₂
      obtain ⟨-, -, rfl⟩ := h₂
      rfl

/-- A statement, given that its parts do what their goals do under the smaller bound. -/
theorem run_statement {bound : Nat} (ih : Simulated stop bound) (scope : String)
    (table : SymbolTable) (gs : List Goal) {ts : List Token} (hb : 4 * ts.length ≤ bound + 1) :
    run table (.statement scope :: gs) ts =
      follow (statement stop (bound + 1) scope table ts) fun p => run p.2.1 gs p.2.2 := by
  cases ts with
  | nil => rw [run_cons_nil]; rfl
  | cons t ts =>
    rw [List.length_cons] at hb
    rw [run_cons_cons, react, onStatement, statement, follow_bind, take, follow_ok]
    -- three statements of one line, then the two with blocks
    cases hk : t.kind
    case identifier =>
      simp only [hk]
      rw [List.cons_append, run_afterName stop, follow_bind]
      refine follow_congr ?_
      rintro ⟨s, table', us⟩ _
      rw [List.singleton_append, run_lineEnd, follow_bind]
      rfl
    case returnWord =>
      simp only [hk]
      rw [List.cons_append, run_returned stop, follow_bind]
      refine follow_congr ?_
      rintro ⟨value, us⟩ _
      rw [List.singleton_append, run_lineEnd, follow_bind]
      rfl
    case printWord =>
      simp only [hk]
      rw [List.cons_append, run_mark stop .leftParen "'(' after print", follow_bind]
      refine follow_congr ?_
      rintro ⟨l, us⟩ _
      dsimp only
      rw [List.cons_append, run_printed stop (Nat.lt_succ_self _), follow_bind]
      refine follow_congr ?_
      rintro ⟨args, vs⟩ _
      rw [List.singleton_append, run_lineEnd, follow_bind]
      rfl
    case whileWord =>
      simp only [hk]
      rw [guarded, List.cons_append, List.cons_append,
        run_condition stop "':' after while condition", follow_bind]
      refine follow_congr ?_
      rintro ⟨e, us⟩ he
      -- the block has fewer tokens than the loop, and the bound falls by four for each
      have := condition_length stop he
      dsimp only
      rw [List.cons_append, List.singleton_append, ih.block scope table gs (by omega), follow_bind]
      rfl
    case ifWord =>
      simp only [hk]
      rw [List.append_assoc, List.singleton_append,
        ih.branches scope t.span table gs (by omega), follow_bind]
      refine follow_congr ?_
      rintro ⟨bs, table', us⟩ hbs
      -- what the branches leave is shorter, and the last block is read from there
      have hlt := ((sound stop bound).branches hbs).1.takes.2
      dsimp only
      rw [ih.otherwise scope table' gs (by omega) (branches_rest stop hbs), follow_bind]
      rfl
    -- no other token begins a statement, and both sides refuse it alike
    all_goals simp only [hk]; rfl

/-- The branches of a conditional. The reader of the branches goes on where the goal `moreBranches`
does, so both are compared with this goal still on the stack. -/
theorem run_guarded {bound : Nat} (ih : Simulated stop bound) (scope : String) (span : Span)
    (table : SymbolTable) (gs : List Goal) {ts : List Token} (hb : 4 * ts.length ≤ bound + 1) :
    run table (guarded scope ++ .moreBranches scope :: gs) ts =
      follow (branches stop (bound + 1) scope span table ts) fun p =>
        run p.2.1 (.moreBranches scope :: gs) p.2.2 := by
  rw [guarded, branches, List.cons_append, List.cons_append,
    run_condition stop "':' after if condition", follow_bind]
  refine follow_congr ?_
  rintro ⟨e, us⟩ he
  -- what the condition takes leaves the bound large enough for the block
  have hlt := condition_length stop he
  dsimp only
  rw [List.cons_append, List.singleton_append, ih.block scope table _ (by omega), follow_bind]
  refine follow_congr ?_
  rintro ⟨body, table', vs⟩ hbody
  have hlt' := ((sound stop bound).block hbody).1.takes.2
  cases vs with
  | nil => rfl
  | cons i vs =>
    rw [List.length_cons] at hlt'
    by_cases hi : i.kind = .elifWord
    · -- the goal for further branches turns into the next branch
      dsimp only
      rw [run_cons_cons, react, if_pos hi, follow_bind]
      simp only [hi]
      rw [List.append_assoc, List.singleton_append, ih.branches scope i.span table' gs (by omega)]
      rfl
    · simp [hi]

/-- The last block of a conditional. That no further branch comes next is asked for, since the goal
stands for both. -/
theorem run_moreBranches {bound : Nat} (ih : Simulated stop bound) (scope : String)
    (table : SymbolTable) (gs : List Goal) {ts : List Token}
    (hb : 4 * ts.length + 1 ≤ bound + 1) (hts : nextIs .elifWord ts = false) :
    run table (.moreBranches scope :: gs) ts =
      follow (otherwise stop (bound + 1) scope table ts) fun p => run p.2.1 gs p.2.2 := by
  cases ts with
  | nil => rw [run_cons_nil]; rfl
  | cons t ts =>
    rw [List.length_cons] at hb
    rw [nextIs_cons, decide_eq_false_iff_not] at hts
    by_cases he : t.kind = .elseWord
    · rw [run_cons_cons, react, otherwise]
      simp only [he, nextIs_cons, decide_true, if_true, List.tail_cons, follow_bind]
      rw [List.cons_append, run_mark stop .colon "':' after else"]
      refine follow_congr ?_
      rintro ⟨c, us⟩ hc
      obtain ⟨rfl, -⟩ := expect_eq_ok.mp hc
      rw [List.length_cons] at hb
      dsimp only
      rw [List.cons_append, List.singleton_append, ih.block scope table gs (by omega)]
      rfl
    · -- any other token is passed on to the goal below
      have hreact : react table (.moreBranches scope) t = .pass := by
        rw [react]
        cases hk : t.kind <;> first | rfl | contradiction
      rw [run_cons_cons, hreact, otherwise]
      simp [he]

/-- A block: the token that opens it, and what stands in it. -/
theorem run_block {bound : Nat} (ih : Simulated stop bound) (scope : String)
    (table : SymbolTable) (gs : List Goal) {ts : List Token} (hb : 4 * ts.length ≤ bound + 1) :
    run table (.mark .indent :: .items scope :: gs) ts =
      follow (block stop (bound + 1) scope table ts) fun p => run p.2.1 gs p.2.2 := by
  rw [run_mark stop .indent "indented block", block, follow_bind]
  refine follow_congr ?_
  rintro ⟨i, us⟩ hi
  -- the opening token pays for the step down in the bound
  obtain ⟨rfl, -⟩ := expect_eq_ok.mp hi
  rw [List.length_cons] at hb
  dsimp only
  exact ih.items scope table gs (by omega)

/-- A token that neither ends the block nor is an empty line begins a statement: the reader tries
its other cases first, and none of them applies. -/
theorem items_statement {bound : Nat} {scope : String} {table : SymbolTable} {t : Token}
    {ts : List Token} (hd : t.kind ≠ .dedent) (hn : t.kind ≠ .newline) :
    items stop (bound + 1) scope table (t :: ts) =
      (do let (s, table, us) ← statement stop bound scope table (t :: ts)
          let (more, table, us) ← items stop bound scope table us
          .ok (s :: more, table, us)) := by
  rw [items]
  cases hk : t.kind <;> first | rfl | contradiction

/-- What stands in a block. -/
theorem run_items {bound : Nat} (ih : Simulated stop bound) (scope : String)
    (table : SymbolTable) (gs : List Goal) {ts : List Token}
    (hb : 4 * ts.length + 1 ≤ bound + 1) :
    run table (.items scope :: gs) ts =
      follow (items stop (bound + 1) scope table ts) fun p => run p.2.1 gs p.2.2 := by
  cases ts with
  | nil => rw [run_cons_nil]; rfl
  | cons t ts =>
    -- the end of the block, a line break, or a statement
    by_cases hd : t.kind = .dedent
    · rw [run_cons_cons, react, items]
      simp [hd]
    · by_cases hn : t.kind = .newline
      · rw [List.length_cons] at hb
        rw [run_cons_cons, react, items]
        simp [hn, ih.items scope table gs (show 4 * ts.length + 1 ≤ bound by omega)]
      · rw [run_items_statement hd hn, ih.statement scope table _ (by omega)]
        rw [items_statement stop hd hn, follow_bind]
        refine follow_congr ?_
        rintro ⟨s, table', us⟩ hs
        have hlt := ((sound stop bound).statement hs).1.takes.2
        dsimp only
        rw [ih.items scope table' gs (by omega), follow_bind]
        rfl

/-- **The readers of statements do what their goals do**, under every bound that is large enough.
The step from one bound to the next is made by `run_statement`, `run_guarded`, `run_moreBranches`,
`run_block` and `run_items`. -/
theorem simulated (stop : Span) : ∀ bound, Simulated stop bound
  -- without a bound there are no tokens, or one step more was asked for
  | 0 => {
      statement := fun scope table gs ts hb => by
        obtain rfl : ts = [] := List.length_eq_zero_iff.mp (by omega)
        rfl
      branches := fun scope span table gs ts hb => by
        obtain rfl : ts = [] := List.length_eq_zero_iff.mp (by omega)
        rfl
      otherwise := fun _ _ _ _ hb => absurd hb (by omega)
      block := fun scope table gs ts hb => by
        obtain rfl : ts = [] := List.length_eq_zero_iff.mp (by omega)
        rfl
      items := fun _ _ _ _ hb => absurd hb (by omega) }
  | bound + 1 => {
      statement := fun scope table gs ts => run_statement stop (simulated stop bound) scope table gs
      branches := fun scope span table gs ts =>
        run_guarded stop (simulated stop bound) scope span table gs
      otherwise := fun scope table gs ts =>
        run_moreBranches stop (simulated stop bound) scope table gs
      block := fun scope table gs ts => run_block stop (simulated stop bound) scope table gs
      items := fun scope table gs ts => run_items stop (simulated stop bound) scope table gs }

/-! ### Modules -/

/-- **A function** after its first word, and then the rest. -/
theorem run_function (span : Span) (table : SymbolTable) (gs : List Goal) (ts : List Token) :
    run table (.function :: gs) ts =
      follow (function stop span table ts) fun p => run p.2.1 gs p.2.2 := by
  rw [function, follow_bind]
  cases ts with
  | nil => rw [run_cons_nil]; rfl
  | cons t ts =>
    rw [run_cons_cons]
    by_cases hk : t.kind = .identifier
    · rw [react]
      cases hname : t.name? with
      | none =>
        simp [hk, hname, expectName, expect, take, bind, Except.bind, unexpected,
          GrammarError.unexpected]
      | some name =>
        have hn : expectName stop "function name" (t :: ts) = .ok ((name, t.span), ts) :=
          expectName_eq_ok.mpr ⟨t, rfl, ⟨hk, name?_eq_some.mp hname⟩, rfl⟩
        rw [hn, follow_ok]
        simp only [hk, List.cons_append, List.nil_append]
        -- the goals of the header, one after another, against the reads of the parser
        rw [run_mark stop .leftParen "'(' after function name", follow_bind]
        refine follow_congr ?_
        rintro ⟨l, us⟩ _
        rw [run_params stop, follow_bind]
        refine follow_congr ?_
        rintro ⟨params, us⟩ _
        rw [run_mark stop .arrow "'->' after parameter list", follow_bind]
        refine follow_congr ?_
        rintro ⟨a, us⟩ _
        rw [run_returnType stop, follow_bind]
        refine follow_congr ?_
        rintro ⟨type, us⟩ _
        rw [run_mark stop .colon "':' after return type", follow_bind]
        refine follow_congr ?_
        rintro ⟨c, us⟩ _
        dsimp only
        -- the bound of the block is reckoned from the tokens left, so it is large enough
        rw [(simulated stop (budget us)).block name table gs (by unfold budget; omega),
          follow_bind]
        rfl
    · have hreact : react table .function t = unexpected t := by
        rw [react]
        cases h : t.kind <;> first | rfl | contradiction
      rw [hreact]
      simp [hk, expectName, expect, take, bind, Except.bind, unexpected, GrammarError.unexpected]

/-- A statement at module level, and then the rest. -/
theorem run_moduleStatement (table : SymbolTable) {t : Token} (ts : List Token)
    (hn : t.kind ≠ .newline) (hd : t.kind ≠ .defWord) (hdd : t.kind ≠ .dedent) :
    run table [] (t :: ts) =
      follow (statement stop (budget (t :: ts)) SymbolTable.moduleName table (t :: ts)) fun p =>
        run p.2.1 [] p.2.2 := by
  have hmodule : onModule table t = onStatement table SymbolTable.moduleName t := by
    unfold onModule
    cases h : t.kind <;> first | rfl | contradiction
  rw [← (simulated stop _).statement SymbolTable.moduleName table []
    (show 4 * (t :: ts).length ≤ budget (t :: ts) by unfold budget; omega),
    run_nil_cons, run_cons_cons, hmodule, react]
  -- a statement never lets its first token pass
  have hpass : onStatement table SymbolTable.moduleName t ≠ .pass := by
    unfold onStatement
    split <;> simp [unexpected]
  cases h : onStatement table SymbolTable.moduleName t with
  | shift table' goals => simp
  | pass => exact absurd h hpass
  | refuse fault token => rfl

/-- What is neither a line break, a function nor the end of a block is read as a statement of the
module. -/
theorem topLevel_statement {bound : Nat} {table : SymbolTable} {t : Token} {ts : List Token}
    (hn : t.kind ≠ .newline) (hd : t.kind ≠ .defWord) (hdd : t.kind ≠ .dedent) :
    topLevel stop (bound + 1) table (t :: ts) =
      (do let (s, table, us) ←
            statement stop (budget (t :: ts)) SymbolTable.moduleName table (t :: ts)
          let (table, p) ← topLevel stop bound table us
          .ok (table, { p with body := s :: p.body })) := by
  rw [topLevel]
  cases h : t.kind <;> first | rfl | contradiction

/-- The parts of a module one after the other, under a bound that is large enough for the tokens. -/
theorem run_topLevel {bound : Nat} (table : SymbolTable) {ts : List Token}
    (hb : ts.length < bound) :
    run table [] ts = follow (topLevel stop bound table ts) fun p => .ok p.1 := by
  -- on the bound: each part takes tokens
  induction bound generalizing table ts with
  | zero => omega
  | succ bound ih =>
    cases ts with
    | nil => rfl
    | cons t ts =>
      rw [List.length_cons] at hb
      by_cases hn : t.kind = .newline
      · rw [run_nil_cons, onModule, topLevel]
        simp only [hn]
        exact ih table (by omega)
      by_cases hd : t.kind = .defWord
      · rw [run_nil_cons, onModule, topLevel]
        simp only [hd]
        rw [run_function stop t.span, follow_bind]
        refine follow_congr ?_
        rintro ⟨f, table', us⟩ hf
        have hlt := (function_derives hd hf).1.takes.2
        rw [List.length_cons] at hlt
        dsimp only
        rw [ih table' (by omega), follow_bind]
        rfl
      by_cases hdd : t.kind = .dedent
      · rw [run_nil_cons, onModule, topLevel]
        simp only [hdd]
        rfl
      -- anything else is a statement
      rw [run_moduleStatement stop table ts hn hd hdd, topLevel_statement stop hn hd hdd,
        follow_bind]
      refine follow_congr ?_
      rintro ⟨s, table', us⟩ hs
      have hlt := ((sound stop _).statement hs).1.takes.2
      rw [List.length_cons] at hlt
      dsimp only
      rw [ih table' (by omega), follow_bind]
      rfl

/-- **Parsing is running the empty stack**: the same symbol table, or the same fault at the same
token (`run_topLevel`). -/
theorem run_parse (ts : List Token) :
    run .empty [] ts = follow (parse ts) fun p => .ok p.1 :=
  run_topLevel (stopOf ts) .empty (Nat.lt_succ_self _)

end Offside.Expectation
