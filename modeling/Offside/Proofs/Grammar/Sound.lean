import Offside.Proofs.Declarations
import Offside.Proofs.Grammar.Lines

/-!
# What is read is derived

Every reader of statements returns a tree that the grammar derives from the tokens it took, and a
symbol table in which exactly the annotations of that tree have been recorded, in the order in which
they are written.

Reading a statement goes down into blocks and comes back to statements, each time with a smaller
bound, so the five readers are treated together: `Sound bound` says what all of them give under one
bound, and `sound` proves it by induction on the bound. The rules are taken with `Leads` here, which
makes the result true of all token sequences.
-/

namespace Offside.Parser

open Grammar

variable {stop : Span}

/-- Annotations as declarations of a scope. -/
abbrev inScope (scope : String) (symbols : List Symbol) : List (String × Symbol) :=
  symbols.map (scope, ·)

/-- Declaring one variable is recording one annotation. -/
theorem declare_eq_ok {scope name : String} {t : Token} {type : ValueType}
    {table table' : SymbolTable} :
    declare scope t name type table = .ok table' ↔
      table.record (inScope scope [⟨name, type, t.span⟩]) = .ok table' := by
  rw [inScope, List.map_singleton, SymbolTable.record_cons]
  unfold declare
  cases table.declare scope ⟨name, type, t.span⟩ <;> simp [bind, Except.bind]

/-! ### Print statements -/

/-- One more value before the values of a print statement. -/
theorem Printed.cons {ts us : List Token} {c : Token} {e : Expr} {es : List Expr}
    (he : Expression ts e) (hc : c.kind = .comma) (h : Printed us es) :
    Printed (ts ++ c :: us) (e :: es) := by
  cases h with
  -- a comma before the parenthesis: the reader sees no more values, the rule a trailing comma
  | none hr => exact .trailing (.one he) hc hr
  | @some vs r _ hs hr =>
    have := Printed.some (.more he hc hs) hr
    rwa [List.append_assoc] at this
  | @trailing vs c' r _ hs hc' hr =>
    have := Printed.trailing (.more he hc hs) hc' hr
    rwa [List.append_assoc] at this

/-- The values of a print statement are read one by one. The rule for a trailing comma is
`Printed.cons` with no value behind it. -/
theorem printed_derives {bound : Nat} {ts rest : List Token} {es : List Expr}
    (h : printed stop bound ts = .ok (es, rest)) : ∃ pre, ts = pre ++ rest ∧ Printed pre es := by
  induction bound generalizing ts es with
  | zero => simp [printed] at h
  | succ bound ih =>
    unfold printed at h
    split at h
    · next hn =>
      obtain ⟨r, us, rfl, hr⟩ := nextIs_eq_true.mp hn
      simp only [List.tail_cons, Except.ok.injEq, Prod.mk.injEq] at h
      -- a parenthesis at once: no value, or none behind the last comma
      obtain ⟨rfl, rfl⟩ := h
      exact ⟨[r], rfl, .none hr⟩
    · obtain ⟨⟨e, us⟩, he, h₁⟩ := bind_eq_ok.mp h
      obtain ⟨⟨mark, vs⟩, hm, h₂⟩ := bind_eq_ok.mp h₁
      obtain ⟨pre, rfl, hpre⟩ := expression_derives he
      obtain rfl := take_eq_ok.mp hm
      dsimp only at h₂
      split at h₂
      · next hk =>
        -- a comma: what stands behind it is derived by induction, also the parenthesis alone
        obtain ⟨⟨more, ws⟩, hmore, h₃⟩ := bind_eq_ok.mp h₂
        simp only [Except.ok.injEq, Prod.mk.injEq] at h₃
        obtain ⟨rfl, rfl⟩ := h₃
        obtain ⟨pre', rfl, hpre'⟩ := ih hmore
        exact ⟨pre ++ mark :: pre', by simp, Printed.cons hpre hk hpre'⟩
      · next hk =>
        simp only [Except.ok.injEq, Prod.mk.injEq] at h₂
        obtain ⟨rfl, rfl⟩ := h₂
        exact ⟨pre ++ [mark], by simp, .some (.one hpre) hk⟩
      · cases h₂

/-! ### Statements on one line -/

/-- The end of a statement, read and as a rule. A dedent is left for the block that it closes. -/
theorem endOfStatement_eq_ok {ts rest : List Token} :
    endOfStatement ts = .ok rest ↔ Ended ts rest := by
  -- the end of the tokens ends a statement, as a dedent does without being taken
  cases ts with
  | nil =>
    constructor
    · intro h
      cases h
      exact .endOfTokens
    · intro h
      cases h
      rfl
  | cons t ts =>
    constructor
    · intro h
      simp only [endOfStatement] at h
      split at h
      · next hk =>
        cases h
        exact .dedent hk
      · next hk =>
        cases h
        exact .newline hk
      · cases h
    · intro h
      cases h with
      | newline hk => simp [endOfStatement, hk]
      | dedent hk => simp [endOfStatement, hk]

/-- A statement that begins with a name: the next token decides which of the four it is. -/
theorem nameStatement_derives {scope : String} {t : Token} {table table' : SymbolTable}
    {ts rest : List Token} {s : Stmt} (ht : t.kind = .identifier)
    (h : nameStatement stop scope t table ts = .ok (s, table', rest)) :
    ∃ pre, ts = pre ++ rest ∧ Simple Leads (t :: pre) s ∧
      table.record (inScope scope s.annotations) = .ok table' := by
  have hlead : Leads t (t.name?.getD "") := ⟨ht, rfl⟩
  unfold nameStatement at h
  split at h
  · next hn =>
    -- an annotation: the variable is declared before the value is read
    obtain ⟨c, us, rfl, hc⟩ := nextIs_eq_true.mp hn
    obtain ⟨⟨type, vs⟩, htype, h₁⟩ := bind_eq_ok.mp h
    obtain ⟨y, rfl, hy⟩ := valueType_eq_ok.mp htype
    obtain ⟨table₁, hd, h₂⟩ := bind_eq_ok.mp h₁
    dsimp only at h₂
    split at h₂
    · next hn' =>
      obtain ⟨a, ws, rfl, ha⟩ := nextIs_eq_true.mp hn'
      obtain ⟨⟨e, xs⟩, he, h₃⟩ := bind_eq_ok.mp h₂
      obtain ⟨pre, rfl, hpre⟩ := expression_derives he
      simp only [Except.ok.injEq, Prod.mk.injEq] at h₃
      obtain ⟨rfl, rfl, rfl⟩ := h₃
      exact ⟨c :: y :: a :: pre, rfl, .annotated hlead hc hy ha hpre, declare_eq_ok.mp hd⟩
    · simp only [Except.ok.injEq, Prod.mk.injEq] at h₂
      obtain ⟨rfl, rfl, rfl⟩ := h₂
      exact ⟨[c, y], rfl, .declaration hlead hc hy, declare_eq_ok.mp hd⟩
  · split at h
    · next hn =>
      -- an assignment
      obtain ⟨a, us, rfl, ha⟩ := nextIs_eq_true.mp hn
      obtain ⟨⟨e, vs⟩, he, h₁⟩ := bind_eq_ok.mp h
      obtain ⟨pre, rfl, hpre⟩ := expression_derives he
      simp only [Except.ok.injEq, Prod.mk.injEq] at h₁
      obtain ⟨rfl, rfl, rfl⟩ := h₁
      exact ⟨a :: pre, rfl, .assignment hlead ha hpre, rfl⟩
    · split at h
      · -- a call
        obtain ⟨⟨c, vs⟩, hc, h₁⟩ := bind_eq_ok.mp h
        obtain ⟨l, us, args, rfl, hl, hargs, rfl⟩ := callTail_eq_ok.mp hc
        obtain ⟨pre, rfl, hpre⟩ := arguments_derive hargs
        simp only [Except.ok.injEq, Prod.mk.injEq] at h₁
        obtain ⟨rfl, rfl, rfl⟩ := h₁
        exact ⟨l :: pre, rfl, .call hlead hl hpre, rfl⟩
      · -- any other token after a name is refused
        obtain ⟨⟨u, us⟩, -, h₁⟩ := bind_eq_ok.mp h
        cases h₁

/-- What is given back: a value, unless the line ends at once. -/
theorem returned_derives {t : Token} {ts rest : List Token} {value : Option Expr}
    (ht : t.kind = .returnWord) (h : returned stop ts = .ok (value, rest)) :
    ∃ pre, ts = pre ++ rest ∧ Simple Leads (t :: pre) (.giveBack value t.span) := by
  unfold returned at h
  split at h
  · simp only [Except.ok.injEq, Prod.mk.injEq] at h
    obtain ⟨rfl, rfl⟩ := h
    exact ⟨[], rfl, .returnNothing ht⟩
  · obtain ⟨⟨e, us⟩, he, h₁⟩ := bind_eq_ok.mp h
    -- something stands on the line, so it is a value
    obtain ⟨pre, rfl, hpre⟩ := expression_derives he
    simp only [Except.ok.injEq, Prod.mk.injEq] at h₁
    obtain ⟨rfl, rfl⟩ := h₁
    exact ⟨pre, rfl, .returnValue ht hpre⟩

/-- A condition and the colon behind it. -/
theorem condition_derives {after : String} {ts rest : List Token} {e : Expr}
    (h : condition stop after ts = .ok (e, rest)) :
    ∃ es c, ts = es ++ c :: rest ∧ Expression es e ∧ c.kind = .colon := by
  obtain ⟨⟨e', us⟩, he, h₁⟩ := bind_eq_ok.mp h
  obtain ⟨⟨c, vs⟩, hc, h₂⟩ := bind_eq_ok.mp h₁
  simp only [Except.ok.injEq, Prod.mk.injEq] at h₂
  obtain ⟨rfl, rfl⟩ := h₂
  obtain ⟨pre, rfl, hpre⟩ := expression_derives he
  obtain ⟨rfl, hk⟩ := expect_eq_ok.mp hc
  exact ⟨pre, c, rfl, hpre, hk⟩

/-! ### Statements and blocks -/

/-- What the readers of statements give under a bound is derived, and exactly its annotations are
recorded. -/
structure Sound (stop : Span) (bound : Nat) : Prop where
  statement : ∀ {scope table ts s table' rest},
    statement stop bound scope table ts = .ok (s, table', rest) →
      Statement Leads ts s rest ∧ table.record (inScope scope s.annotations) = .ok table'
  branches : ∀ {scope span table ts bs table' rest},
    branches stop bound scope span table ts = .ok (bs, table', rest) →
      Branches Leads span ts bs rest ∧
        table.record (inScope scope (Stmt.annotationsOfBranches bs)) = .ok table'
  otherwise : ∀ {scope table ts last table' rest},
    otherwise stop bound scope table ts = .ok (last, table', rest) →
      Otherwise Leads ts last rest ∧
        table.record (inScope scope (Stmt.annotationsOfBlock (last.getD []))) = .ok table'
  block : ∀ {scope table ts body table' rest},
    block stop bound scope table ts = .ok (body, table', rest) →
      Block Leads ts body rest ∧
        table.record (inScope scope (Stmt.annotationsOfBlock body)) = .ok table'
  items : ∀ {scope table ts ss table' rest},
    items stop bound scope table ts = .ok (ss, table', rest) →
      Items Leads ts ss rest ∧
        table.record (inScope scope (Stmt.annotationsOfBlock ss)) = .ok table'

/-- The annotations of a conditional are those of its branches and then those of its last block. -/
theorem annotations_choose (bs : List Branch) (last : Option (List Stmt)) (span : Span) :
    (Stmt.choose bs last span).annotations =
      Stmt.annotationsOfBranches bs ++ Stmt.annotationsOfBlock (last.getD []) := by
  cases last <;> simp [Stmt.annotations, Stmt.annotationsOfBlock]

/-- One statement, if all that a smaller bound gives is derived. The first token decides. -/
theorem statement_derives {bound : Nat} (ih : Sound stop bound) {scope : String}
    {table table' : SymbolTable} {ts rest : List Token} {s : Stmt}
    (h : statement stop (bound + 1) scope table ts = .ok (s, table', rest)) :
    Statement Leads ts s rest ∧ table.record (inScope scope s.annotations) = .ok table' := by
  unfold statement at h
  obtain ⟨⟨t, us⟩, ht, h₁⟩ := bind_eq_ok.mp h
  obtain rfl := take_eq_ok.mp ht
  dsimp only at h₁
  split at h₁
  · next hk =>
    -- a name
    obtain ⟨⟨s', table₁, vs⟩, hs, h₂⟩ := bind_eq_ok.mp h₁
    obtain ⟨ws, he, h₃⟩ := bind_eq_ok.mp h₂
    simp only [Except.ok.injEq, Prod.mk.injEq] at h₃
    obtain ⟨rfl, rfl, rfl⟩ := h₃
    obtain ⟨pre, rfl, hpre, hrec⟩ := nameStatement_derives hk hs
    exact ⟨.simple hpre (endOfStatement_eq_ok.mp he), hrec⟩
  · next hk =>
    -- a value to give back
    obtain ⟨⟨value, vs⟩, hv, h₂⟩ := bind_eq_ok.mp h₁
    obtain ⟨ws, he, h₃⟩ := bind_eq_ok.mp h₂
    simp only [Except.ok.injEq, Prod.mk.injEq] at h₃
    obtain ⟨rfl, rfl, rfl⟩ := h₃
    obtain ⟨pre, rfl, hpre⟩ := returned_derives hk hv
    exact ⟨.simple hpre (endOfStatement_eq_ok.mp he), rfl⟩
  · next hk =>
    -- something to print
    obtain ⟨⟨l, vs⟩, hl, h₂⟩ := bind_eq_ok.mp h₁
    obtain ⟨⟨args, ws⟩, hargs, h₃⟩ := bind_eq_ok.mp h₂
    obtain ⟨xs, he, h₄⟩ := bind_eq_ok.mp h₃
    simp only [Except.ok.injEq, Prod.mk.injEq] at h₄
    obtain ⟨rfl, rfl, rfl⟩ := h₄
    obtain ⟨rfl, hlp⟩ := expect_eq_ok.mp hl
    obtain ⟨pre, rfl, hpre⟩ := printed_derives hargs
    exact ⟨.simple (.print hk hlp hpre) (endOfStatement_eq_ok.mp he), rfl⟩
  · next hk =>
    -- a loop
    obtain ⟨⟨e, vs⟩, he, h₂⟩ := bind_eq_ok.mp h₁
    obtain ⟨⟨body, table₁, ws⟩, hb, h₃⟩ := bind_eq_ok.mp h₂
    simp only [Except.ok.injEq, Prod.mk.injEq] at h₃
    obtain ⟨rfl, rfl, rfl⟩ := h₃
    obtain ⟨es, c, rfl, hes, hc⟩ := condition_derives he
    obtain ⟨hblock, hrec⟩ := ih.block hb
    exact ⟨.loop hk hes hc hblock, hrec⟩
  · next hk =>
    -- a choice, whose branches declare before its last block does
    obtain ⟨⟨bs, table₁, vs⟩, hbs, h₂⟩ := bind_eq_ok.mp h₁
    obtain ⟨⟨last, table₂, ws⟩, hl, h₃⟩ := bind_eq_ok.mp h₂
    simp only [Except.ok.injEq, Prod.mk.injEq] at h₃
    obtain ⟨rfl, rfl, rfl⟩ := h₃
    obtain ⟨hbranches, hrec₁⟩ := ih.branches hbs
    obtain ⟨hlast, hrec₂⟩ := ih.otherwise hl
    refine ⟨.choose hk hbranches hlast, ?_⟩
    rw [annotations_choose, inScope, List.map_append]
    exact SymbolTable.record_append_ok hrec₁ hrec₂
  · -- no other token begins a statement
    cases h₁
  · cases h₁
  · cases h₁

/-- A condition, its block, and the other branches. -/
theorem branches_derive {bound : Nat} (ih : Sound stop bound) {scope : String} {span : Span}
    {table table' : SymbolTable} {ts rest : List Token} {bs : List Branch}
    (h : branches stop (bound + 1) scope span table ts = .ok (bs, table', rest)) :
    Branches Leads span ts bs rest ∧
      table.record (inScope scope (Stmt.annotationsOfBranches bs)) = .ok table' := by
  unfold branches at h
  obtain ⟨⟨e, us⟩, he, h₁⟩ := bind_eq_ok.mp h
  obtain ⟨⟨body, table₁, vs⟩, hb, h₂⟩ := bind_eq_ok.mp h₁
  obtain ⟨es, c, rfl, hes, hc⟩ := condition_derives he
  obtain ⟨hblock, hrec⟩ := ih.block hb
  dsimp only at h₂
  -- another branch follows only if the next token is the word for it
  split at h₂
  · split at h₂
    · next hk =>
      obtain ⟨⟨more, table₂, ws⟩, hm, h₃⟩ := bind_eq_ok.mp h₂
      simp only [Except.ok.injEq, Prod.mk.injEq] at h₃
      obtain ⟨rfl, rfl, rfl⟩ := h₃
      obtain ⟨hmore, hrec'⟩ := ih.branches hm
      refine ⟨.more hes hc hblock hk hmore, ?_⟩
      rw [Stmt.annotationsOfBranches, inScope, List.map_append]
      exact SymbolTable.record_append_ok hrec hrec'
    · simp only [Except.ok.injEq, Prod.mk.injEq] at h₂
      obtain ⟨rfl, rfl, rfl⟩ := h₂
      refine ⟨.one hes hc hblock, ?_⟩
      rwa [Stmt.annotationsOfBranches, Stmt.annotationsOfBranches, List.append_nil]
  · simp only [Except.ok.injEq, Prod.mk.injEq] at h₂
    obtain ⟨rfl, rfl, rfl⟩ := h₂
    refine ⟨.one hes hc hblock, ?_⟩
    rwa [Stmt.annotationsOfBranches, Stmt.annotationsOfBranches, List.append_nil]

/-- The last block, if the word for it comes next. -/
theorem otherwise_derives {bound : Nat} (ih : Sound stop bound) {scope : String}
    {table table' : SymbolTable} {ts rest : List Token} {last : Option (List Stmt)}
    (h : otherwise stop (bound + 1) scope table ts = .ok (last, table', rest)) :
    Otherwise Leads ts last rest ∧
      table.record (inScope scope (Stmt.annotationsOfBlock (last.getD []))) = .ok table' := by
  unfold otherwise at h
  split at h
  · next hn =>
    obtain ⟨w, us, rfl, hw⟩ := nextIs_eq_true.mp hn
    obtain ⟨⟨c, vs⟩, hc, h₁⟩ := bind_eq_ok.mp h
    obtain ⟨⟨body, table₁, ws⟩, hb, h₂⟩ := bind_eq_ok.mp h₁
    simp only [Except.ok.injEq, Prod.mk.injEq] at h₂
    obtain ⟨rfl, rfl, rfl⟩ := h₂
    obtain ⟨heq, hcolon⟩ := expect_eq_ok.mp hc
    obtain ⟨hblock, hrec⟩ := ih.block hb
    -- the word itself was only looked at, and is dropped here
    rw [List.tail_cons] at heq
    subst heq
    exact ⟨.some hw hcolon hblock, hrec⟩
  · simp only [Except.ok.injEq, Prod.mk.injEq] at h
    obtain ⟨rfl, rfl, rfl⟩ := h
    exact ⟨.none, rfl⟩

/-- A block begins with an indent. -/
theorem block_derives {bound : Nat} (ih : Sound stop bound) {scope : String}
    {table table' : SymbolTable} {ts rest : List Token} {body : List Stmt}
    (h : block stop (bound + 1) scope table ts = .ok (body, table', rest)) :
    Block Leads ts body rest ∧
      table.record (inScope scope (Stmt.annotationsOfBlock body)) = .ok table' := by
  unfold block at h
  obtain ⟨⟨i, us⟩, hi, h₁⟩ := bind_eq_ok.mp h
  obtain ⟨rfl, hk⟩ := expect_eq_ok.mp hi
  obtain ⟨hitems, hrec⟩ := ih.items h₁
  exact ⟨.mk hk hitems, hrec⟩

/-- The statements of a block, up to the dedent that ends it. A line break left over is passed over.
-/
theorem items_derive {bound : Nat} (ih : Sound stop bound) {scope : String}
    {table table' : SymbolTable} {ts rest : List Token} {ss : List Stmt}
    (h : items stop (bound + 1) scope table ts = .ok (ss, table', rest)) :
    Items Leads ts ss rest ∧
      table.record (inScope scope (Stmt.annotationsOfBlock ss)) = .ok table' := by
  cases ts with
  | nil =>
    simp only [items, Except.ok.injEq, Prod.mk.injEq] at h
    obtain ⟨rfl, rfl, rfl⟩ := h
    exact ⟨.endOfTokens, rfl⟩
  | cons t ts =>
    unfold items at h
    split at h
    · next hk =>
      simp only [Except.ok.injEq, Prod.mk.injEq] at h
      obtain ⟨rfl, rfl, rfl⟩ := h
      exact ⟨.dedent hk, rfl⟩
    · next hk =>
      obtain ⟨hitems, hrec⟩ := ih.items h
      exact ⟨.newline hk hitems, hrec⟩
    · -- a statement, which declares before those behind it do
      obtain ⟨⟨s, table₁, us⟩, hs, h₁⟩ := bind_eq_ok.mp h
      obtain ⟨⟨more, table₂, vs⟩, hm, h₂⟩ := bind_eq_ok.mp h₁
      simp only [Except.ok.injEq, Prod.mk.injEq] at h₂
      obtain ⟨rfl, rfl, rfl⟩ := h₂
      obtain ⟨hstmt, hrec⟩ := ih.statement hs
      obtain ⟨hmore, hrec'⟩ := ih.items hm
      refine ⟨.statement hstmt hmore, ?_⟩
      rw [Stmt.annotationsOfBlock, inScope, List.map_append]
      exact SymbolTable.record_append_ok hrec hrec'

/-- **What the readers of statements give is derived**, under every bound. -/
theorem sound (stop : Span) : ∀ bound, Sound stop bound
  | 0 => {
      -- without a bound nothing is read
      statement := fun h => absurd h (by simp [statement])
      branches := fun h => absurd h (by simp [branches])
      otherwise := fun h => absurd h (by simp [otherwise])
      block := fun h => absurd h (by simp [block])
      items := fun h => absurd h (by simp [items]) }
  | bound + 1 => {
      statement := statement_derives (sound stop bound)
      branches := branches_derive (sound stop bound)
      otherwise := otherwise_derives (sound stop bound)
      block := block_derives (sound stop bound)
      items := items_derive (sound stop bound) }

/-! ### Modules -/

/-- A function: each reader of its header is a rule, and `sound` gives the block. -/
theorem function_derives {d : Token} {table table' : SymbolTable} {ts rest : List Token}
    {f : Function} (hd : d.kind = .defWord)
    (h : function stop d.span table ts = .ok (f, table', rest)) :
    FunctionDef Leads (d :: ts) f rest ∧
      table.record (Item.annotations (.function f)) = .ok table' := by
  unfold function at h
  -- first take the reader apart step by step, then read each step as a rule
  obtain ⟨⟨⟨name, span⟩, ts₁⟩, hn, h₁⟩ := bind_eq_ok.mp h
  obtain ⟨⟨l, ts₂⟩, hl, h₂⟩ := bind_eq_ok.mp h₁
  obtain ⟨⟨params, ts₃⟩, hp, h₃⟩ := bind_eq_ok.mp h₂
  obtain ⟨⟨a, ts₄⟩, ha, h₄⟩ := bind_eq_ok.mp h₃
  obtain ⟨⟨type, ts₅⟩, hr, h₅⟩ := bind_eq_ok.mp h₄
  obtain ⟨⟨c, ts₆⟩, hc, h₆⟩ := bind_eq_ok.mp h₅
  obtain ⟨⟨body, table₁, ts₇⟩, hb, h₇⟩ := bind_eq_ok.mp h₆
  simp only [Except.ok.injEq, Prod.mk.injEq] at h₇
  obtain ⟨rfl, rfl, rfl⟩ := h₇
  obtain ⟨n, rfl, hname, -⟩ := expectName_eq_ok.mp hn
  obtain ⟨rfl, hlp⟩ := expect_eq_ok.mp hl
  obtain ⟨ps, rfl, hps⟩ := params_derive hp
  obtain ⟨rfl, harrow⟩ := expect_eq_ok.mp ha
  obtain ⟨r, rfl, hret⟩ := returnType_eq_ok.mp hr
  obtain ⟨rfl, hcolon⟩ := expect_eq_ok.mp hc
  obtain ⟨hblock, hrec⟩ := (sound stop _).block hb
  exact ⟨.mk hd hname hlp hps harrow hret hcolon hblock, hrec⟩

/-- **What is read as a module is derived**, and exactly its annotations are recorded. -/
theorem topLevel_derives {bound : Nat} {table table' : SymbolTable} {ts : List Token}
    {p : Program} (h : topLevel stop bound table ts = .ok (table', p)) :
    ∃ is, Module Leads ts is ∧ p = Item.program is ∧
      table.record (is.flatMap Item.annotations) = .ok table' := by
  induction bound generalizing table ts p with
  | zero => simp [topLevel] at h
  | succ bound ih =>
    cases ts with
    | nil =>
      simp only [topLevel, Except.ok.injEq, Prod.mk.injEq] at h
      obtain ⟨rfl, rfl⟩ := h
      exact ⟨[], .nil, rfl, rfl⟩
    | cons t ts =>
      unfold topLevel at h
      split at h
      · next hk =>
        obtain ⟨is, his, hp, hrec⟩ := ih h
        exact ⟨is, .newline hk his, hp, hrec⟩
      · next hk =>
        obtain ⟨⟨f, table₁, us⟩, hf, h₁⟩ := bind_eq_ok.mp h
        obtain ⟨⟨table₂, q⟩, hq, h₂⟩ := bind_eq_ok.mp h₁
        simp only [Except.ok.injEq, Prod.mk.injEq] at h₂
        obtain ⟨rfl, rfl⟩ := h₂
        obtain ⟨hfun, hrec⟩ := function_derives hk hf
        obtain ⟨is, his, rfl, hrec'⟩ := ih hq
        exact ⟨.function f :: is, .function hfun his, rfl,
          SymbolTable.record_append_ok hrec hrec'⟩
      · -- a dedent: the module has no block around it to go back to
        cases h
      · obtain ⟨⟨s, table₁, us⟩, hs, h₁⟩ := bind_eq_ok.mp h
        obtain ⟨⟨table₂, q⟩, hq, h₂⟩ := bind_eq_ok.mp h₁
        simp only [Except.ok.injEq, Prod.mk.injEq] at h₂
        obtain ⟨rfl, rfl⟩ := h₂
        obtain ⟨hstmt, hrec⟩ := (sound stop _).statement hs
        obtain ⟨is, his, rfl, hrec'⟩ := ih hq
        exact ⟨.statement s :: is, .statement hstmt his, rfl,
          SymbolTable.record_append_ok hrec hrec'⟩

end Offside.Parser
