import Offside.Proofs.Grammar.Sound

/-!
# What is derived is read

The other direction: a tree that the grammar derives from some tokens is the one that the readers
return, if its annotations can be recorded.

Three things have to be seen to. The rules let a conditional stop before an `elif` or an `else` that
could belong to it, and a reader does not, so what follows a statement must be `Unbranched`; inside
a block or a module it always is, because no statement begins with these words. The bound must be
large enough, and four times the number of tokens is (`Complete`). And each derivation takes at
least one token (`Statement.takes`), which is what makes the bounds of its parts large enough too.
-/

namespace Offside.Grammar

variable {lead : Token → String → Prop}

/-! ### Every derivation takes tokens -/

/-- The second sequence is what is left of the first after at least one token. -/
def Takes (ts rest : List Token) : Prop := rest <:+ ts ∧ rest.length < ts.length

/-- More tokens may be taken first. -/
theorem Takes.append {es ts rest : List Token} (h : Takes ts rest) : Takes (es ++ ts) rest :=
  ⟨h.1.trans (List.suffix_append es ts), by
    rw [List.length_append]
    have := h.2
    omega⟩

/-- One more token may be taken first. -/
theorem Takes.cons {t : Token} {ts rest : List Token} (h : Takes ts rest) :
    Takes (t :: ts) rest := by
  rw [← List.singleton_append]
  exact h.append

/-- With one token taken, any number of others may be. -/
theorem Takes.of_suffix {t : Token} {ts rest : List Token} (h : rest <:+ ts) :
    Takes (t :: ts) rest :=
  ⟨h.trans (List.suffix_cons t ts), Nat.lt_succ_of_le h.length_le⟩

/-- After some tokens are taken, more of them may be. -/
theorem Takes.trans {ts mid rest : List Token} (h : Takes ts mid) (h' : rest <:+ mid) :
    Takes ts rest := ⟨h'.trans h.1, Nat.lt_of_le_of_lt h'.length_le h.2⟩

/-- The end of a statement takes at most one token. -/
theorem Ended.suffix {ts rest : List Token} (h : Ended ts rest) : rest <:+ ts := by
  cases h with
  | newline _ => exact List.suffix_cons _ _
  | dedent _ => exact List.suffix_rfl
  | endOfTokens => exact List.suffix_rfl

/-- A statement of one line has a token. -/
theorem Simple.ne_nil {ts : List Token} {s : Stmt} (h : Simple lead ts s) : ts ≠ [] := by
  cases h <;> simp

mutual

/-- **A statement takes at least one token.** The last block of a conditional and the statements of
a block may take none, so of them it is only said that what they leave is an end of what they begin
with. -/
theorem Statement.takes {ts rest : List Token} {s : Stmt} : Statement lead ts s rest → Takes ts rest
  | .simple hs he => by
    obtain ⟨t, us, rfl⟩ := List.exists_cons_of_ne_nil hs.ne_nil
    exact .of_suffix (he.suffix.trans (List.suffix_append _ _))
  | .loop _ _ _ hb => hb.takes.cons.append.cons
  | .choose _ hb ho => (hb.takes.trans ho.suffix).cons

theorem Branches.takes {span : Span} {ts rest : List Token} {bs : List Branch} :
    Branches lead span ts bs rest → Takes ts rest
  | .one _ _ hb => hb.takes.cons.append
  | .more _ _ hb _ hm => (hb.takes.trans hm.takes.cons.1).cons.append

theorem Otherwise.suffix {ts rest : List Token} {last : Option (List Stmt)} :
    Otherwise lead ts last rest → rest <:+ ts
  | .none => List.suffix_rfl
  | .some _ _ hb => hb.takes.cons.cons.1

theorem Block.takes {ts rest : List Token} {body : List Stmt} :
    Block lead ts body rest → Takes ts rest
  | .mk _ hi => .of_suffix hi.suffix

theorem Items.suffix {ts rest : List Token} {ss : List Stmt} :
    Items lead ts ss rest → rest <:+ ts
  | .endOfTokens => List.suffix_rfl
  | .dedent _ => List.suffix_cons _ _
  | .newline _ hi => hi.suffix.trans (List.suffix_cons _ _)
  | .statement hs hi => hi.suffix.trans hs.takes.1

end

/-- A function takes its head and its block. -/
theorem FunctionDef.takes {ts rest : List Token} {f : Function}
    (h : FunctionDef lead ts f rest) : Takes ts rest := by
  cases h with
  | mk _ _ _ _ _ _ _ hblock => exact hblock.takes.cons.cons.cons.append.cons.cons.cons

/-! ### What can come first -/

/-- The tokens cannot continue a conditional. -/
def Unbranched (ts : List Token) : Prop :=
  ∀ t ∈ ts.head?, t.kind ≠ .elifWord ∧ t.kind ≠ .elseWord

@[simp] theorem unbranched_nil : Unbranched [] := fun _ h => absurd h (by simp)

@[simp] theorem unbranched_cons {t : Token} {ts : List Token} :
    Unbranched (t :: ts) ↔ t.kind ≠ .elifWord ∧ t.kind ≠ .elseWord := by
  simp [Unbranched]

/-- The kinds of token that can begin a statement of one line. -/
theorem Simple.first {ts : List Token} {s : Stmt} (h : Simple Leads ts s) :
    ∃ t us, ts = t :: us ∧ t.kind ∈ [Token.Kind.identifier, .returnWord, .printWord] := by
  cases h with
  | declaration hn _ _ => exact ⟨_, _, rfl, by simp [hn.1]⟩
  | annotated hn _ _ _ _ => exact ⟨_, _, rfl, by simp [hn.1]⟩
  | assignment hn _ _ => exact ⟨_, _, rfl, by simp [hn.1]⟩
  | call hn _ _ => exact ⟨_, _, rfl, by simp [hn.1]⟩
  | returnNothing hr => exact ⟨_, _, rfl, by simp [hr]⟩
  | returnValue hr _ => exact ⟨_, _, rfl, by simp [hr]⟩
  | print hp _ _ => exact ⟨_, _, rfl, by simp [hp]⟩

/-- The kinds of token that can begin a statement. -/
theorem Statement.first {ts rest : List Token} {s : Stmt} (h : Statement Leads ts s rest) :
    ∃ t us, ts = t :: us ∧
      t.kind ∈ [Token.Kind.identifier, .returnWord, .printWord, .whileWord, .ifWord] := by
  cases h with
  | simple hs _ =>
    obtain ⟨t, us, rfl, hk⟩ := hs.first
    exact ⟨t, us ++ _, rfl, List.mem_append_left [Token.Kind.whileWord, .ifWord] hk⟩
  | loop hw _ _ _ => exact ⟨_, _, rfl, by simp [hw]⟩
  | choose hi _ _ => exact ⟨_, _, rfl, by simp [hi]⟩

/-- No statement begins with `elif` or `else` (`Statement.first`). -/
theorem Statement.unbranched {ts rest : List Token} {s : Stmt} (h : Statement Leads ts s rest) :
    Unbranched ts := by
  obtain ⟨t, us, rfl, hk⟩ := h.first
  rw [unbranched_cons]
  constructor <;> (intro h; simp [h] at hk)

/-- What stands in a block does not continue a conditional before it. -/
theorem Items.unbranched {ts rest : List Token} {ss : List Stmt} (h : Items Leads ts ss rest) :
    Unbranched ts := by
  cases h with
  | endOfTokens => simp
  | dedent hd => simp [hd]
  | newline hn _ => simp [hn]
  | statement hs _ => exact hs.unbranched

/-- Nor does the rest of a module. -/
theorem Module.unbranched {ts : List Token} {is : List Item} (h : Module Leads ts is) :
    Unbranched ts := by
  cases h with
  | nil => simp
  | newline hn _ => simp [hn]
  | function hf _ =>
    cases hf with
    | mk hd _ _ _ _ _ _ _ => simp [hd]
  | statement hs _ => exact hs.unbranched

/-- The end of a statement cannot continue an expression. -/
theorem Ended.delimited {ts rest : List Token} (h : Ended ts rest) : Delimited ts := by
  cases h with
  | newline hn => simp [hn, BinaryOp.ofKind?]
  | dedent hd => simp [hd, BinaryOp.ofKind?]
  | endOfTokens => simp

end Offside.Grammar

namespace Offside.Parser

open Grammar

variable {stop : Span}

/-! ### Print statements -/

/-- The end of the values of a print statement: a parenthesis, after a comma or not. -/
def Closing (us rest : List Token) : Prop :=
  ∃ r, r.kind = .rightParen ∧
    (us = r :: rest ∨ ∃ c, c.kind = .comma ∧ us = c :: r :: rest)

/-- No operator comes next where the values of a print statement end. -/
theorem Closing.delimited {us rest : List Token} (h : Closing us rest) : Delimited us := by
  obtain ⟨r, hr, rfl | ⟨c, hc, rfl⟩⟩ := h
  · simp [hr, BinaryOp.ofKind?]
  · simp [hc, BinaryOp.ofKind?]

/-- An expression does not begin with a closing parenthesis. -/
theorem nextIs_rightParen_of_expression {ts rest : List Token} {e : Expr} (h : Expression ts e) :
    nextIs .rightParen (ts ++ rest) = false := by
  obtain ⟨t, us, rfl, hk⟩ := h.first
  simp only [List.cons_append, nextIs_cons, decide_eq_false_iff_not]
  intro h
  simp [h] at hk

/-- The values of a print statement are read one by one, up to the parenthesis. -/
theorem printed_separated {pre us rest : List Token} {es : List Expr}
    (h : Separated Expression pre es) (hus : Closing us rest) {bound : Nat}
    (hb : es.length < bound) : printed stop bound (pre ++ us) = .ok (es, rest) := by
  -- on the values: each is an expression, read by `expression_append`
  induction h generalizing bound with
  | @one ts e he =>
    obtain ⟨n, rfl⟩ := Nat.exists_eq_add_of_lt hb
    rw [List.length_singleton, printed, nextIs_rightParen_of_expression he,
      expression_append stop he hus.delimited]
    obtain ⟨r, hr, rfl | ⟨c, hc, rfl⟩⟩ := hus
    · simp [bind, Except.bind, take, hr]
    · -- after the comma there is one more step, which finds the parenthesis
      simp [bind, Except.bind, take, hc, Nat.add_comm 1 n, printed, hr]
  | @more ts vs c e es he hc hs ih =>
    obtain ⟨n, rfl⟩ := Nat.exists_eq_add_of_lt hb
    have hd : Delimited (c :: (vs ++ us)) := by simp [hc, BinaryOp.ofKind?]
    rw [List.length_cons, printed, List.append_assoc, List.cons_append,
      nextIs_rightParen_of_expression he, expression_append stop he hd]
    simp [bind, Except.bind, take, hc, ih (show es.length < es.length + 1 + n by omega)]

/-- The values of a print statement in its three forms: none, some, and some with a comma after the
last (`printed_separated`). -/
theorem printed_append (stop : Span) {pre : List Token} {es : List Expr} (h : Printed pre es)
    (rest : List Token) :
    printed stop ((pre ++ rest).length + 1) (pre ++ rest) = .ok (es, rest) := by
  cases h with
  | none hr => simp [printed, hr]
  | @some ts r es hs hr =>
    rw [List.append_assoc]
    refine printed_separated hs ⟨r, hr, .inl rfl⟩ ?_
    -- there are at least as many tokens as values, so the bound is large enough
    have := hs.length_le
    simp only [List.length_append, List.length_cons]
    omega
  | @trailing ts c r es hs hc hr =>
    rw [List.append_assoc]
    refine printed_separated hs ⟨r, hr, .inr ⟨c, hc, rfl⟩⟩ ?_
    have := hs.length_le
    simp only [List.length_append, List.length_cons]
    omega

/-! ### Statements on one line -/

/-- What ends a statement is of no other kind. -/
theorem nextIs_of_ended {us rest : List Token} (h : Ended us rest) {kind : Token.Kind}
    (hk : kind ≠ .newline ∧ kind ≠ .dedent) : nextIs kind us = false := by
  cases h with
  | newline hn => simpa [hn] using hk.1.symm
  | dedent hd => simpa [hd] using hk.2.symm
  | endOfTokens => rfl

/-- What ends a statement is seen as its end. -/
theorem atEnd_of_ended {us rest : List Token} (h : Ended us rest) : atEnd us = true := by
  cases h with
  | newline hn => simp [atEnd, hn]
  | dedent hd => simp [atEnd, hd]
  | endOfTokens => rfl

/-- What begins an expression is not. -/
theorem atEnd_of_expression {ts rest : List Token} {e : Expr} (h : Expression ts e) :
    atEnd (ts ++ rest) = false := by
  obtain ⟨t, us, rfl, hk⟩ := h.first
  simp only [atEnd, List.cons_append, List.isEmpty_cons, Bool.false_or, nextIs_cons,
    Bool.or_eq_false_iff, decide_eq_false_iff_not]
  constructor <;> (intro h; simp [h] at hk)

/-- **A statement on one line is read** under every bound but zero. -/
theorem simple_append {ts us rest : List Token} {s : Stmt} (hs : Simple Leads ts s)
    (he : Ended us rest) {scope : String} {table table' : SymbolTable}
    (hrec : table.record (inScope scope s.annotations) = .ok table') (bound : Nat) :
    statement stop (bound + 1) scope table (ts ++ us) = .ok (s, table', rest) := by
  -- in each case the reader is run on the tokens of the rule, part by part
  have hend := endOfStatement_eq_ok.mpr he
  cases hs with
  | @declaration n c t name type hn hc ht =>
    obtain ⟨hk, rfl⟩ := hn
    have hdecl := declare_eq_ok.mpr hrec
    have htype : valueType stop "type annotation" (t :: us) = .ok (type, us) :=
      valueType_eq_ok.mpr ⟨t, rfl, ht⟩
    -- what ends the statement is no assignment, so no value is looked for
    have hassign : nextIs .assign us = false := nextIs_of_ended he (by simp)
    simp [statement, take, hk, nameStatement, hc, htype, hdecl, hassign, hend, bind, Except.bind]
  | @annotated n c t a ts name type e hn hc ht ha hts =>
    obtain ⟨hk, rfl⟩ := hn
    have hdecl := declare_eq_ok.mpr hrec
    have htype : valueType stop "type annotation" (t :: a :: (ts ++ us)) =
      .ok (type, a :: (ts ++ us)) := valueType_eq_ok.mpr ⟨t, rfl, ht⟩
    have hexpr := expression_append stop hts he.delimited
    simp [statement, take, hk, nameStatement, hc, htype, hdecl, ha, hexpr, hend, bind, Except.bind]
  | @assignment n a ts name e hn ha hts =>
    obtain ⟨hk, rfl⟩ := hn
    have hexpr := expression_append stop hts he.delimited
    obtain rfl : table = table' := by simpa [Stmt.annotations] using hrec
    simp [statement, take, hk, nameStatement, ha, hexpr, hend, bind, Except.bind]
  | @call n l ts name args hn hl hts =>
    obtain ⟨hk, rfl⟩ := hn
    have hcall : callTail stop (n.name?.getD "") n.span (l :: (ts ++ us)) =
        .ok (⟨n.name?.getD "", args, n.span⟩, us) :=
      callTail_eq_ok.mpr ⟨l, ts ++ us, args, rfl, hl, arguments_append hts us, rfl⟩
    obtain rfl : table = table' := by simpa [Stmt.annotations] using hrec
    simp [statement, take, hk, nameStatement, hl, hcall, hend, bind, Except.bind]
  | @returnNothing r hr =>
    obtain rfl : table = table' := by simpa [Stmt.annotations] using hrec
    simp [statement, take, hr, returned, atEnd_of_ended he, hend, bind, Except.bind]
  | @returnValue r ts e hr hts =>
    have hexpr := expression_append stop hts he.delimited
    obtain rfl : table = table' := by simpa [Stmt.annotations] using hrec
    simp [statement, take, hr, returned, atEnd_of_expression hts, hexpr, hend, bind, Except.bind]
  | @print p l ts es hp hl hts =>
    have hargs := printed_append stop hts us
    obtain rfl : table = table' := by simpa [Stmt.annotations] using hrec
    simp only [List.length_append] at hargs
    simp [statement, take, hp, expect, hl, hargs, hend, bind, Except.bind]

/-- A condition with its colon is read. -/
theorem condition_append (stop : Span) {es : List Token} {c : Token} {e : Expr}
    (he : Expression es e) (hc : c.kind = .colon) (ts : List Token) (after : String) :
    condition stop after (es ++ c :: ts) = .ok (e, ts) := by
  have hread : expression stop (es ++ c :: ts) = .ok (e, c :: ts) :=
    expression_append stop he (by simp [hc, BinaryOp.ofKind?])
  refine bind_eq_ok.mpr ⟨(e, c :: ts), hread, ?_⟩
  exact bind_eq_ok.mpr ⟨(c, ts), expect_eq_ok.mpr ⟨rfl, hc⟩, rfl⟩

/-! ### Statements and blocks -/

/-- What is derived and can be recorded is what the readers of statements give, under a bound of
four times the number of tokens. -/
structure Complete (stop : Span) (bound : Nat) : Prop where
  statement : ∀ (scope) {table ts s table' rest}, Statement Leads ts s rest → Unbranched rest →
    table.record (inScope scope s.annotations) = .ok table' → 4 * ts.length ≤ bound →
      statement stop bound scope table ts = .ok (s, table', rest)
  branches : ∀ (scope) {span table ts bs table' rest}, Branches Leads span ts bs rest →
    nextIs .elifWord rest = false →
    table.record (inScope scope (Stmt.annotationsOfBranches bs)) = .ok table' →
    4 * ts.length ≤ bound → branches stop bound scope span table ts = .ok (bs, table', rest)
  otherwise : ∀ (scope) {table ts last table' rest}, Otherwise Leads ts last rest →
    Unbranched rest →
    table.record (inScope scope (Stmt.annotationsOfBlock (last.getD []))) = .ok table' →
    4 * ts.length + 1 ≤ bound → otherwise stop bound scope table ts = .ok (last, table', rest)
  block : ∀ (scope) {table ts body table' rest}, Block Leads ts body rest →
    table.record (inScope scope (Stmt.annotationsOfBlock body)) = .ok table' →
    4 * ts.length ≤ bound → block stop bound scope table ts = .ok (body, table', rest)
  items : ∀ (scope) {table ts ss table' rest}, Items Leads ts ss rest →
    table.record (inScope scope (Stmt.annotationsOfBlock ss)) = .ok table' →
    4 * ts.length + 1 ≤ bound → items stop bound scope table ts = .ok (ss, table', rest)

/-- The last block begins with a word of its own, and without it nothing can follow. -/
theorem nextIs_elifWord_of_otherwise {ts rest : List Token} {last : Option (List Stmt)}
    (h : Otherwise Leads ts last rest) (hr : Unbranched rest) : nextIs .elifWord ts = false := by
  cases h with
  | none =>
    cases ts with
    | nil => rfl
    | cons t ts => simpa using (unbranched_cons.mp hr).1
  | some hw _ _ => simp [hw]

/-- A statement is read, if its parts are under the smaller bound. -/
theorem statement_append {bound : Nat} (ih : Complete stop bound) (scope : String)
    {table table' : SymbolTable} {ts rest : List Token} {s : Stmt} (h : Statement Leads ts s rest)
    (hr : Unbranched rest) (hrec : table.record (inScope scope s.annotations) = .ok table')
    (hb : 4 * ts.length ≤ bound + 1) :
    statement stop (bound + 1) scope table ts = .ok (s, table', rest) := by
  cases h with
  | simple hs he => exact simple_append hs he hrec bound
  | @loop w c es ts _ e body hw he hc hblock =>
    have hlen : 4 * ts.length ≤ bound := by
      simp only [List.length_cons, List.length_append] at hb
      omega
    have hcond := condition_append stop he hc ts "':' after while condition"
    simp [statement, take, hw, hcond, ih.block scope hblock hrec hlen, bind, Except.bind]
  | @choose i ts mid _ bs last hi hbranches hlast =>
    -- the annotations of the branches are recorded first, and then those of the last block
    rw [annotations_choose, inScope, List.map_append] at hrec
    obtain ⟨table₁, hrec₁, hrec₂⟩ := SymbolTable.record_append_ok_iff.mp hrec
    have hmid := nextIs_elifWord_of_otherwise hlast hr
    -- the branches take a token at least, which pays for the steps between them and the last block
    have hlt := hbranches.takes.2
    rw [List.length_cons] at hb
    have h₁ := ih.branches scope hbranches hmid hrec₁ (by omega)
    have h₂ := ih.otherwise scope hlast hr hrec₂ (by omega)
    simp [statement, take, hi, h₁, h₂, bind, Except.bind]

/-- The branches of a conditional are read up to a token that begins no other one. -/
theorem branches_append {bound : Nat} (ih : Complete stop bound) (scope : String) {span : Span}
    {table table' : SymbolTable} {ts rest : List Token} {bs : List Branch}
    (h : Branches Leads span ts bs rest) (hr : nextIs .elifWord rest = false)
    (hrec : table.record (inScope scope (Stmt.annotationsOfBranches bs)) = .ok table')
    (hb : 4 * ts.length ≤ bound + 1) :
    branches stop (bound + 1) scope span table ts = .ok (bs, table', rest) := by
  cases h with
  | @one _ c es ts _ e body he hc hblock =>
    rw [Stmt.annotationsOfBranches, Stmt.annotationsOfBranches, List.append_nil] at hrec
    have hlen : 4 * ts.length ≤ bound := by
      simp only [List.length_cons, List.length_append] at hb
      omega
    have hcond := condition_append stop he hc ts "':' after if condition"
    rw [branches, hcond]
    simp only [bind, Except.bind, ih.block scope hblock hrec hlen]
    -- no further branch follows
    cases rest with
    | nil => rfl
    | cons t rest => simp_all
  | @more _ c i es ts us _ e body bs he hc hblock hi hbranches =>
    rw [Stmt.annotationsOfBranches, inScope, List.map_append] at hrec
    obtain ⟨table₁, hrec₁, hrec₂⟩ := SymbolTable.record_append_ok_iff.mp hrec
    -- the block takes a token at least, so the bound is enough for the rest
    have hlt := hblock.takes.2
    simp only [List.length_cons, List.length_append] at hb hlt
    have hcond := condition_append stop he hc ts "':' after if condition"
    have h₁ := ih.block scope hblock hrec₁ (by omega)
    have h₂ := ih.branches scope hbranches hr hrec₂ (by omega)
    simp [branches, hcond, h₁, hi, h₂, bind, Except.bind]

/-- The last block is read if there is one, and if there is none nothing is. -/
theorem otherwise_append {bound : Nat} (ih : Complete stop bound) (scope : String)
    {table table' : SymbolTable} {ts rest : List Token} {last : Option (List Stmt)}
    (h : Otherwise Leads ts last rest) (hr : Unbranched rest)
    (hrec : table.record (inScope scope (Stmt.annotationsOfBlock (last.getD []))) = .ok table')
    (hb : 4 * ts.length + 1 ≤ bound + 1) :
    otherwise stop (bound + 1) scope table ts = .ok (last, table', rest) := by
  cases h with
  | none =>
    -- nothing was derived, so no `else` may follow
    have hn : nextIs .elseWord ts = false := by
      cases ts with
      | nil => rfl
      | cons t ts => simpa using (unbranched_cons.mp hr).2
    obtain rfl : table = table' := by simpa [Stmt.annotationsOfBlock] using hrec
    simp [otherwise, hn]
  | @some w c ts _ body hw hc hblock =>
    simp only [List.length_cons] at hb
    have h₁ := ih.block scope hblock hrec (by omega)
    simp [otherwise, hw, expect, take, hc, h₁, bind, Except.bind]

/-- A block is read. -/
theorem block_append {bound : Nat} (ih : Complete stop bound) (scope : String)
    {table table' : SymbolTable} {ts rest : List Token} {body : List Stmt}
    (h : Block Leads ts body rest)
    (hrec : table.record (inScope scope (Stmt.annotationsOfBlock body)) = .ok table')
    (hb : 4 * ts.length ≤ bound + 1) :
    block stop (bound + 1) scope table ts = .ok (body, table', rest) := by
  cases h with
  | mk hi hitems =>
    rw [List.length_cons] at hb
    -- the opening token is one of those that the bound is counted by
    have h₁ := ih.items scope hitems hrec (by omega)
    simp [block, expect, take, hi, h₁, bind, Except.bind]

/-- What stands in a block is read, up to the token that closes it. -/
theorem items_append {bound : Nat} (ih : Complete stop bound) (scope : String)
    {table table' : SymbolTable} {ts rest : List Token} {ss : List Stmt}
    (h : Items Leads ts ss rest)
    (hrec : table.record (inScope scope (Stmt.annotationsOfBlock ss)) = .ok table')
    (hb : 4 * ts.length + 1 ≤ bound + 1) :
    items stop (bound + 1) scope table ts = .ok (ss, table', rest) := by
  cases h with
  | endOfTokens =>
    obtain rfl : table = table' := by simpa [Stmt.annotationsOfBlock] using hrec
    rfl
  | dedent hd =>
    obtain rfl : table = table' := by simpa [Stmt.annotationsOfBlock] using hrec
    simp [items, hd]
  | newline hn hitems =>
    rw [List.length_cons] at hb
    simp [items, hn, ih.items scope hitems hrec (by omega)]
  | @statement _ mid _ s ss hs hitems =>
    rw [Stmt.annotationsOfBlock, inScope, List.map_append] at hrec
    obtain ⟨table₁, hrec₁, hrec₂⟩ := SymbolTable.record_append_ok_iff.mp hrec
    have hlt := hs.takes.2
    -- what follows cannot continue the statement, and it is recorded after it
    have h₁ := ih.statement scope hs hitems.unbranched hrec₁ (by omega)
    have h₂ := ih.items scope hitems hrec₂ (by omega)
    -- the reader tells a statement from a newline and a dedent by its first token
    obtain ⟨t, us, rfl, hk⟩ := hs.first
    unfold items
    split
    · next hd => simp [hd] at hk
    · next hn => simp [hn] at hk
    · simp [h₁, h₂, bind, Except.bind]

/-- **What is derived is read**, under every bound that is large enough for its tokens. A bound of
zero is large enough for none (`Statement.takes`); the step is made by the five lemmas above. -/
theorem complete (stop : Span) : ∀ bound, Complete stop bound
  | 0 => {
      -- four calls a token: with none left, no token is left to derive from
      statement := fun _ => fun h _ _ hb => absurd h.takes.2 (by omega)
      branches := fun _ => fun h _ _ hb => absurd h.takes.2 (by omega)
      otherwise := fun _ => fun _ _ _ hb => absurd hb (by omega)
      block := fun _ => fun h _ hb => absurd h.takes.2 (by omega)
      items := fun _ => fun _ _ hb => absurd hb (by omega) }
  | bound + 1 => {
      statement := fun scope => statement_append (complete stop bound) scope
      branches := fun scope => branches_append (complete stop bound) scope
      otherwise := fun scope => otherwise_append (complete stop bound) scope
      block := fun scope => block_append (complete stop bound) scope
      items := fun scope => items_append (complete stop bound) scope }

/-! ### Modules -/

/-- A function is read: its head token by token, its block by `complete`. -/
theorem function_append (stop : Span) {ts rest : List Token} {f : Function}
    {table table' : SymbolTable}
    (h : FunctionDef Leads ts f rest)
    (hrec : table.record (Item.annotations (.function f)) = .ok table') :
    ∃ d us, ts = d :: us ∧ d.kind = .defWord ∧
      function stop d.span table us = .ok (f, table', rest) := by
  cases h with
  | @mk d n l a r c ps ts _ name params type body hd hn hl hps ha hr hc hblock =>
    refine ⟨d, _, rfl, hd, ?_⟩
    have hb := (complete stop (budget ts)).block name hblock hrec
      (by rw [budget]; omega)
    -- one part of the header after another, each by what it takes to be read
    refine bind_eq_ok.mpr ⟨_, expectName_eq_ok.mpr ⟨n, rfl, hn, rfl⟩, ?_⟩
    refine bind_eq_ok.mpr ⟨_, expect_eq_ok.mpr ⟨rfl, hl⟩, ?_⟩
    refine bind_eq_ok.mpr ⟨_, params_append hps _, ?_⟩
    refine bind_eq_ok.mpr ⟨_, expect_eq_ok.mpr ⟨rfl, ha⟩, ?_⟩
    refine bind_eq_ok.mpr ⟨_, returnType_eq_ok.mpr ⟨r, rfl, hr⟩, ?_⟩
    refine bind_eq_ok.mpr ⟨_, expect_eq_ok.mpr ⟨rfl, hc⟩, ?_⟩
    exact bind_eq_ok.mpr ⟨_, hb, rfl⟩

/-- **What is derived as a module is read**, if its annotations can be recorded. -/
theorem topLevel_complete {ts : List Token} {is : List Item} (h : Module Leads ts is)
    {table table' : SymbolTable} (hrec : table.record (is.flatMap Item.annotations) = .ok table')
    {bound : Nat} (hb : ts.length < bound) :
    topLevel stop bound table ts = .ok (table', Item.program is) := by
  obtain ⟨bound, rfl⟩ : ∃ n, bound = n + 1 := ⟨bound - 1, by omega⟩
  -- on the parts of the module, each of which leaves the table for the next
  induction h generalizing table bound with
  | nil =>
    obtain rfl : table = table' := by simpa using hrec
    rfl
  | newline hn _ ih =>
    obtain ⟨bound, rfl⟩ : ∃ n, bound = n + 1 := ⟨bound - 1, by simp at hb; omega⟩
    rw [topLevel]
    simp only [hn]
    exact ih hrec _ (by simp at hb; omega)
  | @function ts mid f is hf his ih =>
    obtain ⟨table₁, hrec₁, hrec₂⟩ := SymbolTable.record_append_ok_iff.mp hrec
    have hlt := hf.takes.2
    obtain ⟨bound, rfl⟩ : ∃ n, bound = n + 1 := ⟨bound - 1, by omega⟩
    obtain ⟨d, us, rfl, hd, hfun⟩ := function_append stop hf hrec₁
    rw [topLevel]
    simp only [hd]
    exact bind_eq_ok.mpr ⟨_, hfun, bind_eq_ok.mpr ⟨_, ih hrec₂ _ (by omega), rfl⟩⟩
  | @statement ts mid s is hs his ih =>
    obtain ⟨table₁, hrec₁, hrec₂⟩ := SymbolTable.record_append_ok_iff.mp hrec
    have hlt := hs.takes.2
    obtain ⟨bound, rfl⟩ : ∃ n, bound = n + 1 := ⟨bound - 1, by omega⟩
    have hstmt := (complete stop (budget ts)).statement SymbolTable.moduleName hs
      his.unbranched hrec₁ (by rw [budget]; omega)
    -- no statement begins with a newline, a definition or a dedent
    obtain ⟨t, us, rfl, hk⟩ := hs.first
    rw [topLevel]
    split
    · next hn => simp [hn] at hk
    · next hd => simp [hd] at hk
    · next hd => simp [hd] at hk
    · exact bind_eq_ok.mpr ⟨_, hstmt, bind_eq_ok.mpr ⟨_, ih hrec₂ _ (by omega), rfl⟩⟩

end Offside.Parser
