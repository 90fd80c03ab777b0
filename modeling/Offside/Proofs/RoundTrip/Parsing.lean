import Offside.Proofs.RoundTrip.Words

/-!
# From the words of a program to its tree

Tokens whose words are those of a program derive the program, but for the positions in it. Within a
line this is read off the clause. Between lines it rests on one fact about the layout: whatever
statement stands at some depth, the words left behind it are those with which the next row of that
depth goes on (`Row.resumed`). A statement on one line takes the line break before such a row, and a
statement with blocks takes one step out for each of them, which leaves the same.

The main statement is `module_of_words`.
-/

namespace Offside

open Token Grammar

/-! ### Tokens with a given word -/

section Tokens

variable {t : Token}

/-- The kind is half of the word. -/
theorem kind_of_word {kind : Kind} (h : t.word = .plain kind) : t.kind = kind :=
  congrArg Prod.fst h

/-- A token with the word of a name is a name. -/
theorem names_of_word {s : String} (h : t.word = .name s) : Names t s :=
  ⟨congrArg Prod.fst h, congrArg Prod.snd h⟩

/-- It can also begin a statement. -/
theorem leads_of_word {s : String} (h : t.word = .name s) : Leads t s := by
  obtain ⟨hkind, hvalue⟩ := names_of_word h
  exact ⟨hkind, by rw [name?, hvalue]; rfl⟩

/-- A token with the word of an operand is that operand. -/
theorem spells_of_word {x : Operand} (h : t.word = x.word) : Spells t x :=
  ⟨congrArg Prod.fst h, congrArg Prod.snd h⟩

end Tokens

/-! ### Lines -/

section Lists

variable {α β : Type} {item : List Token → α → Prop} {words : α → List Word} {view : α → β}

/-- Items with commas between them, if each can be derived from its own words. What is derived may
differ where `view` does not look. -/
theorem separated_of_words {items : List α} (hne : items ≠ [])
    (hitem : ∀ x ∈ items, ∀ ts, ts.map word = words x → ∃ y, item ts y ∧ view y = view x)
    {ts : List Token} (h : ts.map word = separatedWords (items.map words)) :
    ∃ ys, Separated item ts ys ∧ ys.map view = items.map view := by
  induction items generalizing ts with
  | nil => exact absurd rfl hne
  | cons x items ih =>
    have hx := hitem x List.mem_cons_self
    cases items with
    | nil =>
      rw [List.map_singleton, separatedWords, List.intercalate_singleton] at h
      obtain ⟨y, hy, hview⟩ := hx ts h
      exact ⟨[y], .one hy, by rw [List.map_singleton, hview, List.map_singleton]⟩
    | cons x' items =>
      rw [List.map_cons, List.map_cons, separatedWords, List.intercalate_cons_cons,
        List.append_assoc] at h
      -- the words of the first item, a comma, and the words of the others
      obtain ⟨us, vs, rfl, hus, hvs⟩ := List.map_eq_append_iff.mp h
      obtain ⟨c, vs, rfl, hc, hvs⟩ := List.map_eq_cons_iff.mp hvs
      obtain ⟨y, hy, hview⟩ := hx us hus
      obtain ⟨ys, hys, hviews⟩ := ih (by simp) (fun z hz => hitem z (List.mem_cons_of_mem x hz)) hvs
      exact ⟨y :: ys, .more hy (kind_of_word hc) hys, by rw [List.map_cons, hview, hviews]; rfl⟩

/-- Items up to the closing parenthesis, of which there may be none. -/
theorem listed_of_words {items : List α}
    (hitem : ∀ x ∈ items, ∀ ts, ts.map word = words x → ∃ y, item ts y ∧ view y = view x)
    {ts : List Token}
    (h : ts.map word = separatedWords (items.map words) ++ [.plain .rightParen]) :
    ∃ ys, Listed item ts ys ∧ ys.map view = items.map view := by
  obtain ⟨us, vs, rfl, hus, hvs⟩ := List.map_eq_append_iff.mp h
  obtain ⟨r, vs, rfl, hr, hvs⟩ := List.map_eq_cons_iff.mp hvs
  -- the last token is the parenthesis, and those before it are the items
  obtain rfl := List.map_eq_nil_iff.mp hvs
  by_cases hne : items = []
  · subst hne
    obtain rfl := List.map_eq_nil_iff.mp hus
    exact ⟨[], .none (kind_of_word hr), rfl⟩
  · obtain ⟨ys, hys, hviews⟩ := separated_of_words hne hitem hus
    exact ⟨ys, .some hys (kind_of_word hr), hviews⟩

end Lists

/-- The arguments of a call have no positions, so they are derived as they are. -/
theorem arguments_of_words {args : List Operand} {ts : List Token}
    (h : ts.map word = separatedWords (args.map fun x => [x.word]) ++ [.plain .rightParen]) :
    Listed Argument ts args := by
  have hitem : ∀ x ∈ args, ∀ ts : List Token, ts.map word = [x.word] →
      ∃ y, Argument ts y ∧ id y = id x := by
    intro x _ ts hts
    obtain ⟨t, us, rfl, ht, hus⟩ := List.map_eq_cons_iff.mp hts
    obtain rfl := List.map_eq_nil_iff.mp hus
    exact ⟨x, .mk (spells_of_word ht), rfl⟩
  obtain ⟨ys, hys, hviews⟩ := listed_of_words hitem h
  -- the view looks at everything
  rw [List.map_id, List.map_id] at hviews
  exact hviews ▸ hys

/-- Parameters have no positions either. -/
theorem parameters_of_words {params : List Param} {ts : List Token}
    (h : ts.map word = separatedWords (params.map Param.words) ++ [.plain .rightParen]) :
    Listed Parameter ts params := by
  have hitem : ∀ p ∈ params, ∀ ts : List Token, ts.map word = p.words →
      ∃ q, Parameter ts q ∧ id q = id p := by
    intro p _ ts hts
    obtain ⟨n, us, rfl, hn, hus⟩ := List.map_eq_cons_iff.mp hts
    obtain ⟨c, us, rfl, hc, hus⟩ := List.map_eq_cons_iff.mp hus
    obtain ⟨t, us, rfl, ht, hus⟩ := List.map_eq_cons_iff.mp hus
    obtain rfl := List.map_eq_nil_iff.mp hus
    refine ⟨p, .mk (names_of_word hn) (kind_of_word hc) ?_, rfl⟩
    rw [kind_of_word ht, ValueType.ofKind?_kind]
  -- parameters have no positions, so they are found again as they are
  obtain ⟨ys, hys, hviews⟩ := listed_of_words hitem h
  rw [List.map_id, List.map_id] at hviews
  exact hviews ▸ hys

/-- Operators and operands in turn. -/
theorem operations_of_words {rest : List (BinaryOp × Operand)} {ts : List Token}
    (h : ts.map word = operationWords rest) : Operations ts rest := by
  induction rest generalizing ts with
  | nil =>
    obtain rfl := List.map_eq_nil_iff.mp h
    exact .nil
  | cons pair rest ih =>
    obtain ⟨o, us, rfl, ho, hus⟩ := List.map_eq_cons_iff.mp h
    obtain ⟨t, us, rfl, ht, hus⟩ := List.map_eq_cons_iff.mp hus
    refine .cons ?_ (spells_of_word ht) (ih hus)
    rw [kind_of_word ho, BinaryOp.ofKind?_kind]

/-- **An expression is derived from its words.** -/
theorem expression_of_words {e : Expr} {ts : List Token} (h : ts.map word = e.words) :
    ∃ e', Expression ts e' ∧ e'.unplaced = e.unplaced := by
  rcases e with ⟨name, args, span⟩ | ⟨negated, first, rest⟩
  · -- a call takes its position from its name
    obtain ⟨n, us, rfl, hn, hus⟩ := List.map_eq_cons_iff.mp h
    obtain ⟨l, us, rfl, hl, hus⟩ := List.map_eq_cons_iff.mp hus
    exact ⟨_, .call (names_of_word hn) (kind_of_word hl) (arguments_of_words hus), rfl⟩
  · cases negated with
    | false =>
      obtain ⟨t, us, rfl, ht, hus⟩ := List.map_eq_cons_iff.mp h
      exact ⟨_, .plain (spells_of_word ht) (operations_of_words hus), rfl⟩
    | true =>
      obtain ⟨n, us, rfl, hn, hus⟩ := List.map_eq_cons_iff.mp h
      obtain ⟨t, us, rfl, ht, hus⟩ := List.map_eq_cons_iff.mp hus
      exact ⟨_, .negated (kind_of_word hn) (spells_of_word ht) (operations_of_words hus), rfl⟩

/-- The values of a print statement. -/
theorem printed_of_words {args : List Expr} {ts : List Token}
    (h : ts.map word = separatedWords (args.map Expr.words) ++ [.plain .rightParen]) :
    ∃ args', Printed ts args' ∧ args'.map Expr.unplaced = args.map Expr.unplaced := by
  obtain ⟨args', hargs, hviews⟩ := listed_of_words (fun e _ ts => expression_of_words) h
  refine ⟨args', ?_, hviews⟩
  -- no comma is written before the parenthesis, so the rule with a trailing one is not needed
  cases hargs with
  | none hr => exact .none hr
  | some hs hr => exact .some hs hr

/-! ### Statements on one line -/

/-- The clause of a statement that stands on one line. -/
def Stmt.clause? : Stmt → Option Clause
  | .assign target type value _ => some (.assign target type value)
  | .declare name type _ => some (.declare name type)
  | .giveBack value _ => some (.giveBack value)
  | .print args _ => some (.print args)
  | .call c => some (.call c)
  | .loop _ _ _ => none
  | .choose _ _ _ => none

/-- A statement on one line is one row. -/
theorem Stmt.rows_of_clause? {s : Stmt} {c : Clause} (h : s.clause? = some c) (depth : Nat) :
    s.rows depth = [⟨depth, c⟩] := by
  cases s <;> cases h <;> rfl

/-- A statement on one line is derived from the words of its clause. -/
theorem simple_of_words {s : Stmt} {c : Clause} (hc : s.clause? = some c) {ts : List Token}
    (h : ts.map word = c.words) : ∃ s', Simple Leads ts s' ∧ s'.unplaced = s.unplaced := by
  cases s with
  | assign target type value span =>
    cases hc
    cases type with
    | none =>
      obtain ⟨n, us, rfl, hn, hus⟩ := List.map_eq_cons_iff.mp h
      obtain ⟨a, us, rfl, ha, hus⟩ := List.map_eq_cons_iff.mp hus
      obtain ⟨e, he, heq⟩ := expression_of_words hus
      refine ⟨_, .assignment (leads_of_word hn) (kind_of_word ha) he, ?_⟩
      rw [Stmt.unplaced, Stmt.unplaced, heq]
    | some type =>
      obtain ⟨n, us, rfl, hn, hus⟩ := List.map_eq_cons_iff.mp h
      -- the tokens are taken off in the order of the words, and the rule is the one for this order
      obtain ⟨c, us, rfl, hc, hus⟩ := List.map_eq_cons_iff.mp hus
      obtain ⟨t, us, rfl, ht, hus⟩ := List.map_eq_cons_iff.mp hus
      obtain ⟨a, us, rfl, ha, hus⟩ := List.map_eq_cons_iff.mp hus
      obtain ⟨e, he, heq⟩ := expression_of_words hus
      have htype : ValueType.ofKind? t.kind = some type := by
        rw [kind_of_word ht, ValueType.ofKind?_kind]
      refine ⟨_, .annotated (leads_of_word hn) (kind_of_word hc) htype (kind_of_word ha) he, ?_⟩
      rw [Stmt.unplaced, Stmt.unplaced, heq]
  | declare name type span =>
    cases hc
    obtain ⟨n, us, rfl, hn, hus⟩ := List.map_eq_cons_iff.mp h
    obtain ⟨c, us, rfl, hc, hus⟩ := List.map_eq_cons_iff.mp hus
    obtain ⟨t, us, rfl, ht, hus⟩ := List.map_eq_cons_iff.mp hus
    obtain rfl := List.map_eq_nil_iff.mp hus
    have htype : ValueType.ofKind? t.kind = some type := by
      rw [kind_of_word ht, ValueType.ofKind?_kind]
    exact ⟨_, .declaration (leads_of_word hn) (kind_of_word hc) htype, rfl⟩
  | giveBack value span =>
    cases hc
    cases value with
    | none =>
      obtain ⟨r, us, rfl, hr, hus⟩ := List.map_eq_cons_iff.mp h
      obtain rfl := List.map_eq_nil_iff.mp hus
      exact ⟨_, .returnNothing (kind_of_word hr), rfl⟩
    | some value =>
      obtain ⟨r, us, rfl, hr, hus⟩ := List.map_eq_cons_iff.mp h
      obtain ⟨e, he, heq⟩ := expression_of_words hus
      refine ⟨_, .returnValue (kind_of_word hr) he, ?_⟩
      rw [Stmt.unplaced, Stmt.unplaced, Option.map_some, heq, Option.map_some]
  | print args span =>
    cases hc
    obtain ⟨p, us, rfl, hp, hus⟩ := List.map_eq_cons_iff.mp h
    obtain ⟨l, us, rfl, hl, hus⟩ := List.map_eq_cons_iff.mp hus
    obtain ⟨args', hargs, heq⟩ := printed_of_words hus
    refine ⟨_, .print (kind_of_word hp) (kind_of_word hl) hargs, ?_⟩
    rw [Stmt.unplaced, Stmt.unplaced, heq]
  | call c =>
    cases hc
    obtain ⟨n, us, rfl, hn, hus⟩ := List.map_eq_cons_iff.mp h
    obtain ⟨l, us, rfl, hl, hus⟩ := List.map_eq_cons_iff.mp hus
    exact ⟨_, .call (leads_of_word hn) (kind_of_word hl) (arguments_of_words hus), rfl⟩
  | loop => cases hc
  | choose => cases hc

/-- What follows a statement on one line ends it, and leaves what goes on at its depth. -/
theorem ended_of_words {depth : Nat} {more : List Row} (hmore : Row.Within depth more)
    {ts : List Token} (h : ts.map word = Row.following depth more) :
    ∃ rest, Ended ts rest ∧ rest.map word = Row.resumed depth more := by
  -- a step out ends the statement, but belongs to the block around it
  have hdedent : ∀ {n : Nat} {ws : List Word}, 0 < n →
      ts.map word = List.replicate n (.plain .dedent) ++ ws → Ended ts ts := by
    intro n ws hn hts
    obtain ⟨n, rfl⟩ : ∃ m, n = m + 1 := ⟨n - 1, by omega⟩
    rw [List.replicate_succ, List.cons_append] at hts
    obtain ⟨t, us, rfl, ht, -⟩ := List.map_eq_cons_iff.mp hts
    exact .dedent (kind_of_word ht)
  cases more with
  | nil =>
    rcases Nat.eq_zero_or_pos depth with rfl | hpos
    · obtain rfl := List.map_eq_nil_iff.mp h
      exact ⟨[], .endOfTokens, rfl⟩
    · have hdedents : ts.map word = List.replicate depth (.plain .dedent) ++ [] := by
        rw [h, Row.following, List.append_nil]
      exact ⟨ts, hdedent hpos hdedents, h⟩
  | cons r rs =>
    have hle : r.depth ≤ depth := hmore r rfl
    rw [Row.resumed]
    -- the line break before a row of the same depth is taken
    split_ifs with heq
    · rw [Row.following, Row.stepWords, if_neg (by omega), if_neg (by omega), heq] at h
      obtain ⟨t, us, rfl, ht, hus⟩ := List.map_eq_cons_iff.mp h
      exact ⟨us, .newline (kind_of_word ht), hus⟩
    · have hdedents : ts.map word = List.replicate (depth - r.depth) (.plain .dedent) ++
          (r.clause.words ++ Row.following r.depth rs) := by
        rw [h, Row.following, Row.stepWords, if_neg (by omega), if_pos (by omega)]
      exact ⟨ts, hdedent (by omega) hdedents, h⟩

/-! ### Statements and blocks -/

/-- A statement on one line: `simple_of_words` for the line, and `ended_of_words` for what ends it.
-/
theorem statement_of_clause? {s : Stmt} {c : Clause} (hc : s.clause? = some c) {depth : Nat}
    {more : List Row} (hmore : Row.Within depth more) {ts : List Token}
    (h : ts.map word = Row.resumed depth (s.rows depth ++ more)) :
    ∃ s' rest, Statement Leads ts s' rest ∧ s'.unplaced = s.unplaced ∧
      rest.map word = Row.resumed depth more := by
  rw [Stmt.rows_of_clause? hc, List.singleton_append, Row.resumed_cons] at h
  -- the words of the clause, and those of the layout behind it
  obtain ⟨us, vs, rfl, hus, hvs⟩ := List.map_eq_append_iff.mp h
  obtain ⟨s', hs', heq⟩ := simple_of_words hc hus
  obtain ⟨rest, hended, hrest⟩ := ended_of_words hmore hvs
  exact ⟨s', rest, .simple hs' hended, heq, hrest⟩

/-- A statement begins with a row of its own depth. -/
theorem Stmt.rows_cons {s : Stmt} (h : s.WellFormed) (depth : Nat) :
    ∃ clause rs, s.rows depth = ⟨depth, clause⟩ :: rs := by
  cases s with
  | choose bs last span =>
    -- without branches there would be no row
    have hne : bs ≠ [] := by cases last <;> exact h.1
    obtain ⟨⟨condition, body, span⟩, bs, rfl⟩ := List.exists_cons_of_ne_nil hne
    cases last <;> exact ⟨_, _, rfl⟩
  | assign => exact ⟨_, _, rfl⟩
  | declare => exact ⟨_, _, rfl⟩
  | giveBack => exact ⟨_, _, rfl⟩
  | loop => exact ⟨_, _, rfl⟩
  | print => exact ⟨_, _, rfl⟩
  | call => exact ⟨_, _, rfl⟩

/-- A block is a step in and its statements. -/
theorem block_of_words {depth : Nat} {ss : List Stmt} {more : List Row} (hne : ss ≠ [])
    (hwf : Stmt.WellFormedBlock ss)
    (hitems : ∀ {ts}, ts.map word =
        Row.resumed (depth + 1) (Stmt.rowsOfBlock (depth + 1) ss ++ more) →
      ∃ ss' rest, Items Leads ts ss' rest ∧ Stmt.unplacedBlock ss' = Stmt.unplacedBlock ss ∧
        rest.map word = Row.resumed depth more)
    {ts : List Token}
    (h : ts.map word = Row.following depth (Stmt.rowsOfBlock (depth + 1) ss ++ more)) :
    ∃ ss' rest, Block Leads ts ss' rest ∧ Stmt.unplacedBlock ss' = Stmt.unplacedBlock ss ∧
      rest.map word = Row.resumed depth more := by
  obtain ⟨clause, rs, hrows⟩ : ∃ clause rs,
      Stmt.rowsOfBlock (depth + 1) ss ++ more = ⟨depth + 1, clause⟩ :: rs := by
    -- the block is not empty, so its first row is one step deeper than the header
    obtain ⟨s, ss, rfl⟩ := List.exists_cons_of_ne_nil hne
    obtain ⟨clause, rs, hrows⟩ := Stmt.rows_cons hwf.1 (depth + 1)
    exact ⟨clause, _, by rw [Stmt.rowsOfBlock, hrows]; rfl⟩
  rw [hrows, Row.following_succ, ← hrows] at h
  obtain ⟨i, us, rfl, hi, hus⟩ := List.map_eq_cons_iff.mp h
  obtain ⟨ss', rest, hss, heq, hrest⟩ := hitems hus
  exact ⟨ss', rest, .mk (kind_of_word hi) hss, heq, hrest⟩

/-- The header of a block is a word, a condition and a colon. -/
theorem header_of_words {header : Expr → Clause} {kind : Kind}
    (hheader : ∀ e, (header e).words = .plain kind :: (e.words ++ [.plain .colon])) {depth : Nat}
    {e : Expr} {rows : List Row} {ts : List Token}
    (h : ts.map word = Row.resumed depth (⟨depth, header e⟩ :: rows)) :
    ∃ i es c us e', ts = i :: (es ++ c :: us) ∧ i.kind = kind ∧ Expression es e' ∧
      e'.unplaced = e.unplaced ∧ c.kind = .colon ∧ us.map word = Row.following depth rows := by
  rw [Row.resumed_cons, hheader, List.cons_append, List.append_assoc] at h
  obtain ⟨i, us, rfl, hi, hus⟩ := List.map_eq_cons_iff.mp h
  -- the words of the condition end before the colon
  obtain ⟨es, us, rfl, hes, hus⟩ := List.map_eq_append_iff.mp hus
  obtain ⟨c, us, rfl, hc, hus⟩ := List.map_eq_cons_iff.mp hus
  obtain ⟨e', he, heq⟩ := expression_of_words hes
  exact ⟨i, es, c, us, e', rfl, kind_of_word hi, he, heq, kind_of_word hc, hus⟩

mutual

/-- **A statement is derived from the words of its rows**, and leaves what goes on at its depth. -/
theorem statement_of_words {depth : Nat} {more : List Row} (hmore : Row.Within depth more)
    {ts : List Token} :
    ∀ s : Stmt, s.WellFormed → ts.map word = Row.resumed depth (s.rows depth ++ more) →
      ∃ s' rest, Statement Leads ts s' rest ∧ s'.unplaced = s.unplaced ∧
        rest.map word = Row.resumed depth more
  | .assign _ _ _ _, _, h => statement_of_clause? rfl hmore h
  | .declare _ _ _, _, h => statement_of_clause? rfl hmore h
  | .giveBack _ _, _, h => statement_of_clause? rfl hmore h
  | .print _ _, _, h => statement_of_clause? rfl hmore h
  | .call _, _, h => statement_of_clause? rfl hmore h
  | .loop condition body span, hwf, h => by
    obtain ⟨w, es, c, us, e, rfl, hw, he, heq, hc, hus⟩ := header_of_words (fun _ => rfl) h
    obtain ⟨body', rest, hbody, heqs, hrest⟩ :=
      block_of_words hwf.2.1 hwf.2.2 (items_of_words hmore body hwf.2.2) hus
    refine ⟨_, rest, .loop hw he hc hbody, ?_, hrest⟩
    rw [Stmt.unplaced, Stmt.unplaced, heq, heqs]
  | .choose bs none span, hwf, h => by
    obtain ⟨i, us, bs', rest, rfl, hi, hbs, heq, hrest⟩ :=
      branches_of_words hmore bs (fun _ => rfl) hwf.1 hwf.2 h
    refine ⟨_, rest, .choose hi hbs .none, ?_, hrest⟩
    rw [Stmt.unplaced, Stmt.unplaced, heq]
  | .choose bs (some body) span, hwf, h => by
    -- behind the branches stands the row of the last block
    rw [Stmt.rows, List.append_assoc] at h
    have hwithin : Row.Within depth
        (⟨depth, .otherwise⟩ :: (Stmt.rowsOfBlock (depth + 1) body ++ more)) :=
      Row.within_cons _ _
    obtain ⟨i, us, bs', mid, rfl, hi, hbs, heq, hmid⟩ :=
      branches_of_words hwithin bs (fun _ => rfl) hwf.1 hwf.2.1 h
    rw [Row.resumed_cons] at hmid
    obtain ⟨w, vs, rfl, hw, hvs⟩ := List.map_eq_cons_iff.mp hmid
    obtain ⟨c, vs, rfl, hc, hvs⟩ := List.map_eq_cons_iff.mp hvs
    obtain ⟨body', rest, hbody, heqs, hrest⟩ :=
      block_of_words hwf.2.2.1 hwf.2.2.2 (items_of_words hmore body hwf.2.2.2) hvs
    refine ⟨_, rest, .choose hi hbs (.some (kind_of_word hw) (kind_of_word hc) hbody), ?_, hrest⟩
    rw [Stmt.unplaced, Stmt.unplaced, heq, heqs]

/-- The statements of a block are derived from its rows, with the step out behind them. -/
theorem items_of_words {depth : Nat} {more : List Row} (hmore : Row.Within depth more) :
    ∀ (ss : List Stmt) {ts : List Token}, Stmt.WellFormedBlock ss →
      ts.map word = Row.resumed (depth + 1) (Stmt.rowsOfBlock (depth + 1) ss ++ more) →
      ∃ ss' rest, Items Leads ts ss' rest ∧ Stmt.unplacedBlock ss' = Stmt.unplacedBlock ss ∧
        rest.map word = Row.resumed depth more
  | [], ts, _, h => by
    -- nothing of the block is left, so the next row is less deep
    change ts.map word = Row.resumed (depth + 1) more at h
    rw [Row.resumed_succ hmore] at h
    obtain ⟨d, us, rfl, hd, hus⟩ := List.map_eq_cons_iff.mp h
    exact ⟨[], us, .dedent (kind_of_word hd), rfl, hus⟩
  | s :: ss, ts, hwf, h => by
    rw [Stmt.rowsOfBlock, List.append_assoc] at h
    -- behind the first statement come the others, or else what follows the block
    have hwithin := Row.within_block (hmore.mono (Nat.le_succ depth)) ss
    obtain ⟨s', mid, hs', heq, hmid⟩ := statement_of_words hwithin s hwf.1 h
    obtain ⟨ss', rest, hss', heqs, hrest⟩ := items_of_words hmore ss hwf.2 hmid
    exact ⟨s' :: ss', rest, .statement hs' hss', by
      rw [Stmt.unplacedBlock, Stmt.unplacedBlock, heq, heqs], hrest⟩

/-- The branches of a conditional are derived from their rows, of which the first begins with the
given word. -/
theorem branches_of_words {depth : Nat} {more : List Row} (hmore : Row.Within depth more) :
    ∀ (bs : List Branch) {ts : List Token} {header : Expr → Clause} {kind : Kind},
      (∀ e, (header e).words = .plain kind :: (e.words ++ [.plain .colon])) → bs ≠ [] →
      Stmt.WellFormedBranches bs →
      ts.map word = Row.resumed depth (Stmt.rowsOfBranches depth header bs ++ more) →
      ∃ i us bs' rest, ts = i :: us ∧ i.kind = kind ∧ Branches Leads i.span us bs' rest ∧
        Stmt.unplacedBranches bs' = Stmt.unplacedBranches bs ∧
        rest.map word = Row.resumed depth more
  | [], _, _, _, _, hne, _, _ => absurd rfl hne
  | .mk condition body span :: bs, ts, header, kind, hheader, _, hwf, h => by
    rw [Stmt.rowsOfBranches, List.cons_append, List.append_assoc] at h
    obtain ⟨i, es, c, us, e, rfl, hi, he, heq, hc, hus⟩ := header_of_words hheader h
    -- behind the block comes the next branch, or else what follows the branches
    have hwithin := Row.within_branches hmore .chooseNext bs
    obtain ⟨body', mid, hbody, heqs, hmid⟩ :=
      block_of_words hwf.1.2.1 hwf.1.2.2 (items_of_words hwithin body hwf.1.2.2) hus
    cases bs with
    | nil =>
      refine ⟨i, _, _, mid, rfl, hi, .one he hc hbody, ?_, hmid⟩
      simp only [Stmt.unplacedBranches, heq, heqs]
    | cons b bs =>
      obtain ⟨j, vs, bs', rest, rfl, hj, hbs, heqb, hrest⟩ :=
        branches_of_words hmore (b :: bs) (fun _ => rfl) (by simp) hwf.2 hmid
      refine ⟨i, _, _, rest, rfl, hi, .more he hc hbody hj hbs, ?_, hrest⟩
      rw [Stmt.unplacedBranches, Stmt.unplacedBranches, heq, heqs, heqb]

end

/-! ### Modules -/

/-- **A function is derived from the words of its rows.** -/
theorem function_of_words {f : Function} (hf : f.WellFormed) {more : List Row}
    (hmore : Row.Within 0 more) {ts : List Token}
    (h : ts.map word = Row.resumed 0 (f.rows ++ more)) :
    ∃ f' rest, FunctionDef Leads ts f' rest ∧ f'.unplaced = f.unplaced ∧
      rest.map word = Row.resumed 0 more := by
  obtain ⟨name, params, returnType, body, span⟩ := f
  have hwords : ts.map word = .plain .defWord :: .name name :: .plain .leftParen ::
      (separatedWords (params.map Param.words) ++ [.plain .rightParen] ++ .plain .arrow ::
        .plain returnType.kind :: .plain .colon ::
          Row.following 0 (Stmt.rowsOfBlock 1 body ++ more)) := by
    rw [h, Function.rows, List.cons_append, Row.resumed_cons]
    simp [Clause.words]
  -- the header, token by token
  obtain ⟨d, us, rfl, hd, hus⟩ := List.map_eq_cons_iff.mp hwords
  obtain ⟨n, us, rfl, hn, hus⟩ := List.map_eq_cons_iff.mp hus
  obtain ⟨l, us, rfl, hl, hus⟩ := List.map_eq_cons_iff.mp hus
  obtain ⟨ps, us, rfl, hps, hus⟩ := List.map_eq_append_iff.mp hus
  obtain ⟨a, us, rfl, ha, hus⟩ := List.map_eq_cons_iff.mp hus
  obtain ⟨r, us, rfl, hr, hus⟩ := List.map_eq_cons_iff.mp hus
  obtain ⟨c, us, rfl, hc, hus⟩ := List.map_eq_cons_iff.mp hus
  have htype : ReturnType.ofKind? r.kind = some returnType := by
    rw [kind_of_word hr, ReturnType.ofKind?_kind]
  obtain ⟨body', rest, hbody, heqs, hrest⟩ :=
    block_of_words hf.nonempty hf.body (items_of_words hmore body hf.body) hus
  refine ⟨_, rest, .mk (kind_of_word hd) (names_of_word hn) (kind_of_word hl)
    (parameters_of_words hps) (kind_of_word ha) htype (kind_of_word hc) hbody, ?_, hrest⟩
  simp only [Function.unplaced, heqs]

/-- The module body. -/
theorem module_of_block {ss : List Stmt} (hwf : Stmt.WellFormedBlock ss) {ts : List Token}
    (h : ts.map word = Row.resumed 0 (Stmt.rowsOfBlock 0 ss)) :
    ∃ ss', Module Leads ts (ss'.map .statement) ∧
      Stmt.unplacedBlock ss' = Stmt.unplacedBlock ss := by
  induction ss generalizing ts with
  | nil =>
    obtain rfl := List.map_eq_nil_iff.mp h
    exact ⟨[], .nil, rfl⟩
  | cons s ss ih =>
    -- what follows the statement begins at depth zero again
    have hwithin : Row.Within 0 (Stmt.rowsOfBlock 0 ss) := by
      have happend := Row.within_block (Row.within_nil 0) ss
      rwa [List.append_nil] at happend
    obtain ⟨s', mid, hs', heq, hmid⟩ := statement_of_words hwithin s hwf.1 h
    obtain ⟨ss', hss', heqs⟩ := ih hwf.2 hmid
    exact ⟨s' :: ss', .statement hs' hss', by
      rw [Stmt.unplacedBlock, Stmt.unplacedBlock, heq, heqs]⟩

/-- **A program is derived from its words**, but for its positions. -/
theorem module_of_words {p : Program} (hp : p.WellFormed) {ts : List Token}
    (h : ts.map word = Row.resumed 0 p.rows) :
    ∃ q : Program, Module Leads ts (q.functions.map .function ++ q.body.map .statement) ∧
      q.unplaced = p.unplaced := by
  obtain ⟨fs, ss⟩ := p
  have hfunctions := hp.functions
  have hbody := hp.body
  clear hp
  dsimp only at *
  induction fs generalizing ts with
  | nil =>
    obtain ⟨ss', hss', heqs⟩ := module_of_block hbody h
    exact ⟨⟨[], ss'⟩, hss', by rw [Program.unplaced, Program.unplaced, heqs]⟩
  | cons f fs ih =>
    -- behind the function comes a program with one function less
    have hwithin := Program.within_rows ⟨fs, ss⟩
    unfold Program.rows at h
    rw [List.flatMap_cons, List.append_assoc] at h
    obtain ⟨f', mid, hf', heq, hmid⟩ :=
      function_of_words (hfunctions f List.mem_cons_self) hwithin h
    obtain ⟨q, hq, heqs⟩ := ih hmid fun g hg => hfunctions g (List.mem_cons_of_mem f hg)
    refine ⟨⟨f' :: q.functions, q.body⟩, .function hf' hq, ?_⟩
    simp only [Program.unplaced, Program.mk.injEq, List.map_cons, heq] at heqs ⊢
    rw [heqs.1]
    exact ⟨rfl, heqs.2⟩

end Offside
