import Offside.Proofs.Blocks.Nesting
import Offside.Proofs.Grammar.Errors
import Offside.Proofs.Grammar.Exact
import Offside.Proofs.Lexing.Indentation
import Offside.Proofs.Lexing.Pieces

/-!
# Lexer and parser agree on blocks

The lexer opens and closes blocks by the widths of the lines, and the readers of the grammar open
and close them by the tokens they find. The grammar allows for tokens in which the two would not
agree: a block that the end of the tokens closes, and the end of a block where none is open. Neither
is found in the tokens of a text.

* `tokenize_laid` — the tokens of a text are laid out, and in balance;
* `Parser.topLevel_ne_unexpectedDedent` — tokens in balance never close a block that is not open;
* `Parser.parse_blocks` — each block of the tree is one pair of tokens of the text.
-/

namespace Offside

open Token (Kind)

/-! ### The tokens of a text are laid out -/

namespace Lexer

/-- From every place on, the tokens close as many blocks as they open and as are open there. -/
theorem tokens_settled {l : Lexer} {ts : List Token} (h : l.tokens = .ok ts) (hl : l.Orderly) :
    closes ts = opens ts + l.height ∧ ∀ us, us <:+ ts → opens us ≤ closes us := by
  refine tokens_induction (motive := fun l ts => l.Orderly →
    closes ts = opens ts + l.height ∧ ∀ us, us <:+ ts → opens us ≤ closes us) ?_ ?_ h hl
  · intro l l' hstep hl
    -- nothing comes, so no end of a block is left to hand out
    have hheight : l'.height = l.height := hstep.height hl rfl
    rw [hstep.height_of_none hl] at hheight
    refine ⟨by rw [← hheight]; rfl, fun us hus => ?_⟩
    rw [List.suffix_nil.mp hus]
    exact Nat.le_refl _
  · intro l t l' ts hstep _ ih hl
    have hheight := hstep.height hl rfl
    rw [delivered_token, delivered_token] at hheight
    obtain ⟨hcloses, hsuffix⟩ := ih (hstep.orderly hl rfl)
    -- one step changes the height by one at most, and the counts with it
    have heq : closes (t :: ts) = opens (t :: ts) + l.height := by
      rw [closes_cons, opens_cons]
      omega
    refine ⟨heq, fun us hus => ?_⟩
    -- the whole sequence, or one of those behind the first token
    rcases List.suffix_cons_iff.mp hus with rfl | hus
    · omega
    · exact hsuffix us hus

/-- Behind a token that opens a block the lexer stands before a lexeme. -/
theorem Step.entered {l l' : Lexer} {t : Token} {ts : List Token} (h : Step l (some (.ok t)) l')
    (hl : l.Orderly) (ht : t.kind = .indent) (hts : l'.tokens = .ok ts) :
    ∃ u us, ts = u :: us ∧ u.kind.isLayout = false ∧ u.span = t.span := by
  cases h with
  | opened hfinds _ _ _ =>
    obtain ⟨lexeme, more, u, us, -, heq, hwritten, hspan, -⟩ :=
      (givesPieces hts).before rfl hfinds.content
    refine ⟨u, us, ?_, hwritten.isLayout, hspan⟩
    rw [heq]
    exact congrArg (· ++ u :: us) hfinds.idle
  -- no other step opens a block
  | due hp =>
    have hdedent := hl.dedents t (by simp [hp])
    rw [ht] at hdedent
    cases hdedent
  | token _ _ _ hm =>
    have hlayout := (Linewise.written_of_meaning? hm).isLayout
    obtain rfl : _ = Kind.indent := ht
    cases hlayout
  | closing _ _ => cases ht
  | continued _ _ _ => cases ht
  | closed _ _ _ _ _ => cases ht

theorem tokens_entered {l : Lexer} {ts : List Token} (h : l.tokens = .ok ts) (hl : l.Orderly) :
    ∀ i us, i :: us <:+ ts → i.kind = .indent →
      ∃ t vs, us = t :: vs ∧ t.kind.isLayout = false ∧ t.span = i.span := by
  refine tokens_induction (motive := fun l ts => l.Orderly → ∀ i us, i :: us <:+ ts →
    i.kind = .indent → ∃ t vs, us = t :: vs ∧ t.kind.isLayout = false ∧ t.span = i.span) ?_ ?_ h hl
  · intro l l' _ _ i us hus
    cases List.suffix_nil.mp hus
  · intro l t l' ts hstep hts ih hl i us hus hi
    -- the indent is the first token, or one of the later ones
    rcases List.suffix_cons_iff.mp hus with heq | hus
    · cases heq
      exact hstep.entered hl hi hts
    · exact ih (hstep.orderly hl rfl) i us hus hi

end Lexer

/-- **The tokens of a text are laid out**, and close exactly the blocks that they open. -/
theorem tokenize_laid {tabWidth : UInt64} {source : String} {ts : List Token}
    (h : tokenize tabWidth source = .ok ts) : Laid ts ∧ opens ts = closes ts := by
  have horderly := Lexer.orderly_ofSource tabWidth source
  obtain ⟨hcloses, hsettled⟩ := Lexer.tokens_settled h horderly
  exact ⟨⟨hsettled, Lexer.tokens_entered h horderly⟩, hcloses.symm⟩

namespace Parser

open Grammar

/-- **Tokens in balance never close a block that is not open.** -/
theorem topLevel_ne_unexpectedDedent {stop : Span} {bound : Nat} {table : SymbolTable}
    {ts : List Token} (hl : Laid ts) (hts : opens ts = closes ts) (u : Token) :
    topLevel stop bound table ts ≠ .error (unexpectedDedent u) := by
  induction bound generalizing table ts with
  | zero =>
    intro h
    cases h
  | succ bound ih =>
    cases ts with
    | nil =>
      intro h
      cases h
    | cons t ts =>
      intro h
      unfold topLevel at h
      split at h
      · next hk =>
        -- a line break counts for neither side of the balance
        refine ih hl.tail ?_ h
        rwa [opens_cons, closes_cons, hk, if_neg (by decide), if_neg (by decide)] at hts
      · next hk =>
        rcases bind_eq_error.mp h with h | ⟨⟨f, table', us⟩, hf, h⟩
        · exact (function_reports _ _ _ _ h).ne_unexpectedDedent u rfl
        · -- a function opens as many blocks as it closes, so the rest is in balance
          obtain ⟨hfun, -⟩ := function_derives hk hf
          have hrest := (hfun.nested hl).2.balanced hts
          rcases bind_eq_error.mp h with h | ⟨⟨table'', p⟩, -, h⟩
          · exact ih (hl.suffix hfun.takes.1) hrest h
          · cases h
      · next hk =>
        -- from the next token on, more blocks would be opened than closed
        have hsettled := hl.tail.settled ts List.suffix_rfl
        rw [opens_cons, closes_cons, hk, if_neg (by decide), if_pos rfl] at hts
        omega
      · rcases bind_eq_error.mp h with h | ⟨⟨s, table', us⟩, hs, h⟩
        · exact ((reporting _ _).statement _ _ _ _ h).ne_unexpectedDedent u rfl
        · obtain ⟨hstmt, -⟩ := (sound _ _).statement hs
          have hrest := (hstmt.nested hl).2.balanced hts
          rcases bind_eq_error.mp h with h | ⟨⟨table'', p⟩, -, h⟩
          · exact ih (hl.suffix hstmt.takes.1) hrest h
          · cases h

/-- **Lexer and parser agree on blocks.** On the tokens of a text:

* reading never meets the end of a block where none is open;
* wherever a block is read, it is read from a token that opens it up to its own token that closes
  it, and between the two are exactly the blocks of its statements; the end of the tokens closes
  none;
* if the text is a program, then no block of it is empty, every conditional has a branch, and the
  blocks of its parts are exactly the blocks that the tokens open and close, one for each pair of
  tokens. -/
theorem parse_blocks {tabWidth : UInt64} {source : String} {ts : List Token}
    (h : tokenize tabWidth source = .ok ts) :
    (∀ t, parse ts ≠ .error (unexpectedDedent t)) ∧
      (∀ us, us <:+ ts → ∀ stop bound scope table body table' rest,
        block stop bound scope table us = .ok (body, table', rest) →
          ∃ i inner d, us = i :: (inner ++ d :: rest) ∧ i.kind = .indent ∧
            Nested inner (Stmt.nestsOfBlock body) ∧ d.kind = .dedent) ∧
      ∀ table p, parse ts = .ok (table, p) →
        p.Filled ∧ ∃ is, Module Leads ts is ∧ p = Item.program is ∧
          Nested ts (is.flatMap Item.nests) := by
  obtain ⟨hl, hbalanced⟩ := tokenize_laid h
  refine ⟨topLevel_ne_unexpectedDedent hl hbalanced, ?_, ?_⟩
  · -- a block may be read anywhere: what is left of laid-out tokens is laid out too
    intro us hus stop bound scope table body table' rest hblock
    exact ((sound stop bound).block hblock).1.closed (hl.suffix hus)
  · intro table p hp
    obtain ⟨is, his, rfl, -⟩ := topLevel_derives hp
    obtain ⟨hfilled, hnested⟩ := his.nested hl
    exact ⟨Item.filled_program hfilled, is, his, rfl, hnested⟩

/-- Six blocks of all sorts, two of them inside another. -/
def steppedText : String := String.join [
  "def f() -> None:\n",
  "  while x:\n",
  "    y = 1\n",
  "if a:\n",
  "  b = 1\n",
  "elif c:\n",
  "  if d:\n",
  "    e = 1\n",
  "else:\n",
  "  g = 1\n"]

theorem parse_steppedText :
    ∃ ts table p, tokenize 8 steppedText = .ok ts ∧ parse ts = .ok (table, p) ∧ opens ts = 6 ∧
      p.Filled ∧ ∃ is, p = Item.program is ∧ Nested ts (is.flatMap Item.nests) := by
  have hopens : (tokenize 8 steppedText).toOption.map opens = some 6 := by decide +kernel
  have hparse : ((tokenize 8 steppedText).toOption.bind fun ts => (parse ts).toOption).isSome =
      true := by decide +kernel
  cases ht : tokenize 8 steppedText with
  | error e =>
    rw [ht] at hopens
    cases hopens
  | ok ts =>
    rw [ht] at hopens hparse
    cases hparsed : parse ts with
    | error e => simp [hparsed, Except.toOption] at hparse
    | ok parsed =>
      obtain ⟨table, p⟩ := parsed
      obtain ⟨hfilled, is, -, his, hnested⟩ := (parse_blocks ht).2.2 table p hparsed
      exact ⟨ts, table, p, rfl, hparsed, Option.some.inj hopens, hfilled, is, his, hnested⟩

end Parser

end Offside
