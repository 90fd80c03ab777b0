import Offside.Proofs.Grammar.Complete

/-!
# Blocks and their tokens

The grammar lets the end of the tokens close a block, and it has a rule for a block with nothing in
it. Neither happens in a token sequence that is **laid out**: from every place on it closes at least
as many blocks as it opens, and a block begins with a token that is not of the layout.

* `Nest` — the blocks of a text, and the blocks in them; `Stmt.nests` — those of a tree;
* `Nested` — a token sequence opens and closes exactly the given blocks;
* `Laid` — a token sequence that is laid out;
* `Grammar.Block.nested`, `Grammar.Module.nested` — in such a sequence each block of the tree is one
  pair of tokens, and no block is empty.
-/

namespace Offside

open Token (Kind)

/-- A block: where it begins, and the blocks in it, in order. -/
inductive Nest where
  | block (start : Span) (inner : List Nest)

/-! ### The blocks of a tree -/

/-- Where a block of statements begins. -/
def Stmt.startOf : List Stmt → Span
  | [] => .start
  | s :: _ => s.span

mutual

/-- The blocks of a statement, in order. -/
def Stmt.nests : Stmt → List Nest
  | .loop _ body _ => [.block (Stmt.startOf body) (Stmt.nestsOfBlock body)]
  | .choose bs none _ => Stmt.nestsOfBranches bs
  | .choose bs (some body) _ =>
    Stmt.nestsOfBranches bs ++ [.block (Stmt.startOf body) (Stmt.nestsOfBlock body)]
  | .assign _ _ _ _ | .declare _ _ _ | .giveBack _ _ | .print _ _ | .call _ => []

/-- The blocks of the statements of a block, in order. -/
def Stmt.nestsOfBlock : List Stmt → List Nest
  | [] => []
  | s :: ss => s.nests ++ Stmt.nestsOfBlock ss

/-- The blocks of some branches: one for each, with its own blocks in it. -/
def Stmt.nestsOfBranches : List Branch → List Nest
  | [] => []
  | .mk _ body _ :: bs =>
    .block (Stmt.startOf body) (Stmt.nestsOfBlock body) :: Stmt.nestsOfBranches bs

end

mutual

/-- No block is empty, and a conditional has a branch. -/
def Stmt.Filled : Stmt → Prop
  | .loop _ body _ => body ≠ [] ∧ Stmt.FilledBlock body
  | .choose bs none _ => bs ≠ [] ∧ Stmt.FilledBranches bs
  | .choose bs (some body) _ =>
    bs ≠ [] ∧ Stmt.FilledBranches bs ∧ body ≠ [] ∧ Stmt.FilledBlock body
  | .assign _ _ _ _ | .declare _ _ _ | .giveBack _ _ | .print _ _ | .call _ => True

def Stmt.FilledBlock : List Stmt → Prop
  | [] => True
  | s :: ss => s.Filled ∧ Stmt.FilledBlock ss

def Stmt.FilledBranches : List Branch → Prop
  | [] => True
  | .mk _ body _ :: bs => (body ≠ [] ∧ Stmt.FilledBlock body) ∧ Stmt.FilledBranches bs

end

/-- The last block of a conditional, if there is one. -/
def Stmt.nestsOfLast : Option (List Stmt) → List Nest
  | none => []
  | some body => [.block (Stmt.startOf body) (Stmt.nestsOfBlock body)]

/-- The last block of a conditional is not empty, if there is one. -/
def Stmt.FilledLast : Option (List Stmt) → Prop
  | none => True
  | some body => body ≠ [] ∧ Stmt.FilledBlock body

/-- The blocks of a conditional with or without a last block, in one equation. -/
theorem Stmt.nests_choose (bs : List Branch) (last : Option (List Stmt)) (span : Span) :
    (Stmt.choose bs last span).nests = Stmt.nestsOfBranches bs ++ Stmt.nestsOfLast last := by
  cases last <;> simp [Stmt.nests, Stmt.nestsOfLast]

/-- A conditional with or without a last block, in one equivalence. -/
theorem Stmt.filled_choose {bs : List Branch} {last : Option (List Stmt)} {span : Span} :
    (Stmt.choose bs last span).Filled ↔
      (bs ≠ [] ∧ Stmt.FilledBranches bs) ∧ Stmt.FilledLast last := by
  cases last <;> simp [Stmt.Filled, Stmt.FilledLast, and_assoc]

/-- No block of the program is empty, and every conditional has a branch. -/
structure Program.Filled (p : Program) : Prop where
  functions : ∀ f ∈ p.functions, f.body ≠ [] ∧ Stmt.FilledBlock f.body
  body : Stmt.FilledBlock p.body

/-! ### The blocks of a token sequence -/

/-- The token neither opens nor closes a block. -/
def Token.Flat (t : Token) : Prop := t.kind ≠ .indent ∧ t.kind ≠ .dedent

/-- A token that is written on a line neither opens nor closes a block. -/
theorem Token.flat_of_inline {t : Token} (h : t.kind.isLayout = false) : t.Flat := by
  constructor
  · intro hk
    rw [hk] at h
    cases h
  · intro hk
    rw [hk] at h
    cases h

/-- **The blocks that a token sequence opens and closes.** Each begins with a token that opens it
and ends with its own token that closes it. -/
inductive Nested : List Token → List Nest → Prop
  | nil : Nested [] []
  | token {t : Token} {ts : List Token} {ns : List Nest} :
    t.Flat → Nested ts ns → Nested (t :: ts) ns
  | block {i d : Token} {inner rest : List Token} {ns ms : List Nest} :
    i.kind = .indent → Nested inner ns → d.kind = .dedent → Nested rest ms →
      Nested (i :: (inner ++ d :: rest)) (.block i.span ns :: ms)

/-- How many blocks a token sequence opens. -/
def opens (ts : List Token) : Nat := ts.countP fun t => t.kind = .indent

/-- How many blocks a token sequence closes. -/
def closes (ts : List Token) : Nat := ts.countP fun t => t.kind = .dedent

theorem opens_append (ts us : List Token) : opens (ts ++ us) = opens ts + opens us :=
  List.countP_append

theorem closes_append (ts us : List Token) : closes (ts ++ us) = closes ts + closes us :=
  List.countP_append

theorem opens_cons (t : Token) (ts : List Token) :
    opens (t :: ts) = opens ts + if t.kind = .indent then 1 else 0 := by
  simp [opens, List.countP_cons]

theorem closes_cons (t : Token) (ts : List Token) :
    closes (t :: ts) = closes ts + if t.kind = .dedent then 1 else 0 := by
  simp [closes, List.countP_cons]

namespace Nested

variable {ts us : List Token} {ns ms : List Nest}

/-- Blocks of one sequence after those of another. -/
theorem append (h : Nested ts ns) (h' : Nested us ms) : Nested (ts ++ us) (ns ++ ms) := by
  -- the inner blocks stay as they are, and what follows a block is put after the rest
  induction h with
  | nil => exact h'
  | token ht _ ih => exact .token ht ih
  | block hi hinner hd _ _ ih =>
    rw [List.cons_append, List.append_assoc]
    exact .block hi hinner hd ih

/-- Tokens that neither open nor close a block have no blocks. -/
theorem of_flat (h : ∀ t ∈ ts, t.Flat) : Nested ts [] := by
  induction ts with
  | nil => exact .nil
  | cons t ts ih =>
    obtain ⟨ht, hts⟩ := List.forall_mem_cons.mp h
    exact .token ht (ih hts)

/-- Blocks that are opened and closed are in balance. -/
theorem opens_eq_closes (h : Nested ts ns) : opens ts = closes ts := by
  induction h with
  | nil => rfl
  | token ht _ ih => rw [opens_cons, closes_cons, if_neg ht.1, if_neg ht.2, ih]
  | block hi _ hd _ ihinner ih =>
    simp only [opens_cons, closes_cons, opens_append, closes_append, hi, hd, if_true, reduceCtorEq,
      if_false]
    omega

end Nested

/-- **A token sequence that is laid out.** From every place on it closes at least as many blocks as
it opens, and each block begins with a token that is not of the layout, at the same position. -/
structure Laid (ts : List Token) : Prop where
  settled : ∀ us, us <:+ ts → opens us ≤ closes us
  entered : ∀ i us, i :: us <:+ ts → i.kind = .indent →
    ∃ t vs, us = t :: vs ∧ t.kind.isLayout = false ∧ t.span = i.span

/-- Being laid out is a statement about all ends of the sequence, and so it passes to each of them.
-/
theorem Laid.suffix {ts us : List Token} (h : Laid ts) (hs : us <:+ ts) : Laid us :=
  ⟨fun vs hvs => h.settled vs (hvs.trans hs), fun i vs hvs => h.entered i vs (hvs.trans hs)⟩

theorem Laid.tail {t : Token} {ts : List Token} (h : Laid (t :: ts)) : Laid ts :=
  h.suffix (List.suffix_cons t ts)

theorem Laid.of_append {ts us : List Token} (h : Laid (ts ++ us)) : Laid us :=
  h.suffix (List.suffix_append ts us)

/-- Some tokens are taken off the front, and they open and close exactly the given blocks. -/
def Consumes (ts rest : List Token) (ns : List Nest) : Prop :=
  ∃ front, ts = front ++ rest ∧ Nested front ns

namespace Consumes

variable {ts mid rest : List Token} {ns ms : List Nest}

/-- No tokens taken, no blocks. -/
theorem nothing : Consumes ts ts [] := ⟨[], rfl, .nil⟩

/-- Tokens taken in two goes, with the blocks of both. -/
theorem trans (h : Consumes ts mid ns) (h' : Consumes mid rest ms) :
    Consumes ts rest (ns ++ ms) := by
  obtain ⟨front, rfl, hfront⟩ := h
  obtain ⟨front', rfl, hfront'⟩ := h'
  exact ⟨front ++ front', (List.append_assoc _ _ _).symm, hfront.append hfront'⟩

/-- What is left is in balance if the whole is. -/
theorem balanced (h : Consumes ts rest ns) (hts : opens ts = closes ts) :
    opens rest = closes rest := by
  obtain ⟨front, rfl, hfront⟩ := h
  rw [opens_append, closes_append, hfront.opens_eq_closes] at hts
  omega

/-- Tokens without blocks may be taken first. -/
theorem flat {front : List Token} (hfront : ∀ t ∈ front, t.Flat) (h : Consumes ts rest ns) :
    Consumes (front ++ ts) rest ns :=
  trans ⟨front, rfl, .of_flat hfront⟩ h

/-- One such token may be taken first. -/
theorem flat_cons {t : Token} (ht : t.Flat) (h : Consumes ts rest ns) :
    Consumes (t :: ts) rest ns := by
  have hfront : ∀ u ∈ [t], u.Flat := List.forall_mem_singleton.mpr ht
  exact h.flat hfront

/-- No token that is written opens or closes a block. -/
theorem inline {front : List Token} (hfront : ∀ t ∈ front, t.kind.isLayout = false)
    (h : Consumes ts rest ns) : Consumes (front ++ ts) rest ns :=
  h.flat fun t ht => Token.flat_of_inline (hfront t ht)

end Consumes

namespace Grammar

/-- A token whose kind is known is flat, by deciding it for the kind. -/
theorem flat_of_kind {t : Token} {kind : Kind} (h : t.kind = kind)
    (hkind : kind ≠ .indent ∧ kind ≠ .dedent) : t.Flat := by
  rw [← h] at hkind
  exact hkind

/-! ### What stands on a line is not of the layout -/

/-- A token whose kind is known is not of the layout, likewise. -/
theorem inline_of_kind {t : Token} {kind : Kind} (h : t.kind = kind)
    (hkind : kind.isLayout = false) : t.kind.isLayout = false := by
  rwa [h]

/-- A token that stands for something else is not of the layout. -/
theorem inline_of_some {α : Type} {read : Kind → Option α} {t : Token} {a : α}
    (h : read t.kind = some a)
    (hread : read .newline = none ∧ read .indent = none ∧ read .dedent = none) :
    t.kind.isLayout = false := by
  rw [Bool.eq_false_iff]
  intro hlayout
  -- the three kinds of the layout stand for nothing
  cases hk : t.kind <;> rw [hk] at hlayout h <;> cases hlayout
  · rw [hread.1] at h
    cases h
  · rw [hread.2.1] at h
    cases h
  · rw [hread.2.2] at h
    cases h

/-- The token of an operand is a name or a literal. -/
theorem Spells.inline {t : Token} {x : Operand} (h : Spells t x) : t.kind.isLayout = false := by
  refine inline_of_kind h.1 ?_
  rcases x with s | (v | v | v) <;> rfl

/-- Operators stand for something else (`inline_of_some`), and operands are written
(`Spells.inline`). -/
theorem Operations.inline {ts : List Token} {ops : List (BinaryOp × Operand)}
    (h : Operations ts ops) : ∀ t ∈ ts, t.kind.isLayout = false := by
  induction h with
  | nil => simp
  | cons ho ht _ ih =>
    exact List.forall_mem_cons.mpr
      ⟨inline_of_some ho (by decide), List.forall_mem_cons.mpr ⟨ht.inline, ih⟩⟩

section Lists

variable {α : Type} {item : List Token → α → Prop} {ts : List Token} {xs : List α}

/-- A list with commas is written on the line if its items are. -/
theorem Separated.inline (hitem : ∀ {us x}, item us x → ∀ t ∈ us, t.kind.isLayout = false)
    (h : Separated item ts xs) : ∀ t ∈ ts, t.kind.isLayout = false := by
  induction h with
  | one hx => exact hitem hx
  | more hx hc _ ih =>
    exact List.forall_mem_append.mpr
      ⟨hitem hx, List.forall_mem_cons.mpr ⟨inline_of_kind hc rfl, ih⟩⟩

/-- The closing parenthesis is written too (`Separated.inline`). -/
theorem Listed.inline (hitem : ∀ {us x}, item us x → ∀ t ∈ us, t.kind.isLayout = false)
    (h : Listed item ts xs) : ∀ t ∈ ts, t.kind.isLayout = false := by
  cases h with
  | none hr => exact List.forall_mem_singleton.mpr (inline_of_kind hr rfl)
  | some hs hr =>
    exact List.forall_mem_append.mpr
      ⟨hs.inline hitem, List.forall_mem_singleton.mpr (inline_of_kind hr rfl)⟩

end Lists

/-- An argument is one operand. -/
theorem Argument.inline {ts : List Token} {x : Operand} (h : Argument ts x) :
    ∀ t ∈ ts, t.kind.isLayout = false := by
  cases h with
  | mk ht => exact List.forall_mem_singleton.mpr ht.inline

/-- A parameter is a name, a colon and a type. -/
theorem Parameter.inline {ts : List Token} {p : Param} (h : Parameter ts p) :
    ∀ t ∈ ts, t.kind.isLayout = false := by
  cases h with
  | mk hn hc ht =>
    simp only [List.forall_mem_cons, List.not_mem_nil, false_implies, implies_true, and_true]
    exact ⟨inline_of_kind hn.1 rfl, inline_of_kind hc rfl,
      inline_of_some ht (by decide)⟩

/-- An expression is written on the line: a call by `Listed.inline`, all else by
`Operations.inline`. -/
theorem Expression.inline {ts : List Token} {e : Expr} (h : Expression ts e) :
    ∀ t ∈ ts, t.kind.isLayout = false := by
  cases h with
  | call hn hl hargs =>
    simp only [List.forall_mem_cons]
    exact ⟨inline_of_kind hn.1 rfl, inline_of_kind hl rfl, hargs.inline Argument.inline⟩
  | plain ht hops => exact List.forall_mem_cons.mpr ⟨ht.inline, hops.inline⟩
  | negated hn ht hops =>
    simp only [List.forall_mem_cons]
    exact ⟨inline_of_kind hn rfl, ht.inline, hops.inline⟩

/-- The values of a print statement, with or without a comma after the last. -/
theorem Printed.inline {ts : List Token} {es : List Expr} (h : Printed ts es) :
    ∀ t ∈ ts, t.kind.isLayout = false := by
  cases h with
  | none hr => exact List.forall_mem_singleton.mpr (inline_of_kind hr rfl)
  | some hs hr =>
    exact List.forall_mem_append.mpr
      ⟨hs.inline Expression.inline, List.forall_mem_singleton.mpr (inline_of_kind hr rfl)⟩
  | trailing hs hc hr =>
    refine List.forall_mem_append.mpr ⟨hs.inline Expression.inline, ?_⟩
    simp only [List.forall_mem_cons, List.not_mem_nil, false_implies, implies_true, and_true]
    exact ⟨inline_of_kind hc rfl, inline_of_kind hr rfl⟩

/-- **A statement of one line has no token of the layout**, form by form. -/
theorem Simple.inline {ts : List Token} {s : Stmt} (h : Simple Leads ts s) :
    ∀ t ∈ ts, t.kind.isLayout = false := by
  cases h with
  | declaration hn hc ht =>
    simp only [List.forall_mem_cons, List.not_mem_nil, false_implies, implies_true, and_true]
    exact ⟨inline_of_kind hn.1 rfl, inline_of_kind hc rfl,
      inline_of_some ht (by decide)⟩
  | annotated hn hc ht ha he =>
    simp only [List.forall_mem_cons]
    exact ⟨inline_of_kind hn.1 rfl, inline_of_kind hc rfl,
      inline_of_some ht (by decide), inline_of_kind ha rfl, he.inline⟩
  | assignment hn ha he =>
    simp only [List.forall_mem_cons]
    exact ⟨inline_of_kind hn.1 rfl, inline_of_kind ha rfl, he.inline⟩
  | call hn hl hargs =>
    simp only [List.forall_mem_cons]
    exact ⟨inline_of_kind hn.1 rfl, inline_of_kind hl rfl, hargs.inline Argument.inline⟩
  | returnNothing hr => exact List.forall_mem_singleton.mpr (inline_of_kind hr rfl)
  | returnValue hr he =>
    exact List.forall_mem_cons.mpr ⟨inline_of_kind hr rfl, he.inline⟩
  | print hp hl he =>
    simp only [List.forall_mem_cons]
    exact ⟨inline_of_kind hp rfl, inline_of_kind hl rfl, he.inline⟩

/-! ### Statements -/

/-- A statement of one line has no blocks. -/
theorem Simple.nests_eq {lead : Token → String → Prop} {ts : List Token} {s : Stmt}
    (h : Simple lead ts s) : s.nests = [] ∧ s.Filled := by
  cases h <;> exact ⟨by simp only [Stmt.nests], by simp only [Stmt.Filled]⟩

/-- What ends a statement opens and closes nothing; a token that closes the block around it is left.
-/
theorem Ended.consumes {ts rest : List Token} (h : Ended ts rest) : Consumes ts rest [] := by
  cases h with
  | newline hn => exact .flat_cons (flat_of_kind hn (by decide)) .nothing
  | dedent _ => exact .nothing
  | endOfTokens => exact .nothing

/-- A statement stands where its first token does. -/
theorem Statement.span_eq {lead : Token → String → Prop} {ts rest : List Token} {s : Stmt}
    (h : Statement lead ts s rest) : ∃ t us, ts = t :: us ∧ s.span = t.span := by
  cases h with
  | simple hs _ => cases hs <;> exact ⟨_, _, rfl, rfl⟩
  | loop _ _ _ _ => exact ⟨_, _, rfl, rfl⟩
  | choose _ _ _ => exact ⟨_, _, rfl, rfl⟩

/-- The statements of a block that begins with a token that is not of the layout. -/
theorem Items.begins {lead : Token → String → Prop} {t : Token} {ts rest : List Token}
    {ss : List Stmt} (h : Items lead (t :: ts) ss rest) (ht : t.kind.isLayout = false) :
    ss ≠ [] ∧ Stmt.startOf ss = t.span := by
  -- with tokens left, and the first of them not of the layout, only a statement can come first
  cases h with
  | dedent hd =>
    rw [hd] at ht
    cases ht
  | newline hn _ =>
    rw [hn] at ht
    cases ht
  | statement hs _ =>
    obtain ⟨u, us, heq, hspan⟩ := hs.span_eq
    cases heq
    exact ⟨List.cons_ne_nil _ _, hspan⟩

/-- The statements of a block come to the token that closes it, or the tokens run out. -/
def Reaches (ts rest : List Token) (ns : List Nest) : Prop :=
  (∃ d, d.kind = .dedent ∧ Consumes ts (d :: rest) ns) ∨ rest = [] ∧ Consumes ts [] ns

/-- Tokens with their blocks may be taken before the statements come to their end. -/
theorem Reaches.trans {ts mid rest : List Token} {ns ms : List Nest} (h : Consumes ts mid ns) :
    Reaches mid rest ms → Reaches ts rest (ns ++ ms)
  | .inl ⟨d, hd, h'⟩ => .inl ⟨d, hd, h.trans h'⟩
  | .inr ⟨hrest, h'⟩ => .inr ⟨hrest, h.trans h'⟩

/-- **Tokens that are laid out do not run out in a block.** What is taken in the block is in balance
(`Nested.opens_eq_closes`), so its first token would remain unclosed. -/
theorem not_consumes_of_laid {i : Token} {ts : List Token} (hl : Laid (i :: ts))
    (hi : i.kind = .indent) (ns : List Nest) : ¬ Consumes ts [] ns := by
  rintro ⟨front, hts, hfront⟩
  rw [List.append_nil] at hts
  subst hts
  -- the block is opened, and all that follows is in balance
  have hsettled := hl.settled _ List.suffix_rfl
  rw [opens_cons, closes_cons, hi, hfront.opens_eq_closes, if_pos rfl, if_neg (by decide)]
    at hsettled
  omega

/-- In tokens that are laid out, the statements of a block come to the token that closes it, the
other case being excluded by `not_consumes_of_laid`. -/
theorem Reaches.closed {i : Token} {ts rest : List Token} {ns : List Nest}
    (hl : Laid (i :: ts)) (hi : i.kind = .indent) (h : Reaches ts rest ns) :
    ∃ inner d, ts = inner ++ d :: rest ∧ Nested inner ns ∧ d.kind = .dedent := by
  rcases h with ⟨d, hd, inner, hts, hinner⟩ | ⟨-, h⟩
  · exact ⟨inner, d, hts, hinner, hd⟩
  · exact absurd h (not_consumes_of_laid hl hi ns)

mutual

/-- **A statement takes whole blocks**, which are those of its tree, and none of them is empty. By
recursion on the derivation, with the same for branches, last blocks, blocks and items; that the
tokens are laid out passes from the whole to what each part begins with (`Laid.suffix`). -/
theorem Statement.nested {ts rest : List Token} {s : Stmt} (hl : Laid ts) :
    Statement Leads ts s rest → s.Filled ∧ Consumes ts rest s.nests
  | .simple hs he => by
    rw [hs.nests_eq.1]
    exact ⟨hs.nests_eq.2, he.consumes.inline hs.inline⟩
  | .loop hw he hc hb => by
    obtain ⟨hfilled, hblock⟩ := hb.nested hl.tail.of_append.tail
    rw [Stmt.Filled, Stmt.nests]
    refine ⟨hfilled, .flat_cons (flat_of_kind hw (by decide)) (.inline he.inline ?_)⟩
    exact hblock.flat_cons (flat_of_kind hc (by decide))
  | .choose hi hb ho => by
    obtain ⟨hfilled, hbranches⟩ := hb.nested hl.tail
    -- the last block begins where the branches have left off
    obtain ⟨hfilled', hlast⟩ := ho.nested (hl.tail.suffix hb.takes.1)
    rw [Stmt.filled_choose, Stmt.nests_choose]
    exact ⟨⟨hfilled, hfilled'⟩, .flat_cons (flat_of_kind hi (by decide)) (hbranches.trans hlast)⟩

theorem Branches.nested {span : Span} {ts rest : List Token} {bs : List Branch} (hl : Laid ts) :
    Branches Leads span ts bs rest →
      (bs ≠ [] ∧ Stmt.FilledBranches bs) ∧ Consumes ts rest (Stmt.nestsOfBranches bs)
  | .one he hc hb => by
    obtain ⟨hfilled, hblock⟩ := hb.nested hl.of_append.tail
    rw [Stmt.FilledBranches, Stmt.FilledBranches, Stmt.nestsOfBranches, Stmt.nestsOfBranches]
    refine ⟨⟨List.cons_ne_nil _ _, hfilled, trivial⟩, .inline he.inline ?_⟩
    exact hblock.flat_cons (flat_of_kind hc (by decide))
  | .more he hc hb hi hm => by
    obtain ⟨hfilled, hblock⟩ := hb.nested hl.of_append.tail
    -- what is left behind the block is laid out, as a suffix of what was
    have hrest := hl.of_append.tail.suffix hb.takes.1
    obtain ⟨⟨-, hfilled'⟩, hmore⟩ := hm.nested hrest.tail
    rw [Stmt.FilledBranches, Stmt.nestsOfBranches]
    refine ⟨⟨List.cons_ne_nil _ _, hfilled, hfilled'⟩, .inline he.inline ?_⟩
    refine .flat_cons (flat_of_kind hc (by decide)) (hblock.trans ?_)
    exact hmore.flat_cons (flat_of_kind hi (by decide))

theorem Otherwise.nested {ts rest : List Token} {last : Option (List Stmt)} (hl : Laid ts) :
    Otherwise Leads ts last rest →
      Stmt.FilledLast last ∧ Consumes ts rest (Stmt.nestsOfLast last)
  | .none => ⟨trivial, .nothing⟩
  | .some hw hc hb => by
    obtain ⟨hfilled, hblock⟩ := hb.nested hl.tail.tail
    refine ⟨hfilled, .flat_cons (flat_of_kind hw (by decide)) ?_⟩
    exact hblock.flat_cons (flat_of_kind hc (by decide))

/-- **A block is opened and closed by its own two tokens.** It begins with a token that is written
(`Laid.entered`), so it is not empty (`Items.begins`), and it comes to the token that closes it
(`Reaches.closed`). -/
theorem Block.nested {ts rest : List Token} {body : List Stmt} (hl : Laid ts) :
    Block Leads ts body rest → (body ≠ [] ∧ Stmt.FilledBlock body) ∧
      Consumes ts rest [.block (Stmt.startOf body) (Stmt.nestsOfBlock body)]
  | .mk hi h => by
    obtain ⟨hfilled, hreach⟩ := h.nested hl.tail
    obtain ⟨t, us, rfl, ht, hspan⟩ := hl.entered _ _ List.suffix_rfl hi
    obtain ⟨hne, hstart⟩ := h.begins ht
    obtain ⟨inner, d, hsplit, hinner, hd⟩ := hreach.closed hl hi
    -- the block of the tree and that of the tokens begin at the same position
    rw [hstart, hspan, hsplit]
    exact ⟨⟨hne, hfilled⟩, _ :: (inner ++ [d]), by simp, .block hi hinner hd .nil⟩

theorem Items.nested {ts rest : List Token} {ss : List Stmt} (hl : Laid ts) :
    Items Leads ts ss rest → Stmt.FilledBlock ss ∧ Reaches ts rest (Stmt.nestsOfBlock ss)
  | .endOfTokens => by
    rw [Stmt.FilledBlock, Stmt.nestsOfBlock]
    exact ⟨trivial, .inr ⟨rfl, .nothing⟩⟩
  | .dedent hd => by
    rw [Stmt.FilledBlock, Stmt.nestsOfBlock]
    exact ⟨trivial, .inl ⟨_, hd, .nothing⟩⟩
  | .newline hn h => by
    obtain ⟨hfilled, hreach⟩ := h.nested hl.tail
    exact ⟨hfilled, hreach.trans (.flat_cons (flat_of_kind hn (by decide)) .nothing)⟩
  | .statement hs h => by
    -- the statement consumes its own blocks, and the rest is reached behind it
    obtain ⟨hfilled, hstmt⟩ := hs.nested hl
    obtain ⟨hfilled', hreach⟩ := h.nested (hl.suffix hs.takes.1)
    rw [Stmt.FilledBlock, Stmt.nestsOfBlock]
    exact ⟨⟨hfilled, hfilled'⟩, hreach.trans hstmt⟩

end

/-- The two tokens of a block and what stands between them. -/
theorem Block.closed {ts rest : List Token} {body : List Stmt} (hl : Laid ts)
    (h : Block Leads ts body rest) :
    ∃ i inner d, ts = i :: (inner ++ d :: rest) ∧ i.kind = .indent ∧
      Nested inner (Stmt.nestsOfBlock body) ∧ d.kind = .dedent := by
  cases h with
  | mk hi hitems =>
    obtain ⟨inner, d, rfl, hinner, hd⟩ := (hitems.nested hl.tail).2.closed hl hi
    exact ⟨_, inner, d, rfl, hi, hinner, hd⟩

/-! ### Modules -/

/-- A function is its head, which is flat, and its block (`Block.nested`). -/
theorem FunctionDef.nested {ts rest : List Token} {f : Function} (hl : Laid ts)
    (h : FunctionDef Leads ts f rest) : (f.body ≠ [] ∧ Stmt.FilledBlock f.body) ∧
      Consumes ts rest [.block (Stmt.startOf f.body) (Stmt.nestsOfBlock f.body)] := by
  cases h with
  | mk hd hn hlp hps ha hr hc hb =>
    -- the block comes after `def`, the name, the parentheses, the arrow, the type and the colon
    obtain ⟨hfilled, hblock⟩ := hb.nested hl.tail.tail.tail.of_append.tail.tail.tail
    refine ⟨hfilled, .flat_cons (flat_of_kind hd (by decide)) ?_⟩
    refine .flat_cons (flat_of_kind hn.1 (by decide)) (.flat_cons (flat_of_kind hlp (by decide)) ?_)
    refine .inline (hps.inline Parameter.inline) (.flat_cons (flat_of_kind ha (by decide)) ?_)
    refine .flat_cons (Token.flat_of_inline (inline_of_some hr (by decide))) ?_
    exact hblock.flat_cons (flat_of_kind hc (by decide))

/-- The blocks of a part of a module. -/
def Item.nests : Item → List Nest
  | .function f => [.block (Stmt.startOf f.body) (Stmt.nestsOfBlock f.body)]
  | .statement s => s.nests

/-- No block of this part of a module is empty. -/
def Item.Filled : Item → Prop
  | .function f => f.body ≠ [] ∧ Stmt.FilledBlock f.body
  | .statement s => s.Filled

/-- **The blocks of a module are those of its tokens**, and none of them is empty, by
`FunctionDef.nested` and `Statement.nested` for its parts. -/
theorem Module.nested {ts : List Token} {is : List Item} (hl : Laid ts) (h : Module Leads ts is) :
    (∀ i ∈ is, i.Filled) ∧ Nested ts (is.flatMap Item.nests) := by
  -- each part takes whole blocks, so what is left is laid out again
  induction h with
  | nil => exact ⟨by simp, .nil⟩
  | newline hn _ ih =>
    obtain ⟨hfilled, hnested⟩ := ih hl.tail
    exact ⟨hfilled, .token (flat_of_kind hn (by decide)) hnested⟩
  | function hf _ ih =>
    obtain ⟨hfilled, hnested⟩ := ih (hl.suffix hf.takes.1)
    obtain ⟨hfilled', front, rfl, hfront⟩ := hf.nested hl
    exact ⟨List.forall_mem_cons.mpr ⟨hfilled', hfilled⟩, hfront.append hnested⟩
  | statement hs _ ih =>
    obtain ⟨hfilled, hnested⟩ := ih (hl.suffix hs.takes.1)
    obtain ⟨hfilled', front, rfl, hfront⟩ := hs.nested hl
    exact ⟨List.forall_mem_cons.mpr ⟨hfilled', hfilled⟩, hfront.append hnested⟩

/-- A program is filled if its parts are, wherever they were written. -/
theorem Item.filled_program {is : List Item} (h : ∀ i ∈ is, i.Filled) :
    (Item.program is).Filled := by
  induction is with
  | nil => exact ⟨by simp [Item.program, Program.empty], trivial⟩
  | cons i is ih =>
    obtain ⟨hi, his⟩ := List.forall_mem_cons.mp h
    cases i with
    | function f => exact ⟨List.forall_mem_cons.mpr ⟨hi, (ih his).functions⟩, (ih his).body⟩
    | statement s => exact ⟨(ih his).functions, hi, (ih his).body⟩

end Grammar

end Offside
