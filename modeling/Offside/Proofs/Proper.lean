import Offside.Proofs.Grammar.Exact
import Offside.Proofs.Linewise.Progress
import Offside.Proofs.RoundTrip.Text

/-!
# What a text can be read to

Not every token and not every tree comes from a text. A token of a text is `Proper`: an identifier
carries a name, and a floating-point literal a finite number. A program whose tokens are proper is
`Proper` too: its names are names, its numbers are finite, and each of its conditionals has a
branch. Its blocks may still be empty, which is what `Program.WellFormed` adds.

* `Lexer.givesProper_next` — a step of a lexer gives a proper token and leaves only proper ones due;
* `tokenize_proper` — so all tokens of a text are proper;
* `Parser.parse_proper` — what is derived from proper tokens is a proper program.
-/

namespace Offside

open Token

/-! ### Tokens of a text -/

/-- An identifier carries a name, and a floating-point literal a finite number. -/
structure Token.Proper (t : Token) : Prop where
  identifier : t.kind = .identifier → ∃ s, t.value = some (.name s) ∧ IsName s
  floatLiteral : t.kind = .floatLiteral → ∃ x, t.value = some (.float x) ∧ x.isFinite = true

/-- Nothing is asked of tokens of any other kind. -/
theorem Token.proper_of_kind {kind : Kind} {value : Option Value} {span : Span}
    (h : kind ≠ .identifier ∧ kind ≠ .floatLiteral) : Token.Proper ⟨kind, value, span⟩ :=
  ⟨fun hk => absurd hk h.1, fun hk => absurd hk h.2⟩

/-- What is found in a table that names no such kind is of no such kind. -/
theorem Token.valueless_of_lookup {α : Type} [BEq α] [LawfulBEq α] {pairs : List (α × Kind)}
    (hpairs : ∀ pair ∈ pairs, pair.2 ≠ .identifier ∧ pair.2 ≠ .floatLiteral) {key : α} {kind : Kind}
    (h : pairs.lookup key = some kind) : kind ≠ .identifier ∧ kind ≠ .floatLiteral := by
  obtain ⟨before, after, rfl, -⟩ := List.lookup_eq_some_iff.mp h
  exact hpairs (key, kind) (by simp)

namespace Linewise

/-- A number that is read is an integer or finite: what is not is reported as out of range. -/
theorem proper_number {n : Numeral} {kind : Kind} {value : Option Value}
    (h : ofNumeral n = .ok (kind, value)) (span : Span) : Token.Proper ⟨kind, value, span⟩ := by
  unfold ofNumeral at h
  cases hv : n.value? with
  | none =>
    rw [hv] at h
    cases h
  | some pair =>
    rw [hv] at h
    cases h
    -- an integer and a number with a fraction are told apart here
    unfold Numeral.value? at hv
    split_ifs at hv with hfraction
    · obtain ⟨v, -, hpair⟩ := Option.map_eq_some_iff.mp hv
      cases hpair
      exact ⟨nofun, nofun⟩
    · obtain ⟨x, hx, hpair⟩ := Option.map_eq_some_iff.mp hv
      cases hpair
      -- a number that is not finite is out of range
      unfold Numeral.float? at hx
      dsimp only at hx
      split_ifs at hx with hfinite
      cases hx
      exact ⟨nofun, fun _ => ⟨_, rfl, hfinite⟩⟩

/-- A word is one of the language, or else a name. -/
theorem proper_word {cs : List Char} (hcs : isWord cs = true) (span : Span) :
    Token.Proper ⟨(ofWord (String.ofList cs)).1, (ofWord (String.ofList cs)).2, span⟩ := by
  unfold ofWord
  split
  next => exact ⟨nofun, nofun⟩
  -- the words of the language stand in a table without names or numbers
  next kind hw =>
    exact Token.proper_of_kind (Token.valueless_of_lookup (by decide) hw)
  next hw =>
    have hname : IsName (String.ofList cs) := ⟨by rwa [String.toList_ofList], hw⟩
    exact ⟨fun _ => ⟨_, rfl, hname⟩, nofun⟩

/-- **A lexeme is a proper token**: a number by `proper_number`, a word by `proper_word`, and a mark
because it is found in a table (`Token.valueless_of_lookup`). -/
theorem proper_of_meaning? {signed : Bool} {cs : List Char} {kind : Kind} {value : Option Value}
    (h : meaning? signed cs = some (.ok (kind, value))) (span : Span) :
    Token.Proper ⟨kind, value, span⟩ := by
  unfold meaning? at h
  split at h
  next n hn => exact proper_number (Option.some.inj h) span
  next hn =>
    split_ifs at h with hword
    · -- a word: what `ofWord` gives is all there is
      have hof : ofWord (String.ofList cs) = (kind, value) := Except.ok.inj (Option.some.inj h)
      have hproper := proper_word hword span
      rwa [hof] at hproper
    · obtain ⟨kind', hlookup, heq⟩ := Option.map_eq_some_iff.mp h
      cases heq
      exact Token.proper_of_kind (Token.valueless_of_lookup (by decide) hlookup)

end Linewise

/-! ### Steps of a lexer -/

namespace Lexer

/-- A step gives a proper token, if it gives one, and leaves only proper tokens due. -/
def GivesProper (step : Answer × Lexer) : Prop :=
  (∀ t, step.1 = some (.ok t) → t.Proper) ∧ ∀ t ∈ step.2.pending, t.Proper

variable {l : Lexer}

/-- Giving one proper token leaves the ones that are due as they are. -/
theorem givesProper_give {t : Token} (ht : t.Proper) (hl : ∀ t ∈ l.pending, t.Proper) :
    GivesProper (l.give t) :=
  ⟨fun u hu => by cases hu; exact ht, hl⟩

/-- A step that fails gives no token. -/
theorem givesProper_fail (fault : LexicalFault) (hl : ∀ t ∈ l.pending, t.Proper) :
    GivesProper (l.fail fault) :=
  ⟨nofun, hl⟩

/-- The first of the tokens that are due is given, and the others stay due. -/
theorem givesProper_giveDue {ts : List Token} (hts : ∀ t ∈ ts, t.Proper) :
    GivesProper (l.giveDue ts) := by
  cases ts with
  | nil => exact ⟨nofun, nofun⟩
  | cons t ts =>
    exact givesProper_give (hts t List.mem_cons_self) fun u hu =>
      hts u (List.mem_cons_of_mem t hu)

/-- The ends of blocks are proper, however many are due. -/
theorem proper_dedents {count : Nat} {here : Span} :
    ∀ t ∈ List.replicate count (Token.plain .dedent here), t.Proper := by
  intro t ht
  rw [List.eq_of_mem_replicate ht]
  exact Token.proper_of_kind (by decide)

/-- At the beginning of a line there are only tokens of the layout: one that opens a block, those
that close blocks, or a line break. -/
theorem givesProper_layOut (hl : l.pending = []) (width : UInt64) :
    GivesProper (l.layOut width) := by
  have hdue : ∀ t ∈ l.pending, t.Proper := by simp [hl]
  unfold layOut
  dsimp only
  -- deeper, shallower, between two open blocks, the same width
  split_ifs
  · exact givesProper_give (Token.proper_of_kind (by decide)) hdue
  · exact givesProper_giveDue proper_dedents
  · exact givesProper_fail _ hdue
  · exact givesProper_give (Token.proper_of_kind (by decide)) hdue

/-- On a line there are lexemes (`Linewise.proper_of_meaning?`). -/
theorem givesProper_scan (hl : l.pending = []) : GivesProper l.scan := by
  have hdue : ∀ t ∈ l.pending, t.Proper := by simp [hl]
  unfold scan
  cases hread : Token.Lexeme.read l.signed l.rest with
  | token chars kind value =>
    -- what the lexer reads is a lexeme of the line
    have hm := Linewise.meaning?_of_read
      (show Linewise.ofLexeme (Token.Lexeme.read l.signed l.rest) = some (chars, .ok (kind, value))
        by rw [hread]; rfl)
    exact givesProper_give (Linewise.proper_of_meaning? hm.2 l.here) hdue
  | outOfRange chars => exact ⟨nofun, hdue⟩
  | unexpected =>
    cases hrest : l.rest with
    | nil => exact ⟨nofun, hdue⟩
    | cons c cs => exact givesProper_fail _ hdue

/-- **Every step gives a proper token**, if proper tokens are due, and leaves proper ones due. The
cases are those of the lexer, and each of them is one of the lemmas above. -/
theorem givesProper_next (hl : ∀ t ∈ l.pending, t.Proper) : GivesProper l.next := by
  unfold next
  split
  -- a token is due
  next _ _ u us hp =>
    rw [hp] at hl
    exact givesProper_give (hl u List.mem_cons_self) fun t ht => hl t (List.mem_cons_of_mem u ht)
  -- the lexer has stopped
  next => exact ⟨nofun, hl⟩
  next hp _ =>
    -- before the first line
    split
    · exact givesProper_giveDue proper_dedents
    · exact ⟨nofun, hl⟩
    · dsimp only
      split_ifs
      · exact givesProper_scan hp
      · exact givesProper_fail _ hl
  next hp _ =>
    -- on some line
    split
    · exact givesProper_giveDue proper_dedents
    · split
      · exact givesProper_giveDue proper_dedents
      · exact ⟨nofun, hl⟩
      next width here' rest' _ =>
        exact givesProper_layOut (l := { l with here := here', rest := rest' }) hp width
    · exact givesProper_scan hp

/-- Step after step: what is due stays proper (`givesProper_next`), so all tokens given are. -/
theorem tokensWithin_proper {steps : Nat} {ts : List Token} (hl : ∀ t ∈ l.pending, t.Proper)
    (h : l.tokensWithin steps = .ok ts) : ∀ t ∈ ts, t.Proper := by
  induction steps generalizing l ts with
  | zero =>
    cases h
    simp
  | succ steps ih =>
    have hstep := givesProper_next hl
    unfold tokensWithin at h
    rcases hnext : l.next with ⟨_ | ⟨e | t⟩, l'⟩
    · rw [hnext] at h
      cases h
      simp
    · rw [hnext] at h
      cases h
    · rw [hnext] at h hstep
      -- the tokens are the one given and those of the steps after
      obtain ⟨us, hus, rfl⟩ : ∃ us, l'.tokensWithin steps = .ok us ∧ t :: us = ts := by
        cases hmore : l'.tokensWithin steps with
        | error e =>
          simp only [hmore] at h
          cases h
        | ok us =>
          simp only [hmore] at h
          cases h
          exact ⟨us, rfl, rfl⟩
      exact List.forall_mem_cons.mpr ⟨hstep.1 t rfl, ih hstep.2 hus⟩

end Lexer

/-- **The tokens of a text are proper**, since at the beginning none is due
(`Lexer.tokensWithin_proper`). -/
theorem tokenize_proper {tabWidth : UInt64} {source : String} {ts : List Token}
    (h : tokenize tabWidth source = .ok ts) : ∀ t ∈ ts, t.Proper :=
  Lexer.tokensWithin_proper (by simp [Lexer.ofSource]) h

/-! ### Proper programs -/

mutual

/-- All names are names, all numbers finite, and a conditional has a branch. -/
def Stmt.Proper : Stmt → Prop
  | .assign target _ value _ => IsName target ∧ value.WellFormed
  | .declare name _ _ => IsName name
  | .giveBack none _ => True
  | .giveBack (some value) _ => value.WellFormed
  | .loop condition body _ => condition.WellFormed ∧ Stmt.ProperBlock body
  | .choose bs none _ => bs ≠ [] ∧ Stmt.ProperBranches bs
  | .choose bs (some body) _ => bs ≠ [] ∧ Stmt.ProperBranches bs ∧ Stmt.ProperBlock body
  | .print args _ => ∀ e ∈ args, e.WellFormed
  | .call c => c.WellFormed

def Stmt.ProperBlock : List Stmt → Prop
  | [] => True
  | s :: ss => s.Proper ∧ Stmt.ProperBlock ss

def Stmt.ProperBranches : List Branch → Prop
  | [] => True
  | .mk condition body _ :: bs =>
    (condition.WellFormed ∧ Stmt.ProperBlock body) ∧ Stmt.ProperBranches bs

end

mutual

/-- Whether a statement is proper can be computed, along the same recursion. -/
def Stmt.decideProper : ∀ s : Stmt, Decidable s.Proper
  | .assign _ _ _ _ => inferInstanceAs (Decidable (_ ∧ _))
  | .declare name _ _ => inferInstanceAs (Decidable (IsName name))
  | .giveBack none _ => inferInstanceAs (Decidable True)
  | .giveBack (some value) _ => inferInstanceAs (Decidable value.WellFormed)
  | .loop condition body _ =>
    have := Stmt.decideProperBlock body
    inferInstanceAs (Decidable (condition.WellFormed ∧ Stmt.ProperBlock body))
  | .choose bs none _ =>
    have := Stmt.decideProperBranches bs
    inferInstanceAs (Decidable (bs ≠ [] ∧ Stmt.ProperBranches bs))
  | .choose bs (some body) _ =>
    have := Stmt.decideProperBranches bs
    have := Stmt.decideProperBlock body
    inferInstanceAs (Decidable (bs ≠ [] ∧ Stmt.ProperBranches bs ∧ Stmt.ProperBlock body))
  | .print args _ => inferInstanceAs (Decidable (∀ e ∈ args, e.WellFormed))
  | .call c => inferInstanceAs (Decidable c.WellFormed)

def Stmt.decideProperBlock : ∀ ss : List Stmt, Decidable (Stmt.ProperBlock ss)
  | [] => inferInstanceAs (Decidable True)
  | s :: ss =>
    have := s.decideProper
    have := Stmt.decideProperBlock ss
    inferInstanceAs (Decidable (s.Proper ∧ Stmt.ProperBlock ss))

def Stmt.decideProperBranches : ∀ bs : List Branch, Decidable (Stmt.ProperBranches bs)
  | [] => inferInstanceAs (Decidable True)
  | .mk condition body _ :: bs =>
    have := Stmt.decideProperBlock body
    have := Stmt.decideProperBranches bs
    inferInstanceAs (Decidable ((condition.WellFormed ∧ Stmt.ProperBlock body) ∧
      Stmt.ProperBranches bs))

end

instance : DecidablePred Stmt.Proper := Stmt.decideProper

instance : DecidablePred Stmt.ProperBlock := Stmt.decideProperBlock

/-- The names of a function and of its parameters are names, and its body is proper. -/
structure Function.Proper (f : Function) : Prop where
  name : IsName f.name
  params : ∀ p ∈ f.params, IsName p.name
  body : Stmt.ProperBlock f.body

/-- All functions and statements are proper. -/
structure Program.Proper (p : Program) : Prop where
  functions : ∀ f ∈ p.functions, f.Proper
  body : Stmt.ProperBlock p.body

namespace Grammar

/-- The name at the front of a statement comes from a proper identifier, so it is not missing. -/
theorem Leads.isName {t : Token} {name : String} (ht : t.Proper) (h : Leads t name) :
    IsName name := by
  obtain ⟨s, hs, hname⟩ := ht.identifier h.1
  obtain ⟨-, rfl⟩ := h
  rwa [Parser.name?_eq_some.mpr hs]

/-- A name inside of a statement, likewise. -/
theorem Names.isName {t : Token} {name : String} (ht : t.Proper) (h : Names t name) :
    IsName name := h.leads.isName ht

/-- An operand of a proper token: a name is a name, and a number is finite. -/
theorem Spells.wellFormed {t : Token} {x : Operand} (ht : t.Proper) (h : Spells t x) :
    x.WellFormed := by
  obtain ⟨hk, hv⟩ := h
  rcases x with s | (v | v | v)
  · exact Names.isName ht ⟨hk, hv⟩
  · trivial
  · obtain ⟨x, hx, hfinite⟩ := ht.floatLiteral hk
    rw [hv] at hx
    cases hx
    exact hfinite
  · trivial

/-- What holds of each item that is derived from proper tokens holds of all items of a list. -/
theorem Separated.forall {α : Type} {item : List Token → α → Prop} {P : α → Prop}
    {ts : List Token} {xs : List α} (h : Separated item ts xs) (hts : ∀ t ∈ ts, t.Proper)
    (hitem : ∀ us x, item us x → (∀ t ∈ us, t.Proper) → P x) : ∀ x ∈ xs, P x := by
  induction h with
  | one hx => exact List.forall_mem_singleton.mpr (hitem _ _ hx hts)
  | more hx _ _ ih =>
    rw [List.forall_mem_append, List.forall_mem_cons] at hts
    exact List.forall_mem_cons.mpr ⟨hitem _ _ hx hts.1, ih hts.2.2⟩

/-- The same of a list in parentheses (`Separated.forall`). -/
theorem Listed.forall {α : Type} {item : List Token → α → Prop} {P : α → Prop}
    {ts : List Token} {xs : List α} (h : Listed item ts xs) (hts : ∀ t ∈ ts, t.Proper)
    (hitem : ∀ us x, item us x → (∀ t ∈ us, t.Proper) → P x) : ∀ x ∈ xs, P x := by
  cases h with
  | none => simp
  | some hs _ => exact hs.forall (List.forall_mem_append.mp hts).1 hitem

/-- An argument is one operand. -/
theorem Argument.wellFormed {ts : List Token} {x : Operand} (h : Argument ts x)
    (hts : ∀ t ∈ ts, t.Proper) : x.WellFormed := by
  cases h with
  | mk hx => exact hx.wellFormed (hts _ (by simp))

/-- All operands after the first. -/
theorem Operations.wellFormed {ts : List Token} {rest : List (BinaryOp × Operand)}
    (h : Operations ts rest) (hts : ∀ t ∈ ts, t.Proper) : ∀ pair ∈ rest, pair.2.WellFormed := by
  induction h with
  | nil => simp
  | cons _ hx _ ih =>
    rw [List.forall_mem_cons, List.forall_mem_cons] at hts
    exact List.forall_mem_cons.mpr ⟨hx.wellFormed hts.2.1, ih hts.2.2⟩

/-- An expression of proper tokens, from its operands (`Spells.wellFormed`) or arguments. -/
theorem Expression.wellFormed {ts : List Token} {e : Expr} (h : Expression ts e)
    (hts : ∀ t ∈ ts, t.Proper) : e.WellFormed := by
  cases h with
  | call hn _ hargs =>
    -- every token is proper, and so is each part that is read from one
    rw [List.forall_mem_cons, List.forall_mem_cons] at hts
    exact ⟨hn.isName hts.1, hargs.forall hts.2.2 fun _ _ => Argument.wellFormed⟩
  | plain hx hrest =>
    rw [List.forall_mem_cons] at hts
    exact ⟨hx.wellFormed hts.1, hrest.wellFormed hts.2⟩
  | negated _ hx hrest =>
    rw [List.forall_mem_cons, List.forall_mem_cons] at hts
    exact ⟨hx.wellFormed hts.2.1, hrest.wellFormed hts.2.2⟩

/-- All values of a print statement (`Separated.forall`). -/
theorem Printed.wellFormed {ts : List Token} {es : List Expr} (h : Printed ts es)
    (hts : ∀ t ∈ ts, t.Proper) : ∀ e ∈ es, e.WellFormed := by
  cases h with
  | none => simp
  | some hs _ =>
    exact hs.forall (List.forall_mem_append.mp hts).1 fun _ _ => Expression.wellFormed
  | trailing hs _ _ =>
    exact hs.forall (List.forall_mem_append.mp hts).1 fun _ _ => Expression.wellFormed

/-- A statement of one line: its first name by `Leads.isName`, and the rest by
`Expression.wellFormed`. -/
theorem Simple.proper {ts : List Token} {s : Stmt} (h : Simple Leads ts s)
    (hts : ∀ t ∈ ts, t.Proper) : s.Proper := by
  cases h with
  | declaration hn _ _ => exact hn.isName (hts _ List.mem_cons_self)
  | annotated hn _ _ _ he =>
    -- the name comes first, and the value from the tokens behind it
    exact ⟨hn.isName (hts _ List.mem_cons_self), he.wellFormed fun t ht => hts t (by simp [ht])⟩
  | assignment hn _ he =>
    exact ⟨hn.isName (hts _ List.mem_cons_self), he.wellFormed fun t ht => hts t (by simp [ht])⟩
  | call hn _ hargs =>
    exact ⟨hn.isName (hts _ List.mem_cons_self),
      hargs.forall (fun t ht => hts t (by simp [ht])) fun _ _ => Argument.wellFormed⟩
  | returnNothing _ => trivial
  | returnValue _ he => exact he.wellFormed fun t ht => hts t (by simp [ht])
  | print _ _ he => exact he.wellFormed fun t ht => hts t (by simp [ht])

mutual

/-- **A statement of proper tokens is proper.** By recursion on the derivation, together with its
branches and blocks; the tokens of each part are among those of the whole (`Takes`). -/
theorem Statement.proper {ts rest : List Token} {s : Stmt} (hts : ∀ t ∈ ts, t.Proper) :
    Statement Leads ts s rest → s.Proper
  | .simple hs _ => hs.proper fun t ht => hts t (List.mem_append_left _ ht)
  | .loop _ he _ hb =>
    ⟨he.wellFormed fun t ht => hts t (by simp [ht]), hb.proper fun t ht => hts t (by simp [ht])⟩
  | .choose _ hb ho => by
    have hbs := hb.proper fun t ht => hts t (List.mem_cons_of_mem _ ht)
    have hlast := ho.proper fun t ht => hts t (List.mem_cons_of_mem _ (hb.takes.1.subset ht))
    -- without a last block nothing is asked of it
    cases ho with
    | none => exact hbs
    | some _ _ _ => exact ⟨hbs.1, hbs.2, hlast _ rfl⟩

theorem Branches.proper {span : Span} {ts rest : List Token} {bs : List Branch}
    (hts : ∀ t ∈ ts, t.Proper) :
    Branches Leads span ts bs rest → bs ≠ [] ∧ Stmt.ProperBranches bs
  | .one he _ hb =>
    ⟨by simp, ⟨he.wellFormed fun t ht => hts t (by simp [ht]),
      hb.proper fun t ht => hts t (by simp [ht])⟩, trivial⟩
  | .more he _ hb _ hm =>
    ⟨by simp, ⟨he.wellFormed fun t ht => hts t (by simp [ht]),
      hb.proper fun t ht => hts t (by simp [ht])⟩,
      (hm.proper fun t ht => hts t (List.mem_append_right _ (List.mem_cons_of_mem _
        (hb.takes.1.subset (List.mem_cons_of_mem _ ht))))).2⟩

theorem Otherwise.proper {ts rest : List Token} {last : Option (List Stmt)}
    (hts : ∀ t ∈ ts, t.Proper) :
    Otherwise Leads ts last rest → ∀ body, last = some body → Stmt.ProperBlock body
  | .none => nofun
  | .some _ _ hb => fun _ h => by
    cases h
    exact hb.proper fun t ht => hts t (by simp [ht])

theorem Block.proper {ts rest : List Token} {body : List Stmt} (hts : ∀ t ∈ ts, t.Proper) :
    Block Leads ts body rest → Stmt.ProperBlock body
  | .mk _ h => h.proper fun t ht => hts t (List.mem_cons_of_mem _ ht)

theorem Items.proper {ts rest : List Token} {ss : List Stmt} (hts : ∀ t ∈ ts, t.Proper) :
    Items Leads ts ss rest → Stmt.ProperBlock ss
  | .endOfTokens => trivial
  | .dedent _ => trivial
  | .newline _ h => h.proper fun t ht => hts t (List.mem_cons_of_mem _ ht)
  | .statement hs h => ⟨hs.proper hts, h.proper fun t ht => hts t (hs.takes.1.subset ht)⟩

end

/-- The name of a parameter. -/
theorem Parameter.isName {ts : List Token} {p : Param} (h : Parameter ts p)
    (hts : ∀ t ∈ ts, t.Proper) : IsName p.name := by
  cases h with
  | mk hn _ _ => exact hn.isName (hts _ List.mem_cons_self)

/-- A function, from its head and its block (`Block.proper`). -/
theorem FunctionDef.proper {ts rest : List Token} {f : Function} (h : FunctionDef Leads ts f rest)
    (hts : ∀ t ∈ ts, t.Proper) : f.Proper := by
  cases h with
  | mk _ hn _ hps _ _ _ hb =>
    exact ⟨hn.isName (hts _ (by simp)),
      hps.forall (fun t ht => hts t (by simp [ht])) fun _ _ => Parameter.isName,
      hb.proper fun t ht => hts t (by simp [ht])⟩

/-- A module, part by part (`FunctionDef.proper`, `Statement.proper`). -/
theorem Module.proper {ts : List Token} {is : List Item} (h : Module Leads ts is)
    (hts : ∀ t ∈ ts, t.Proper) : (Item.program is).Proper := by
  induction h with
  | nil => exact ⟨by simp [Item.program, Program.empty], trivial⟩
  | newline _ _ ih => exact ih fun t ht => hts t (List.mem_cons_of_mem _ ht)
  | function hf _ ih =>
    -- what a function leaves is a part of the tokens it was read from
    have hrest := ih fun t ht => hts t (hf.takes.1.subset ht)
    exact ⟨List.forall_mem_cons.mpr ⟨hf.proper hts, hrest.functions⟩, hrest.body⟩
  | statement hs _ ih =>
    have hrest := ih fun t ht => hts t (hs.takes.1.subset ht)
    exact ⟨hrest.functions, hs.proper hts, hrest.body⟩

end Grammar

/-- **What a text is parsed to is proper**: its tokens are (`tokenize_proper`), and it is derived
from them (`Grammar.Module.proper`). -/
theorem Parser.parse_proper {tabWidth : UInt64} {source : String} {ts : List Token}
    {table : SymbolTable} {p : Program} (hts : tokenize tabWidth source = .ok ts)
    (h : parse ts = .ok (table, p)) : p.Proper := by
  obtain ⟨is, his, rfl, -⟩ := parse_eq_ok_iff.mp h
  exact his.proper (tokenize_proper hts)

end Offside
