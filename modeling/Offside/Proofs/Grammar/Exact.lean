import Offside.Proofs.Grammar.Complete

/-!
# The reader accepts exactly the grammar

`Parser.parse` gives a table and a program exactly if the grammar derives the program from the whole
token sequence and its annotations are consistent, and the table is then the one of these
annotations.

Over all token sequences this holds with `Leads` at the front of statements
(`Parser.parse_eq_ok_iff`). Where identifiers carry a name, as a text's tokens do, `Leads` and the
ordinary `Names` agree on every token (`Grammar.Module.mono`).
-/

namespace Offside.Grammar

variable {lead lead' : Token → String → Prop}

/-! ### Only the tokens at hand matter -/

theorem Simple.mono {ts : List Token} {s : Stmt}
    (hl : ∀ t ∈ ts, ∀ name, lead t name → lead' t name) (h : Simple lead ts s) :
    Simple lead' ts s := by
  cases h with
  | declaration hn hc ht => exact .declaration (hl _ (by simp) _ hn) hc ht
  | annotated hn hc ht ha he => exact .annotated (hl _ (by simp) _ hn) hc ht ha he
  | assignment hn ha he => exact .assignment (hl _ (by simp) _ hn) ha he
  | call hn hlp ha => exact .call (hl _ (by simp) _ hn) hlp ha
  | returnNothing hr => exact .returnNothing hr
  | returnValue hr he => exact .returnValue hr he
  | print hp hlp he => exact .print hp hlp he

mutual

theorem Statement.mono {ts rest : List Token} {s : Stmt}
    (hl : ∀ t ∈ ts, ∀ name, lead t name → lead' t name) :
    Statement lead ts s rest → Statement lead' ts s rest
  | .simple hs he => .simple (hs.mono fun t ht => hl t (List.mem_append_left _ ht)) he
  | .loop hw he hc hb => .loop hw he hc (hb.mono fun t ht => hl t (by simp [ht]))
  | .choose hi hb ho =>
    .choose hi (hb.mono fun t ht => hl t (List.mem_cons_of_mem _ ht))
      (ho.mono fun t ht => hl t (List.mem_cons_of_mem _ (hb.takes.1.subset ht)))

theorem Branches.mono {span : Span} {ts rest : List Token} {bs : List Branch}
    (hl : ∀ t ∈ ts, ∀ name, lead t name → lead' t name) :
    Branches lead span ts bs rest → Branches lead' span ts bs rest
  | .one he hc hb => .one he hc (hb.mono fun t ht => hl t (by simp [ht]))
  | .more he hc hb hi hm =>
    .more he hc (hb.mono fun t ht => hl t (by simp [ht])) hi
      (hm.mono fun t ht => hl t (List.mem_append_right _ (List.mem_cons_of_mem _
        (hb.takes.1.subset (List.mem_cons_of_mem _ ht)))))

theorem Otherwise.mono {ts rest : List Token} {last : Option (List Stmt)}
    (hl : ∀ t ∈ ts, ∀ name, lead t name → lead' t name) :
    Otherwise lead ts last rest → Otherwise lead' ts last rest
  | .none => .none
  | .some hw hc hb => .some hw hc (hb.mono fun t ht => hl t (by simp [ht]))

theorem Block.mono {ts rest : List Token} {body : List Stmt}
    (hl : ∀ t ∈ ts, ∀ name, lead t name → lead' t name) :
    Block lead ts body rest → Block lead' ts body rest
  | .mk hi h => .mk hi (h.mono fun t ht => hl t (List.mem_cons_of_mem _ ht))

theorem Items.mono {ts rest : List Token} {ss : List Stmt}
    (hl : ∀ t ∈ ts, ∀ name, lead t name → lead' t name) :
    Items lead ts ss rest → Items lead' ts ss rest
  | .endOfTokens => .endOfTokens
  | .dedent hd => .dedent hd
  | .newline hn h => .newline hn (h.mono fun t ht => hl t (List.mem_cons_of_mem _ ht))
  | .statement hs h =>
    .statement (hs.mono hl) (h.mono fun t ht => hl t (hs.takes.1.subset ht))

end

/-- Derivations depend on the front of statements through the tokens of the sequence only. -/
theorem Module.mono {ts : List Token} {is : List Item}
    (hl : ∀ t ∈ ts, ∀ name, lead t name → lead' t name) (h : Module lead ts is) :
    Module lead' ts is := by
  induction h with
  | nil => exact .nil
  | newline hn _ ih => exact .newline hn (ih fun t ht => hl t (List.mem_cons_of_mem _ ht))
  | @function ts mid f is hf _ ih =>
    -- what is left after the function is a part of the sequence too
    have hrest := ih fun t ht => hl t (hf.takes.1.subset ht)
    cases hf with
    | mk hd hn hlp hps ha hr hc hb =>
      exact .function (.mk hd hn hlp hps ha hr hc (hb.mono fun t ht => hl t (by simp [ht]))) hrest
  | statement hs _ ih =>
    exact .statement (hs.mono hl) (ih fun t ht => hl t (hs.takes.1.subset ht))

theorem Names.leads {t : Token} {name : String} (h : Names t name) : Leads t name := by
  refine ⟨h.1, ?_⟩
  rw [Parser.name?_eq_some.mpr h.2]
  rfl

theorem Leads.names {t : Token} {name : String} (ht : t.Carries) (h : Leads t name) :
    Names t name := by
  obtain ⟨s, hs⟩ := ht.identifier h.1
  obtain ⟨hk, rfl⟩ := h
  rw [Parser.name?_eq_some.mpr hs]
  exact ⟨hk, hs⟩

end Offside.Grammar

namespace Offside.Parser

open Grammar

/-- **What the reader accepts, over all token sequences.** -/
theorem parse_eq_ok_iff {ts : List Token} {table : SymbolTable} {p : Program} :
    parse ts = .ok (table, p) ↔
      ∃ is, Module Leads ts is ∧ p = Item.program is ∧ Consistent (is.flatMap Item.annotations) ∧
        table = SymbolTable.ofLog (is.flatMap Item.annotations) := by
  constructor
  · intro h
    obtain ⟨is, his, hp, hrec⟩ := topLevel_derives h
    exact ⟨is, his, hp, SymbolTable.record_empty.mp hrec⟩
  · rintro ⟨is, his, rfl, hrec⟩
    -- the parser's own bound is large enough for every derivation
    exact topLevel_complete his (SymbolTable.record_empty.mpr hrec) (Nat.lt_succ_self _)

/-- **The reader accepts exactly its grammar and builds the derived tree.** On tokens that carry
what their kinds say, a table and a program are the result exactly if the grammar derives the parts
of the program from the whole sequence, no two annotations give one variable of one scope two
types, and the table lists these annotations. -/
theorem parse_eq_ok_iff_derives {ts : List Token} (h : ∀ t ∈ ts, t.Carries) {table : SymbolTable}
    {p : Program} :
    parse ts = .ok (table, p) ↔
      ∃ is, Module Names ts is ∧ p = Item.program is ∧ Consistent (is.flatMap Item.annotations) ∧
        table = SymbolTable.ofLog (is.flatMap Item.annotations) := by
  rw [parse_eq_ok_iff]
  -- on tokens that carry their names the two relations for the front of a statement agree
  constructor
  · rintro ⟨is, his, rest⟩
    exact ⟨is, his.mono fun t ht _ hn => hn.names (h t ht), rest⟩
  · rintro ⟨is, his, rest⟩
    exact ⟨is, his.mono fun t _ _ hn => hn.leads, rest⟩

/-- A conditional with two branches: a print statement with a comma at its end, and a declaration
whose block is closed by the end of the tokens. -/
def conditionalTokens : List Token :=
  [.plain .ifWord ⟨1, 1⟩, ⟨.identifier, some (.name "x"), ⟨1, 4⟩⟩, .plain .greater ⟨1, 6⟩,
    ⟨.intLiteral, some (.int 1), ⟨1, 8⟩⟩, .plain .colon ⟨1, 9⟩, .plain .indent ⟨2, 3⟩,
    .plain .printWord ⟨2, 3⟩, .plain .leftParen ⟨2, 8⟩, ⟨.identifier, some (.name "x"), ⟨2, 9⟩⟩,
    .plain .comma ⟨2, 10⟩, .plain .rightParen ⟨2, 11⟩, .plain .dedent ⟨3, 1⟩,
    .plain .elifWord ⟨3, 1⟩, ⟨.identifier, some (.name "y"), ⟨3, 6⟩⟩, .plain .colon ⟨3, 7⟩,
    .plain .indent ⟨4, 3⟩, ⟨.identifier, some (.name "z"), ⟨4, 3⟩⟩, .plain .colon ⟨4, 4⟩,
    .plain .intWord ⟨4, 6⟩]

theorem conditionalTokens_carry : ∀ t ∈ conditionalTokens, t.Carries := by
  intro t ht
  simp only [conditionalTokens, Token.plain, List.mem_cons, List.not_mem_nil, or_false] at ht
  constructor <;> intro hk <;> rcases ht with rfl | rfl | rfl | rfl | rfl | rfl | rfl | rfl | rfl |
    rfl | rfl | rfl | rfl | rfl | rfl | rfl | rfl | rfl | rfl <;> simp_all

theorem parse_conditionalTokens :
    (∀ t ∈ conditionalTokens, t.Carries) ∧
      ∃ is, Module Names conditionalTokens is ∧
        Item.program is = ⟨[], [.choose
          [.mk (.operation ⟨false, .name "x", [(.gt, .literal (.int 1))]⟩)
              [.print [.operation ⟨false, .name "x", []⟩] ⟨2, 3⟩] ⟨1, 1⟩,
            .mk (.operation ⟨false, .name "y", []⟩) [.declare "z" .int ⟨4, 3⟩] ⟨3, 1⟩]
          none ⟨1, 1⟩]⟩ ∧
        SymbolTable.ofLog (is.flatMap Item.annotations) = ⟨[⟨"", [⟨"z", .int, ⟨4, 3⟩⟩]⟩]⟩ := by
  refine ⟨conditionalTokens_carry, ?_⟩
  obtain ⟨is, his, hp, -, ht⟩ := (parse_eq_ok_iff_derives conditionalTokens_carry).mp
    (rfl : parse conditionalTokens = .ok (⟨[⟨"", [⟨"z", .int, ⟨4, 3⟩⟩]⟩]⟩, ⟨[], [.choose
          [.mk (.operation ⟨false, .name "x", [(.gt, .literal (.int 1))]⟩)
              [.print [.operation ⟨false, .name "x", []⟩] ⟨2, 3⟩] ⟨1, 1⟩,
            .mk (.operation ⟨false, .name "y", []⟩) [.declare "z" .int ⟨4, 3⟩] ⟨3, 1⟩]
          none ⟨1, 1⟩]⟩))
  exact ⟨is, his, hp.symm, ht.symm⟩

end Offside.Parser
