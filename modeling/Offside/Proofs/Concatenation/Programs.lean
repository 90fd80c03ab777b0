import Offside.Proofs.Blocks.Agreement
import Offside.Proofs.Concatenation.Lexing
import Offside.Proofs.Grammar.Conflicts
import Offside.Proofs.Placement.Derivations
import Offside.Proofs.Scopes

/-!
# Programs, one after the other

Two programs whose texts are put one after the other are one program: the functions and statements
of the first, and then those of the second, further down. The two share their scopes, and that is
all that can go wrong: a variable of one scope may have one type in the first and another in the
second.

* `Grammar.Module.append` — derivations, one after the other, if the first ends a line;
* `Grammar.Module.joined` — derivations from the tokens of two texts;
* `Source.analyze_append` — programs, one after the other, with any tab width, and
  `Source.parse_append` — the same under settings that are in range.

The grammar lets the end of the tokens end a statement and close a block, and either would go on if
more tokens came. A statement is ended by the token that comes between the two texts, and blocks are
closed by their own tokens, since the tokens of a text are laid out.
-/

namespace Offside

namespace Grammar

/-! ### More tokens at the end -/

mutual

/-- More tokens after a statement change nothing, unless it is ended by the end of the tokens. -/
theorem Statement.append (us : List Token) {ts rest : List Token} {s : Stmt} (hl : Laid ts) :
    Statement Leads ts s rest →
      Statement Leads (ts ++ us) s (rest ++ us) ∨ rest = [] ∧ Simple Leads ts s
  | .simple hs he => by
    rw [List.append_assoc]
    cases he with
    | newline hn => exact .inl (.simple hs (.newline hn))
    | dedent hd => exact .inl (.simple hs (.dedent hd))
    | endOfTokens =>
      rw [List.append_nil]
      -- the end of the tokens ends it, so more tokens may not
      exact .inr ⟨rfl, hs⟩
  | .loop hw he hc hb => by
    have hb' := hb.append us hl.tail.of_append.tail
    rw [List.cons_append, List.append_assoc]
    exact .inl (.loop hw he hc hb')
  | .choose hi hb ho =>
    .inl (.choose hi (hb.append us hl.tail) (ho.append us (hl.tail.suffix hb.takes.1)))

/-- Branches end with a block, which its own token closes. -/
theorem Branches.append (us : List Token) {span : Span} {ts rest : List Token} {bs : List Branch}
    (hl : Laid ts) :
    Branches Leads span ts bs rest → Branches Leads span (ts ++ us) bs (rest ++ us)
  | .one he hc hb => by
    have hb' := hb.append us hl.of_append.tail
    rw [List.append_assoc]
    exact .one he hc hb'
  | .more he hc hb hi hm => by
    have hb' := hb.append us hl.of_append.tail
    -- what is left after a block of laid-out tokens is laid out itself
    have hm' := hm.append us (hl.of_append.tail.suffix hb.takes.1).tail
    rw [List.append_assoc]
    exact .more he hc hb' hi hm'

/-- The last block likewise; where there is none, nothing was taken. -/
theorem Otherwise.append (us : List Token) {ts rest : List Token} {last : Option (List Stmt)}
    (hl : Laid ts) : Otherwise Leads ts last rest → Otherwise Leads (ts ++ us) last (rest ++ us)
  | .none => .none
  | .some hw hc hb => .some hw hc (hb.append us hl.tail.tail)

/-- More tokens after a block change nothing. -/
theorem Block.append (us : List Token) {ts rest : List Token} {body : List Stmt} (hl : Laid ts) :
    Block Leads ts body rest → Block Leads (ts ++ us) body (rest ++ us)
  | .mk hi h => by
    -- the tokens cannot end in the block, since its own token has to close it
    rcases h.append us hl.tail with h | ⟨-, ns, h⟩
    · exact .mk hi h
    · exact absurd h (not_consumes_of_laid hl hi ns)

/-- More tokens after the statements of a block change nothing, unless the tokens end in it.
`Consumes` records that then, for `not_consumes_of_laid` to refute it. -/
theorem Items.append (us : List Token) {ts rest : List Token} {ss : List Stmt} (hl : Laid ts) :
    Items Leads ts ss rest →
      Items Leads (ts ++ us) ss (rest ++ us) ∨ rest = [] ∧ ∃ ns, Consumes ts [] ns
  | .endOfTokens => .inr ⟨rfl, [], .nothing⟩
  | .dedent hd => .inl (.dedent hd)
  | .newline hn h => by
    rcases h.append us hl.tail with h | ⟨hrest, ns, h⟩
    · exact .inl (.newline hn h)
    · exact .inr ⟨hrest, ns, h.flat_cons (flat_of_kind hn (by decide))⟩
  | .statement hs h => by
    have hmid := hl.suffix hs.takes.1
    -- what the statement takes is balanced, so the tokens end in the block only if they do behind
    -- it
    obtain ⟨-, hconsumes⟩ := hs.nested hl
    rcases hs.append us hl with hs | ⟨rfl, hsimple⟩
    · rcases h.append us hmid with h | ⟨hrest, ns, h⟩
      · exact .inl (.statement hs h)
      · exact .inr ⟨hrest, _, hconsumes.trans h⟩
    · exact .inr ⟨List.suffix_nil.mp h.suffix, _, hconsumes⟩

end

/-- A function ends with a block. -/
theorem FunctionDef.append (us : List Token) {ts rest : List Token} {f : Function} (hl : Laid ts)
    (h : FunctionDef Leads ts f rest) : FunctionDef Leads (ts ++ us) f (rest ++ us) := by
  cases h with
  | mk hd hn hlp hps ha hr hc hb =>
    have hb' := hb.append us hl.tail.tail.tail.of_append.tail.tail.tail
    simp only [List.cons_append, List.append_assoc]
    exact .mk hd hn hlp hps ha hr hc hb'

/-! ### Modules, one after the other -/

/-- Nothing is derived from no tokens. -/
theorem Module.eq_nil {is : List Item} (h : Module Leads [] is) : is = [] := by
  cases h with
  | nil => rfl
  | function hf _ => exact absurd hf.takes.2 (Nat.not_lt_zero _)
  | statement hs _ => exact absurd hs.takes.2 (Nat.not_lt_zero _)

/-- A line break before a module is no part of it. -/
theorem Module.of_newline {n : Token} {ts : List Token} {is : List Item} (hn : n.kind = .newline)
    (h : Module Leads (n :: ts) is) : Module Leads ts is := by
  cases h with
  | newline _ h => exact h
  | function hf _ =>
    -- neither a function nor a statement begins with a line break
    cases hf with
    | mk hd =>
      rw [hn] at hd
      cases hd
  | statement hs _ =>
    obtain ⟨t, us, heq, hk⟩ := hs.first
    cases heq
    rw [hn] at hk
    exact absurd hk (by decide)

/-- The first sequence has ended its last statement, or the second begins with a line break. -/
def Detached (ts us : List Token) : Prop :=
  (∃ n rest, us = n :: rest ∧ n.kind = .newline) ∨ ∀ t ∈ ts.getLast?, t.kind = .dedent

/-- What is left of the first sequence is detached as well: its last token is the same. -/
theorem Detached.suffix {ts mid us : List Token} (h : Detached ts us) (hmid : mid <:+ ts) :
    Detached mid us := by
  refine h.imp_right fun h t ht => h t ?_
  obtain ⟨front, rfl⟩ := hmid
  rw [List.getLast?_append, Option.mem_def.mp ht]
  rfl

/-- **Modules, one after the other.** -/
theorem Module.append {ts us : List Token} {is js : List Item} (hl : Laid ts)
    (h : Module Leads ts is) (h' : Module Leads us js) (hdetached : Detached ts us) :
    Module Leads (ts ++ us) (is ++ js) := by
  induction h with
  | nil => exact h'
  | newline hn _ ih => exact .newline hn (ih hl.tail (hdetached.suffix (List.suffix_cons _ _)))
  | function hf _ ih =>
    have hmid := hf.takes.1
    exact .function (hf.append us hl) (ih (hl.suffix hmid) (hdetached.suffix hmid))
  | @statement ts mid s is hs his ih =>
    have hmid := hs.takes.1
    rcases hs.append us hl with hs | ⟨rfl, hsimple⟩
    · exact .statement hs (ih (hl.suffix hmid) (hdetached.suffix hmid))
    · -- the statement has to be ended by the first token of the second sequence
      obtain rfl := his.eq_nil
      rcases hdetached with ⟨n, rest, rfl, hn⟩ | hlast
      · exact .statement (.simple hsimple (.newline hn)) (h'.of_newline hn)
      · -- a statement on one line does not end with a dedent
        have hmem := List.getLast?_eq_some_getLast hsimple.ne_nil
        exact absurd (hlast _ hmem) (Token.flat_of_inline
          (hsimple.inline _ (List.getLast_mem hsimple.ne_nil))).2

/-- **Derivations from the tokens of two texts**, put together. -/
theorem Module.joined {ts us vs : List Token} {is js : List Item} (hl : Laid ts)
    (h : Module Leads ts is) (h' : Module Leads us js) (hvs : Joined ts us vs) :
    Module Leads vs (is ++ js) := by
  cases hvs with
  | second =>
    obtain rfl := h.eq_nil
    exact h'
  | first =>
    obtain rfl := h'.eq_nil
    rwa [List.append_nil]
  | newline => exact h.append hl (.newline rfl h') (.inl ⟨_, _, rfl, rfl⟩)
  | @dedents ts us n here here' =>
    -- the tokens that close the blocks stand elsewhere, which no derivation depends on
    have happend := h.append hl h' (.inr ?_)
    · refine happend.of_layout ?_
      have hdedent : Token.Moved id (.plain .dedent here) (.plain .dedent here') :=
        ⟨rfl, rfl, fun hlayout => absurd hlayout (by simp [Token.plain, Token.Kind.isLayout])⟩
      rw [List.append_assoc]
      exact List.rel_append (Moves.refl ts)
        (List.rel_append (Moves.replicate hdedent _) (Moves.refl us))
    · intro t ht
      rw [List.replicate_succ', ← List.append_assoc, List.getLast?_concat] at ht
      cases ht
      rfl

/-- The annotations of two modules, the second moved. -/
theorem Item.annotations_append_moved (g : Span → Span) (is js : List Item) :
    (is ++ js.map (Item.moved g)).flatMap Item.annotations =
      is.flatMap Item.annotations ++
        (js.flatMap Item.annotations).map fun a => (a.1, a.2.moved g) := by
  rw [List.flatMap_append, List.flatMap_map, List.map_flatMap]
  simp only [Item.annotations_moved]

end Grammar

/-- Tokens moved down differ in nothing but where they stand. -/
theorem moves_down (count : Nat) (ts : List Token) :
    Moves (Span.down count) ts (ts.map (Token.down count)) :=
  List.forall₂_map_right_iff.mpr (List.forall₂_same.mpr fun _ _ => ⟨rfl, rfl, fun _ => rfl⟩)

/-! ### Declarations of two programs -/

/-- No variable of a scope has one type in the first table and another in the second. -/
def SymbolTable.Agrees (t u : SymbolTable) : Prop :=
  ∀ scope, ∀ x ∈ t.symbols scope, ∀ y ∈ u.symbols scope, x.name = y.name → x.type = y.type

/-- Only the scopes of the first table have to be looked at. -/
theorem SymbolTable.agrees_iff {t u : SymbolTable} :
    t.Agrees u ↔ ∀ scope ∈ t.scopes, ∀ x ∈ t.symbols scope.name, ∀ y ∈ u.symbols scope.name,
      x.name = y.name → x.type = y.type := by
  refine ⟨fun h scope _ => h scope.name, fun h name x hx => ?_⟩
  -- a scope that the table does not list has no variables to disagree about
  cases hfound : t.scope? name with
  | none =>
    rw [symbols, hfound] at hx
    cases hx
  | some scope =>
    obtain rfl : scope.name = name := by simpa using List.find?_some hfound
    exact h scope (List.mem_of_find?_eq_some hfound) x hx

instance (t u : SymbolTable) : Decidable (t.Agrees u) :=
  decidable_of_iff _ SymbolTable.agrees_iff.symm

/-- Consistency does not depend on positions, and two lists are consistent together if each is and
their tables agree. -/
theorem consistent_append_moved {log log' : List (String × Symbol)} (h : Consistent log)
    (h' : Consistent log') (g : Span → Span) :
    Consistent (log ++ log'.map fun a => (a.1, a.2.moved g)) ↔
      (SymbolTable.ofLog log).Agrees (SymbolTable.ofLog log') := by
  constructor
  · intro hc scope x hx y hy hname
    refine hc (scope, x) ?_ (scope, y.moved g) ?_ rfl hname
    · exact List.mem_append_left _ (SymbolTable.mem_symbols_ofLog.mp hx)
    · refine List.mem_append_right _ (List.mem_map.mpr ⟨(scope, y), ?_, rfl⟩)
      exact SymbolTable.mem_symbols_ofLog.mp hy
  · intro hagrees
    -- a declaration of the first list and one of the second
    have hmixed : ∀ a ∈ log, ∀ b ∈ log', a.1 = b.1 → a.2.name = b.2.name →
        a.2.type = b.2.type := by
      rintro ⟨scope, x⟩ hx ⟨_, y⟩ hy rfl
      exact hagrees scope x (SymbolTable.mem_symbols_ofLog.mpr hx) y
        (SymbolTable.mem_symbols_ofLog.mpr hy)
    intro a ha b hb hscope hname
    -- four cases, by which of the two lists each declaration is from
    rcases List.mem_append.mp ha with ha | ha <;> rcases List.mem_append.mp hb with hb | hb
    · exact h a ha b hb hscope hname
    · obtain ⟨b₀, hb₀, rfl⟩ := List.mem_map.mp hb
      exact hmixed a ha b₀ hb₀ hscope hname
    · obtain ⟨a₀, ha₀, rfl⟩ := List.mem_map.mp ha
      exact (hmixed b hb a₀ ha₀ hscope.symm hname.symm).symm
    · obtain ⟨a₀, ha₀, rfl⟩ := List.mem_map.mp ha
      obtain ⟨b₀, hb₀, rfl⟩ := List.mem_map.mp hb
      exact h' a₀ ha₀ b₀ hb₀ hscope hname

/-- The scopes of two logs are put together scope by scope. -/
theorem symbols_append_moved (log log' : List (String × Symbol)) (g : Span → Span)
    (scope : String) :
    (SymbolTable.ofLog (log ++ log'.map fun a => (a.1, a.2.moved g))).symbols scope =
      (SymbolTable.ofLog log).symbols scope ++
        ((SymbolTable.ofLog log').symbols scope).map (Symbol.moved g) := by
  simp only [SymbolTable.symbols_ofLog, List.filter_append, List.map_append, List.filter_map,
    List.map_map]
  rfl

namespace Source

open Grammar

/-- **Programs, one after the other, with any tab width.** The tokens of the two texts are put
together (`tokenize_append`), what they derive are the parts of the first program and then those of
the second (`Module.joined`), and only the declarations of the two can be in each other's way
(`consistent_append_moved`). -/
theorem analyze_append {tabWidth : UInt64} {a b : String} {ta tb : SymbolTable} {pa pb : Program}
    (ha : a = "" ∨ ∃ r, a = r ++ "\n") (hpa : analyze tabWidth a = .ok (ta, pa))
    (hpb : analyze tabWidth b = .ok (tb, pb)) :
    (ta.Agrees tb → ∃ t p, analyze tabWidth (a ++ b) = .ok (t, p) ∧
      p.functions =
        pa.functions ++ pb.functions.map (Function.moved (Span.down (a.toList.count '\n'))) ∧
      p.body = pa.body ++ pb.body.map (Stmt.moved (Span.down (a.toList.count '\n'))) ∧
      ∀ scope, t.symbols scope = ta.symbols scope ++
        (tb.symbols scope).map (Symbol.moved (Span.down (a.toList.count '\n')))) ∧
    (¬ ta.Agrees tb →
      ∃ e, analyze tabWidth (a ++ b) = .error (.fault (.grammar e)) ∧ e.IsConflict) := by
  obtain ⟨ts, hts, hpa⟩ := analyze_eq_ok_iff.mp hpa
  obtain ⟨us, hus, hpb⟩ := analyze_eq_ok_iff.mp hpb
  obtain ⟨is, his, rfl, hca, rfl⟩ := Parser.parse_eq_ok_iff.mp hpa
  obtain ⟨js, hjs, rfl, hcb, rfl⟩ := Parser.parse_eq_ok_iff.mp hpb
  -- the tokens of the two texts, and the derivation from them
  obtain ⟨vs, hvs, hjoined⟩ := tokenize_append ha hts hus
  have hmoved := hjs.moved (moves_down (a.toList.count '\n') us)
  have hjoin := his.joined (tokenize_laid hts).1 hmoved hjoined
  have hlog := Item.annotations_append_moved (Span.down (a.toList.count '\n')) is js
  have hconsistent := consistent_append_moved hca hcb (Span.down (a.toList.count '\n'))
  rw [analyze_of_tokens hvs]
  refine ⟨fun hagrees => ?_, fun hagrees => ?_⟩
  · -- the types agree, so the log of both is consistent and the parser takes it
    have hparse := Parser.parse_eq_ok_iff.mpr
      ⟨_, hjoin, rfl, hlog ▸ hconsistent.mpr hagrees, rfl⟩
    rw [hparse, hlog, Item.program_append, Item.program_moved]
    exact ⟨_, _, rfl, rfl, rfl, symbols_append_moved _ _ _⟩
  · -- they do not, and the only fault left is a conflict
    obtain ⟨e, he, hconflict⟩ := Parser.parse_conflicts hjoin
      (hlog ▸ mt hconsistent.mp hagrees)
    rw [he]
    exact ⟨e, rfl, hconflict⟩

/-- **Programs, one after the other.** If a text is empty or ends with a line break, and it and a
second text are programs, then the second put after the first is a program if and only if no
variable of a scope has one type in the first and another in the second. Its functions, its
statements and the variables of each scope are those of the first and then those of the second,
moved down by the lines of the first; and if it is no program, the error is a conflict of types. -/
theorem parse_append {s : Settings} {a b : String} {ta tb : SymbolTable} {pa pb : Program}
    (ha : a = "" ∨ ∃ r, a = r ++ "\n") (hpa : parse s a = .ok (ta, pa))
    (hpb : parse s b = .ok (tb, pb)) :
    (ta.Agrees tb → ∃ t p, parse s (a ++ b) = .ok (t, p) ∧
      p.functions =
        pa.functions ++ pb.functions.map (Function.moved (Span.down (a.toList.count '\n'))) ∧
      p.body = pa.body ++ pb.body.map (Stmt.moved (Span.down (a.toList.count '\n'))) ∧
      ∀ scope, t.symbols scope = ta.symbols scope ++
        (tb.symbols scope).map (Symbol.moved (Span.down (a.toList.count '\n')))) ∧
    (¬ ta.Agrees tb →
      ∃ e, parse s (a ++ b) = .error (.fault (.grammar e)) ∧ e.IsConflict) := by
  obtain ⟨hs, hpa⟩ := parse_eq_ok_iff.mp hpa
  rw [parse_of_validate hs]
  exact analyze_append ha hpa (parse_eq_ok_iff.mp hpb).2

/-- A program with a variable of its own, whose last line stands in a block. -/
def earlierText : String := "x: int\nif x:\n\ty = 1\n"

/-- A program with the same variable, of the same type in the same scope and of another type in the
scope of a function. -/
def laterText : String := "\n# more\ndef f() -> None:\n  x: bool\nx: int = 2"

/-- A program with the same variable, of another type. -/
def contraryText : String := "if 1:\n  x: float\n"

/-- A program is there if its table and the numbers of its functions and statements are. -/
theorem exists_of_sizes {x : Except (Halt Fault) (SymbolTable × Program)} {t : SymbolTable}
    {m n : Nat}
    (h : x.toOption.map (fun r => (r.1, r.2.functions.length, r.2.body.length)) =
      some (t, m, n)) :
    ∃ p, x = .ok (t, p) ∧ p.functions.length = m ∧ p.body.length = n := by
  cases x with
  | error _ => cases h
  | ok r =>
    cases h
    exact ⟨r.2, rfl, rfl, rfl⟩

/-- The two texts with the same type in each scope are one program, and the one with another type is
refused. -/
theorem parse_append_earlierText :
    (∃ t p, parse .standard (earlierText ++ laterText) = .ok (t, p) ∧
      t.symbols "" = [⟨"x", .int, ⟨1, 1⟩⟩, ⟨"x", .int, ⟨8, 1⟩⟩] ∧
      t.symbols "f" = [⟨"x", .bool, ⟨7, 3⟩⟩] ∧
      p.functions.length = 1 ∧ p.body.length = 3) ∧
    ∃ e, parse .standard (earlierText ++ contraryText) =
      .error (.fault (.grammar e)) ∧ e.IsConflict := by
  -- the texts are parsed apart, and everything else follows from the theorem
  have hends : earlierText = "" ∨ ∃ r, earlierText = r ++ "\n" :=
    .inr ⟨"x: int\nif x:\n\ty = 1", by decide⟩
  have hearlier : ∃ p, parse .standard earlierText = .ok (⟨[⟨"", [⟨"x", .int, ⟨1, 1⟩⟩]⟩]⟩, p) ∧
      p.functions.length = 0 ∧ p.body.length = 2 :=
    exists_of_sizes (by decide +kernel)
  have hlater : ∃ p, parse .standard laterText =
      .ok (⟨[⟨"f", [⟨"x", .bool, ⟨4, 3⟩⟩]⟩, ⟨"", [⟨"x", .int, ⟨5, 1⟩⟩]⟩]⟩, p) ∧
      p.functions.length = 1 ∧ p.body.length = 1 :=
    exists_of_sizes (by decide +kernel)
  have hcontrary : ∃ p, parse .standard contraryText =
      .ok (⟨[⟨"", [⟨"x", .float, ⟨2, 3⟩⟩]⟩]⟩, p) ∧ p.functions.length = 0 ∧ p.body.length = 1 :=
    exists_of_sizes (by decide +kernel)
  obtain ⟨pa, hpa, hfa, hba⟩ := hearlier
  obtain ⟨pb, hpb, hfb, hbb⟩ := hlater
  obtain ⟨pc, hpc, -, -⟩ := hcontrary
  refine ⟨?_, (parse_append hends hpa hpc).2 (by decide)⟩
  obtain ⟨t, p, hp, hfunctions, hbody, hsymbols⟩ :=
    (parse_append hends hpa hpb).1 (by decide)
  refine ⟨t, p, hp, (hsymbols "").trans (by decide), (hsymbols "f").trans (by decide), ?_, ?_⟩
  · rw [hfunctions, List.length_append, List.length_map, hfa, hfb]
  · rw [hbody, List.length_append, List.length_map, hba, hbb]

end Source

end Offside
