import Offside.Proofs.Grammar.Complete

/-!
# What is derived and cannot be recorded

A tree that the grammar derives is read if its annotations can be recorded. If they cannot, reading
it fails, and then for this reason only: the error is that a variable is declared with two types.

The readers are followed as before, up to the annotation that is refused. All that is read before it
is read as in a tree that can be recorded (`complete`), so only the part of each rule in which the
refused annotation stands has to be looked at.
-/

namespace Offside

/-- The error is that a variable is declared with two types. -/
def GrammarError.IsConflict (e : GrammarError) : Prop :=
  ∃ previous declared, e.fault = .typeConflict previous declared

namespace SymbolTable

/-- Some of the declarations cannot be recorded. -/
def Refuses (t : SymbolTable) (log : List (String × Symbol)) : Prop :=
  ∃ previous, t.record log = .error previous

theorem not_refuses_nil (t : SymbolTable) : ¬ t.Refuses [] := by
  rintro ⟨previous, h⟩
  cases h

/-- What is refused of two parts is refused of the first, or of the second after the first. -/
theorem refuses_append {t : SymbolTable} {log log' : List (String × Symbol)}
    (h : t.Refuses (log ++ log')) :
    t.Refuses log ∨ ∃ u, t.record log = .ok u ∧ u.Refuses log' := by
  obtain ⟨previous, h⟩ := h
  rw [record_append] at h
  -- the refusal comes in the first part, or the first part is recorded and it comes later
  cases hlog : t.record log with
  | error e => exact .inl ⟨e, hlog⟩
  | ok u =>
    rw [hlog] at h
    exact .inr ⟨u, rfl, previous, h⟩

end SymbolTable

namespace Parser

open Grammar

variable {stop : Span} {α β : Type}

/-- The reader fails because a variable is declared with two types. -/
def Conflicts (x : Attempt α) : Prop := ∃ e, x = .error e ∧ e.IsConflict

theorem Conflicts.bind {x : Attempt α} (h : Conflicts x) (f : α → Attempt β) :
    Conflicts (x >>= f) := by
  obtain ⟨e, rfl, he⟩ := h
  exact ⟨e, rfl, he⟩

/-- Steps that succeed pass on to the next. -/
theorem conflicts_of_ok {x : Attempt α} {f : α → Attempt β} {a : α} (hx : x = .ok a)
    (h : Conflicts (f a)) : Conflicts (x >>= f) := by
  rw [hx]
  exact h

theorem declare_conflicts {scope name : String} {t : Token} {type : ValueType}
    {table : SymbolTable} (h : table.Refuses (inScope scope [⟨name, type, t.span⟩])) :
    Conflicts (declare scope t name type table) := by
  obtain ⟨previous, h⟩ := h
  rw [inScope, List.map_singleton, SymbolTable.record_cons] at h
  unfold declare
  cases hd : table.declare scope ⟨name, type, t.span⟩ with
  | ok u =>
    rw [hd] at h
    cases h
  | error symbol => exact ⟨_, rfl, _, _, rfl⟩

/-- A statement on one line whose annotation is refused. -/
theorem simple_conflicts {ts us : List Token} {s : Stmt} (hs : Simple Leads ts s) {scope : String}
    {table : SymbolTable} (h : table.Refuses (inScope scope s.annotations)) (bound : Nat) :
    Conflicts (statement stop (bound + 1) scope table (ts ++ us)) := by
  cases hs with
  | @declaration n c t name type hn hc ht =>
    obtain ⟨hk, rfl⟩ := hn
    obtain ⟨e, hdecl, he⟩ := declare_conflicts h
    have htype : valueType stop "type annotation" (t :: us) = .ok (type, us) :=
      valueType_eq_ok.mpr ⟨t, rfl, ht⟩
    exact ⟨e, by simp [statement, take, hk, nameStatement, hc, htype, hdecl, bind, Except.bind], he⟩
  | @annotated n c t a ts name type e' hn hc ht ha hts =>
    obtain ⟨hk, rfl⟩ := hn
    obtain ⟨e, hdecl, he⟩ := declare_conflicts h
    have htype : valueType stop "type annotation" (t :: a :: (ts ++ us)) =
      .ok (type, a :: (ts ++ us)) := valueType_eq_ok.mpr ⟨t, rfl, ht⟩
    exact ⟨e, by simp [statement, take, hk, nameStatement, hc, htype, hdecl, bind, Except.bind], he⟩
  -- no other statement declares anything
  | assignment _ _ _ => exact absurd h (table.not_refuses_nil)
  | call _ _ _ => exact absurd h (table.not_refuses_nil)
  | returnNothing _ => exact absurd h (table.not_refuses_nil)
  | returnValue _ _ => exact absurd h (table.not_refuses_nil)
  | print _ _ _ => exact absurd h (table.not_refuses_nil)

/-- What is derived and is refused makes the readers of statements fail, under a bound of four times
the number of tokens. -/
structure Conflicting (stop : Span) (bound : Nat) : Prop where
  statement : ∀ (scope) {table ts s rest}, Statement Leads ts s rest → Unbranched rest →
    table.Refuses (inScope scope s.annotations) → 4 * ts.length ≤ bound →
      Conflicts (statement stop bound scope table ts)
  branches : ∀ (scope) {span table ts bs rest}, Branches Leads span ts bs rest →
    nextIs .elifWord rest = false →
    table.Refuses (inScope scope (Stmt.annotationsOfBranches bs)) → 4 * ts.length ≤ bound →
      Conflicts (branches stop bound scope span table ts)
  otherwise : ∀ (scope) {table ts last rest}, Otherwise Leads ts last rest →
    table.Refuses (inScope scope (Stmt.annotationsOfBlock (last.getD []))) →
    4 * ts.length + 1 ≤ bound → Conflicts (otherwise stop bound scope table ts)
  block : ∀ (scope) {table ts body rest}, Block Leads ts body rest →
    table.Refuses (inScope scope (Stmt.annotationsOfBlock body)) → 4 * ts.length ≤ bound →
      Conflicts (block stop bound scope table ts)
  items : ∀ (scope) {table ts ss rest}, Items Leads ts ss rest →
    table.Refuses (inScope scope (Stmt.annotationsOfBlock ss)) → 4 * ts.length + 1 ≤ bound →
      Conflicts (items stop bound scope table ts)

section Step

variable {bound : Nat} (ih : Conflicting stop bound) (scope : String) {table : SymbolTable}
  {ts rest : List Token}

include ih

theorem statement_conflicts {s : Stmt} (h : Statement Leads ts s rest) (hr : Unbranched rest)
    (href : table.Refuses (inScope scope s.annotations)) (hb : 4 * ts.length ≤ bound + 1) :
    Conflicts (statement stop (bound + 1) scope table ts) := by
  cases h with
  | simple hs _ => exact simple_conflicts hs href bound
  | @loop w c es ts _ e body hw he hc hblock =>
    have hlen : 4 * ts.length ≤ bound := by
      simp only [List.length_cons, List.length_append] at hb
      omega
    unfold statement
    refine conflicts_of_ok (take_eq_ok.mpr rfl) ?_
    simp only [hw]
    refine conflicts_of_ok (condition_append stop he hc ts _) ?_
    exact (ih.block scope hblock href hlen).bind _
  | @choose i ts mid _ bs last hi hbranches hlast =>
    rw [annotations_choose, inScope, List.map_append] at href
    have hmid := nextIs_elifWord_of_otherwise hlast hr
    have hlt := hbranches.takes.2
    rw [List.length_cons] at hb
    unfold statement
    refine conflicts_of_ok (take_eq_ok.mpr rfl) ?_
    simp only [hi]
    -- the branches are refused, or they are read and the last block is refused
    rcases SymbolTable.refuses_append href with href | ⟨table', hrec, href⟩
    · exact (ih.branches scope hbranches hmid href (by omega)).bind _
    · have hread := (complete stop bound).branches scope hbranches hmid hrec (by omega)
      refine conflicts_of_ok hread ?_
      exact (ih.otherwise scope hlast href (by omega)).bind _

theorem branches_conflict {span : Span} {bs : List Branch} (h : Branches Leads span ts bs rest)
    (hr : nextIs .elifWord rest = false)
    (href : table.Refuses (inScope scope (Stmt.annotationsOfBranches bs)))
    (hb : 4 * ts.length ≤ bound + 1) :
    Conflicts (branches stop (bound + 1) scope span table ts) := by
  cases h with
  | @one _ c es ts _ e body he hc hblock =>
    rw [Stmt.annotationsOfBranches, Stmt.annotationsOfBranches, List.append_nil] at href
    have hlen : 4 * ts.length ≤ bound := by
      simp only [List.length_cons, List.length_append] at hb
      omega
    unfold branches
    refine conflicts_of_ok (condition_append stop he hc ts _) ?_
    exact (ih.block scope hblock href hlen).bind _
  | @more _ c i es ts us _ e body bs he hc hblock hi hbranches =>
    rw [Stmt.annotationsOfBranches, inScope, List.map_append] at href
    have hlt := hblock.takes.2
    simp only [List.length_cons, List.length_append] at hb hlt
    unfold branches
    refine conflicts_of_ok (condition_append stop he hc ts _) ?_
    -- this block is refused, or one of the branches behind it
    rcases SymbolTable.refuses_append href with href | ⟨table', hrec, href⟩
    · exact (ih.block scope hblock href (by omega)).bind _
    · refine conflicts_of_ok ((complete stop bound).block scope hblock hrec (by omega)) ?_
      simp only [hi]
      exact (ih.branches scope hbranches hr href (by omega)).bind _

theorem otherwise_conflicts {last : Option (List Stmt)} (h : Otherwise Leads ts last rest)
    (href : table.Refuses (inScope scope (Stmt.annotationsOfBlock (last.getD []))))
    (hb : 4 * ts.length + 1 ≤ bound + 1) :
    Conflicts (otherwise stop (bound + 1) scope table ts) := by
  cases h with
  -- without a last block there is nothing to declare
  | none => exact absurd href table.not_refuses_nil
  | @some w c ts _ body hw hc hblock =>
    simp only [List.length_cons] at hb
    unfold otherwise
    rw [if_pos (by simp [hw])]
    refine conflicts_of_ok (expect_eq_ok.mpr ⟨rfl, hc⟩) ?_
    exact (ih.block scope hblock href (by omega)).bind _

theorem block_conflicts {body : List Stmt} (h : Block Leads ts body rest)
    (href : table.Refuses (inScope scope (Stmt.annotationsOfBlock body)))
    (hb : 4 * ts.length ≤ bound + 1) : Conflicts (block stop (bound + 1) scope table ts) := by
  cases h with
  | mk hi hitems =>
    rw [List.length_cons] at hb
    unfold block
    refine conflicts_of_ok (expect_eq_ok.mpr ⟨rfl, hi⟩) ?_
    exact ih.items scope hitems href (by omega)

theorem items_conflict {ss : List Stmt} (h : Items Leads ts ss rest)
    (href : table.Refuses (inScope scope (Stmt.annotationsOfBlock ss)))
    (hb : 4 * ts.length + 1 ≤ bound + 1) : Conflicts (items stop (bound + 1) scope table ts) := by
  cases h with
  | endOfTokens => exact absurd href table.not_refuses_nil
  | dedent _ => exact absurd href table.not_refuses_nil
  | newline hn hitems =>
    rw [List.length_cons] at hb
    have hconf := ih.items scope hitems href (by omega)
    simpa [items, hn] using hconf
  | @statement _ mid _ s ss hs hitems =>
    rw [Stmt.annotationsOfBlock, inScope, List.map_append] at href
    have hlt := hs.takes.2
    -- the statement is refused, or it is read and what follows is refused
    have hconf : Conflicts (statement stop bound scope table ts >>= fun read =>
        items stop bound scope read.2.1 read.2.2 >>= fun more =>
          .ok (read.1 :: more.1, more.2.1, more.2.2)) := by
      rcases SymbolTable.refuses_append href with href | ⟨table', hrec, href⟩
      · exact (ih.statement scope hs hitems.unbranched href (by omega)).bind _
      · have hread := (complete stop bound).statement scope hs hitems.unbranched hrec (by omega)
        exact conflicts_of_ok hread ((ih.items scope hitems href (by omega)).bind _)
    obtain ⟨t, us, rfl, hk⟩ := hs.first
    unfold items
    split
    · next hd => simp [hd] at hk
    · next hn => simp [hn] at hk
    · exact hconf

end Step

/-- **What is derived and refused makes the readers fail with a conflict.** -/
theorem conflicting (stop : Span) : ∀ bound, Conflicting stop bound
  | 0 => {
      -- without a bound there are no tokens either, and nothing that could be refused
      statement := fun _ => fun h _ _ hb => absurd h.takes.2 (by omega)
      branches := fun _ => fun h _ _ hb => absurd h.takes.2 (by omega)
      otherwise := fun _ => fun _ _ hb => absurd hb (by omega)
      block := fun _ => fun h _ hb => absurd h.takes.2 (by omega)
      items := fun _ => fun _ _ hb => absurd hb (by omega) }
  | bound + 1 => {
      statement := fun scope => statement_conflicts (conflicting stop bound) scope
      branches := fun scope => branches_conflict (conflicting stop bound) scope
      otherwise := fun scope => otherwise_conflicts (conflicting stop bound) scope
      block := fun scope => block_conflicts (conflicting stop bound) scope
      items := fun scope => items_conflict (conflicting stop bound) scope }

/-! ### Modules -/

theorem function_conflicts (stop : Span) {ts rest : List Token} {f : Function}
    {table : SymbolTable} (h : FunctionDef Leads ts f rest)
    (href : table.Refuses (Item.annotations (.function f))) :
    ∃ d us, ts = d :: us ∧ d.kind = .defWord ∧ Conflicts (function stop d.span table us) := by
  cases h with
  | @mk d n l a r c ps ts _ name params type body hd hn hl hps ha hr hc hblock =>
    refine ⟨d, _, rfl, hd, ?_⟩
    have hb := (conflicting stop (budget ts)).block name hblock href (by rw [budget]; omega)
    -- the header declares nothing, so the conflict is in the block
    refine conflicts_of_ok (expectName_eq_ok.mpr ⟨n, rfl, hn, rfl⟩) ?_
    refine conflicts_of_ok (expect_eq_ok.mpr ⟨rfl, hl⟩) ?_
    refine conflicts_of_ok (params_append hps _) ?_
    refine conflicts_of_ok (expect_eq_ok.mpr ⟨rfl, ha⟩) ?_
    refine conflicts_of_ok (returnType_eq_ok.mpr ⟨r, rfl, hr⟩) ?_
    refine conflicts_of_ok (expect_eq_ok.mpr ⟨rfl, hc⟩) ?_
    exact hb.bind _

theorem topLevel_conflicts {ts : List Token} {is : List Item} (h : Module Leads ts is)
    {table : SymbolTable} (href : table.Refuses (is.flatMap Item.annotations)) {bound : Nat}
    (hb : ts.length < bound) : Conflicts (topLevel stop bound table ts) := by
  obtain ⟨bound, rfl⟩ : ∃ n, bound = n + 1 := ⟨bound - 1, by omega⟩
  induction h generalizing table bound with
  | nil => exact absurd href table.not_refuses_nil
  | newline hn _ ih =>
    rw [List.length_cons] at hb
    obtain ⟨bound, rfl⟩ : ∃ n, bound = n + 1 := ⟨bound - 1, by omega⟩
    rw [topLevel]
    simp only [hn]
    exact ih href _ (by omega)
  | function hf _ ih =>
    have hlt := hf.takes.2
    obtain ⟨bound, rfl⟩ : ∃ n, bound = n + 1 := ⟨bound - 1, by omega⟩
    -- refused inside the function, or behind it with the table that it leaves
    rcases SymbolTable.refuses_append href with href | ⟨table', hrec, href⟩
    · obtain ⟨d, us, rfl, hd, hfun⟩ := function_conflicts stop hf href
      rw [topLevel]
      simp only [hd]
      exact hfun.bind _
    · obtain ⟨d, us, rfl, hd, hfun⟩ := function_append stop hf hrec
      rw [topLevel]
      simp only [hd]
      exact conflicts_of_ok hfun ((ih href _ (by omega)).bind _)
  | @statement ts mid s is hs his ih =>
    have hlt := hs.takes.2
    obtain ⟨bound, rfl⟩ : ∃ n, bound = n + 1 := ⟨bound - 1, by omega⟩
    have hbudget : 4 * ts.length ≤ budget ts := by
      rw [budget]
      omega
    have hconf : Conflicts (statement stop (budget ts) SymbolTable.moduleName table ts >>=
        fun read => topLevel stop (bound + 1) read.2.1 read.2.2 >>= fun more =>
          .ok (more.1, { more.2 with body := read.1 :: more.2.body })) := by
      rcases SymbolTable.refuses_append href with href | ⟨table', hrec, href⟩
      · exact ((conflicting stop _).statement _ hs his.unbranched href hbudget).bind _
      · have hread := (complete stop _).statement _ hs his.unbranched hrec hbudget
        exact conflicts_of_ok hread ((ih href _ (by omega)).bind _)
    -- no statement begins with a newline, a definition or a dedent
    obtain ⟨t, us, rfl, hk⟩ := hs.first
    rw [topLevel]
    split
    · next hn => simp [hn] at hk
    · next hd => simp [hd] at hk
    · next hd => simp [hd] at hk
    · exact hconf

/-- **A module that is derived and whose annotations are not consistent** is refused because a
variable is declared with two types. -/
theorem parse_conflicts {ts : List Token} {is : List Item} (h : Module Leads ts is)
    (hc : ¬ Consistent (is.flatMap Item.annotations)) : Conflicts (parse ts) := by
  refine topLevel_conflicts h ?_ (Nat.lt_succ_self _)
  cases hrec : SymbolTable.empty.record (is.flatMap Item.annotations) with
  | error previous => exact ⟨previous, hrec⟩
  | ok u => exact absurd (SymbolTable.record_empty.mp hrec).1 hc

end Parser

end Offside
