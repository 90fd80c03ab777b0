import Offside.Proofs.Grammar.Errors
import Offside.Proofs.Prefix.Viable

/-!
# Where an error of the grammar stands

An error that names a token stands where the token does, and the token is one of the sequence. An
error that names none is reported at the last token of the sequence, which has ended too early
(`Parser.parse_error_site`).

That last token is never the end of a block. The goal that takes the end of a block leaves nothing
in its own place, and what stands below it are the blocks around it and the branches that may
follow them, none of which asks for anything more. This is an invariant of the stack of goals
(`Ordered`): below a goal that a block comes from there are such goals only.
-/

namespace Offside

namespace Expectation

open Offside.Parser

/-! ### Goals below a block -/

/-- The goal is that of a block, or of the branches that may follow one. -/
def Goal.isOuter : Goal → Bool
  | .items _ | .moreBranches _ => true
  | _ => false

/-- The goal is one that a block can come from. -/
def Goal.leads : Goal → Bool
  | .items _ | .moreBranches _ | .statement _ | .function => true
  | _ => false

theorem Goal.isOuter.optional {g : Goal} (h : g.isOuter = true) : g.optional = true := by
  cases g <;> first | rfl | cases h

/-- **Below a goal that a block can come from are only blocks and branches.** -/
def Ordered (gs : List Goal) : Prop :=
  gs.Pairwise fun g below => g.leads = true → below.isOuter = true

variable {table table' : SymbolTable} {t : Token} {g : Goal} {goals gs gs' : List Goal}

/-- Goals that lead to no block are in any order. -/
theorem ordered_of_not_leads (h : ∀ g ∈ goals, g.leads = false) : Ordered goals := by
  refine List.pairwise_of_forall_mem_list fun g hg below _ hleads => ?_
  rw [h g hg] at hleads
  cases hleads

theorem andThen_eq_shift {r : Reaction} {more : List Goal}
    (h : r.andThen more = .shift table' goals) :
    ∃ front, r = .shift table' front ∧ goals = front ++ more := by
  cases r with
  | shift table'' front =>
    cases h
    exact ⟨front, rfl, rfl⟩
  | pass => cases h
  | refuse fault token => cases h

theorem not_leads_of_onExpression (h : onExpression table t = .shift table' goals) :
    ∀ g ∈ goals, g.leads = false := by
  simp only [onExpression, onOperand, unexpected] at h
  (repeat' split at h) <;> cases h <;> simp [Goal.leads]

/-- A goal that leads to no block puts no such goal in its own place. -/
theorem not_leads_of_react (hg : g.leads = false) (h : react table g t = .shift table' goals) :
    ∀ g' ∈ goals, g'.leads = false := by
  cases g with
  | statement _ | items _ | moreBranches _ | function => cases hg
  | expression => exact not_leads_of_onExpression h
  | printed =>
    rw [react, onKind] at h
    split at h
    · cases h
      exact List.forall_mem_nil _
    · obtain ⟨front, hfront, rfl⟩ := andThen_eq_shift h
      exact List.forall_mem_append.mpr
        ⟨not_leads_of_onExpression hfront, List.forall_mem_singleton.mpr rfl⟩
  | returned =>
    rw [react] at h
    split at h
    · cases h
    · exact not_leads_of_onExpression h
  -- what is left are a few short lists, whatever the token is
  | _ =>
    simp only [react, onKind, onOperand, onOperator, onSeparator, onParamName, onNamedType,
      unexpected] at h
    (repeat' split at h) <;> cases h <;> simp [Goal.leads]

theorem ordered_of_onStatement {scope : String}
    (h : onStatement table scope t = .shift table' goals) :
    Ordered (goals ++ [.items scope]) := by
  unfold onStatement at h
  split at h
  case h_6 | h_7 => cases h
  all_goals
    cases h
    simp [Ordered, guarded, Goal.leads, Goal.isOuter]

/-- **What a goal puts in its own place** is in order, also above the goals below it. -/
theorem ordered_of_react (hgs : Ordered (g :: gs)) (h : react table g t = .shift table' goals) :
    Ordered (goals ++ gs) := by
  obtain ⟨hbelow, hgs⟩ := List.pairwise_cons.mp hgs
  cases hg : g.leads with
  | false =>
    -- nothing that leads comes from a goal that does not
    have hgoals := not_leads_of_react hg h
    refine List.pairwise_append.mpr ⟨ordered_of_not_leads hgoals, hgs, fun g' hg' _ _ hleads => ?_⟩
    rw [hgoals g' hg'] at hleads
    cases hleads
  | true =>
    -- everything below is a block or a branch already
    refine List.pairwise_append.mpr ⟨?_, hgs, fun _ _ below hmem _ => hbelow below hmem hg⟩
    cases g with
    | statement scope =>
      exact (List.pairwise_append.mp (ordered_of_onStatement h)).1
    | items scope =>
      rw [react] at h
      split at h
      · cases h
        exact List.Pairwise.nil
      · cases h
        exact List.pairwise_singleton _ _
      · obtain ⟨front, hfront, rfl⟩ := andThen_eq_shift h
        exact ordered_of_onStatement hfront
    | moreBranches scope =>
      rw [react] at h
      split at h <;> cases h <;> simp [guarded, Goal.leads, Goal.isOuter]
    | function =>
      rw [react] at h
      split at h <;> cases h
      simp [Goal.leads, Goal.isOuter]
    | _ => cases hg

/-- **A token keeps the goals in order.** -/
theorem ordered_of_advance (hgs : Ordered gs) (h : advance table gs t = .ok (table', gs')) :
    Ordered gs' := by
  induction gs with
  | nil =>
    rw [advance] at h
    cases hr : onModule table t with
    | pass =>
      rw [hr] at h
      cases h
      exact List.Pairwise.nil
    | refuse fault token =>
      rw [hr] at h
      cases h
    | shift table'' goals =>
      rw [hr] at h
      cases h
      unfold onModule at hr
      split at hr
      · cases hr
        exact List.Pairwise.nil
      · cases hr
        exact List.pairwise_singleton _ _
      · cases hr
      · exact (List.pairwise_append.mp (ordered_of_onStatement hr)).1
  | cons g gs ih =>
    rw [advance] at h
    cases hr : react table g t with
    | pass =>
      rw [hr] at h
      -- a goal that passes is dropped, and those below are still in order
      exact ih (List.pairwise_cons.mp hgs).2 h
    | refuse fault token =>
      rw [hr] at h
      cases h
    | shift table'' goals =>
      rw [hr] at h
      cases h
      exact ordered_of_react hgs hr

theorem ordered_of_steps {ts : List Token} {s s' : SymbolTable × List Goal} (hs : Ordered s.2)
    (h : steps s ts = .ok s') : Ordered s'.2 := by
  induction ts generalizing s with
  | nil =>
    cases h
    exact hs
  | cons t ts ih =>
    rw [steps_cons] at h
    cases ha : advance s.1 s.2 t with
    | error r =>
      rw [ha] at h
      cases h
    | ok s₁ =>
      rw [ha] at h
      -- one step keeps the order, and so does the run
      exact ih (ordered_of_advance hs ha) h

/-! ### Behind the end of a block -/

/-- Only the goal of a block takes the end of one, and it leaves nothing in its own place. -/
theorem react_dedent (ht : t.kind = .dedent) (h : react table g t = .shift table' goals) :
    goals = [] ∧ g.leads = true := by
  -- a dedent is no operand; every other reaction is looked up
  have hoperand : operandOf t = .error (.unexpected t "expected a variable or a literal") := by
    rw [operandOf, ht]
  cases g with
  | items scope =>
    rw [react, ht] at h
    cases h
    exact ⟨rfl, rfl⟩
  | mark m => cases m <;> simp [react, onKind, unexpected, Mark.kind, ht] at h
  | _ =>
    simp [react, onKind, onOperand, onExpression, onOperator, onSeparator, onParamName,
      onNamedType, onStatement, unexpected, Reaction.andThen, BinaryOp.ofKind?,
      ValueType.ofKind?, ReturnType.ofKind?, ht, hoperand] at h

/-- **Behind the end of a block nothing more is asked for.** -/
theorem optional_of_advance (hgs : Ordered gs) (ht : t.kind = .dedent)
    (h : advance table gs t = .ok (table', gs')) : gs'.all Goal.optional = true := by
  induction gs with
  | nil =>
    rw [advance, onModule, ht] at h
    cases h
  | cons g gs ih =>
    obtain ⟨hbelow, hgs⟩ := List.pairwise_cons.mp hgs
    rw [advance] at h
    cases hr : react table g t with
    | pass =>
      rw [hr] at h
      exact ih hgs h
    | refuse fault token =>
      rw [hr] at h
      cases h
    | shift table'' goals =>
      rw [hr] at h
      cases h
      -- only the goal for a block takes it, and below that one everything may end
      obtain ⟨rfl, hg⟩ := react_dedent ht hr
      rw [List.nil_append, List.all_eq_true]
      exact fun below hmem => Goal.isOuter.optional (hbelow below hmem hg)

/-- A sequence whose last token is the end of a block does not end too early. -/
theorem run_of_dedent {ts : List Token} {s : SymbolTable × List Goal} (ht : t.kind = .dedent)
    (h : steps origin (ts ++ [t]) = .ok s) : run s.1 s.2 [] = .ok s.1 := by
  cases hts : steps origin ts with
  | error r =>
    unfold steps at hts h
    rw [List.foldlM_append, hts] at h
    cases h
  | ok s₁ =>
    rw [steps_append_singleton hts] at h
    have hstart : Ordered origin.2 := List.Pairwise.nil
    -- the order holds before the dedent, which is all that is needed
    have hordered := ordered_of_steps hstart hts
    rw [run, if_pos (optional_of_advance hordered ht h)]

end Expectation

namespace Parser

open Expectation

/-! ### Tokens and positions -/

/-- The errors of the module are those of the readers, and the end of a block that is not open. -/
theorem topLevel_reports {stop : Span} {bound : Nat} {table : SymbolTable} {ts : List Token}
    {e : GrammarError} (h : topLevel stop bound table ts = .error e) :
    Reported stop e ∨ ∃ t, e = unexpectedDedent t := by
  induction bound generalizing table ts with
  | zero =>
    cases h
    exact .inl (.ended _)
  | succ bound ih =>
    cases ts with
    | nil => cases h
    | cons t ts =>
      unfold topLevel at h
      split at h
      · exact ih h
      · rcases bind_eq_error.mp h with h | ⟨⟨f, table', us⟩, -, h⟩
        · -- the function fails, or what is behind it
          exact .inl (function_reports _ _ _ _ h)
        · rcases bind_eq_error.mp h with h | ⟨⟨table'', p⟩, -, h⟩
          · exact ih h
          · cases h
      · cases h
        exact .inr ⟨t, rfl⟩
      · rcases bind_eq_error.mp h with h | ⟨⟨s, table', us⟩, -, h⟩
        · exact .inl ((reporting _ _).statement _ _ _ _ h)
        · rcases bind_eq_error.mp h with h | ⟨⟨table'', p⟩, -, h⟩
          · exact ih h
          · cases h

/-- An error that names a token stands where the token does, and one that names none at the end. -/
theorem parse_error_span {ts : List Token} {e : GrammarError} (h : parse ts = .error e) :
    (∃ t, e.token = some t ∧ e.span = t.span ∧ e.fault ≠ .unexpectedEnd) ∨
      e.token = none ∧ e.span = stopOf ts := by
  rcases topLevel_reports h with h | ⟨t, rfl⟩
  · cases h with
    | ended message => exact .inr ⟨rfl, rfl⟩
    | token t _ => exact .inl ⟨t, rfl, rfl, fun h => by cases h⟩
    | conflict t name previous declared => exact .inl ⟨t, rfl, rfl, fun h => by cases h⟩
    | nested t message => exact .inl ⟨t, rfl, rfl, fun h => by cases h⟩
  · exact .inl ⟨t, rfl, rfl, fun h => by cases h⟩

/-- **Where an error stands**: at a token of the sequence, or at the last one if the sequence has
ended too early; and that one is not the end of a block. -/
theorem parse_error_site {ts : List Token} {e : GrammarError} (h : parse ts = .error e) :
    (∃ t ∈ ts, e.token = some t ∧ e.span = t.span) ∨
      ∃ front last, ts = front ++ [last] ∧ e.fault = .unexpectedEnd ∧ e.token = none ∧
        e.span = last.span ∧ last.kind ≠ .dedent := by
  rcases parse_error_cases h with ⟨hend, hviable⟩ | ⟨pre, t, post, rfl, -, -, hblames⟩
  · obtain ⟨-, -, -, hne⟩ | ⟨hnone, hspan⟩ := parse_error_span h
    · exact absurd hend hne
    rcases List.eq_nil_or_concat ts with rfl | ⟨front, last, rfl⟩
    · cases h
    refine .inr ⟨front, last, by simp, hend, hnone, by simpa [stopOf] using hspan, fun hlast => ?_⟩
    -- the run takes all tokens, and after the end of a block it may stop
    cases hsteps : steps origin (front ++ [last]) with
    | error r => exact not_viable_of_error hsteps (by simpa using hviable)
    | ok s =>
      have hrun : run .empty [] (front ++ [last] ++ []) = .ok s.1 := by
        show run origin.1 origin.2 _ = _
        rw [run_append, hsteps]
        exact run_of_dedent hlast hsteps
      rw [List.append_nil, run_parse, ← List.concat_eq_append, h] at hrun
      cases hrun
  · refine .inl ?_
    -- the token that the error names is the one that was refused, or the name before it
    obtain ⟨u, hu, hspan, -⟩ | ⟨hnone, -⟩ := parse_error_span h
    · refine ⟨u, ?_, hu, hspan⟩
      rcases hblames with ⟨-, ht⟩ | ⟨previous, type, name, us, c, -, ht, -, rfl⟩
      · obtain rfl : u = t := Option.some.inj (hu.symm.trans ht)
        simp
      · obtain rfl : u = name := Option.some.inj (hu.symm.trans ht)
        simp
    · rcases hblames with ⟨-, ht⟩ | ⟨previous, type, name, us, c, -, ht, -, rfl⟩
      · cases hnone.symm.trans ht
      · cases hnone.symm.trans ht

end Parser

end Offside
