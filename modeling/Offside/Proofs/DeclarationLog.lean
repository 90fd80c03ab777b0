import Mathlib.Data.List.Find
import Offside.Proofs.Scopes

/-!
# A symbol table and the log of its declarations

Variables are declared one after another in one table, some are refused, and the next call goes on
with the table as it is then. The table is nothing but the log of the calls that were accepted:
whether a call is refused, with which variable, and which scopes there are in which order can all be
told from the log.

A call works in place (`SymbolTable.call`). It makes its scope before it looks for a conflict, so a
call that is refused could leave an empty scope behind. It does not, since there is nothing in a new
scope that could be in the way.

* `SymbolTable.call_eq` — a call does what `SymbolTable.declare` says, and a refused one nothing;
* `SymbolTable.after`, `SymbolTable.accepted` — the table after some calls, and the log of them;
* `SymbolTable.call_refines_log` — calls and tables, told from the log.
-/

namespace Offside.SymbolTable

/-! ### Calls in place -/

/-- The table with a scope, made at the end if there is none of the name. -/
def opened (t : SymbolTable) (scope : String) : SymbolTable :=
  if (t.scope? scope).isSome then t else ⟨t.scopes ++ [⟨scope, []⟩]⟩

/-- **Declare a variable in place**: the variable that stands in the way, if there is one, and the
table after the call. -/
def call (t : SymbolTable) (scope : String) (symbol : Symbol) : Option Symbol × SymbolTable :=
  match (t.opened scope).conflict? scope symbol with
  | some previous => (some previous, t.opened scope)
  | none => (none, ⟨insert scope symbol (t.opened scope).scopes⟩)

theorem scope?_eq_none_iff {t : SymbolTable} {scope : String} :
    t.scope? scope = none ↔ ∀ s ∈ t.scopes, s.name ≠ scope := by
  unfold scope?
  rw [List.find?_eq_none]
  exact forall₂_congr fun s _ => by simp

theorem opened_of_none {t : SymbolTable} {scope : String} (h : t.scope? scope = none) :
    t.opened scope = ⟨t.scopes ++ [⟨scope, []⟩]⟩ := by
  rw [opened, h]
  rfl

theorem opened_of_ne_none {t : SymbolTable} {scope : String} (h : t.scope? scope ≠ none) :
    t.opened scope = t :=
  if_pos (Option.isSome_iff_ne_none.mpr h)

/-- A new scope has no variables, and all others keep theirs. -/
theorem symbols_opened (t : SymbolTable) (scope : String) :
    (t.opened scope).symbols scope = t.symbols scope := by
  cases h : t.scope? scope with
  | some s => rw [opened_of_ne_none (by simp [h])]
  | none =>
    have hold : t.scopes.find? (fun s => s.name == scope) = none := h
    rw [opened_of_none h, symbols, symbols, h, scope?, List.find?_append, hold]
    simp

/-- It makes no difference to an insertion whether its scope is made before it. -/
theorem insert_opened (t : SymbolTable) (scope : String) (symbol : Symbol) :
    insert scope symbol (t.opened scope).scopes = insert scope symbol t.scopes := by
  by_cases h : t.scope? scope = none
  · rw [opened_of_none h]
    rw [scope?_eq_none_iff] at h
    obtain ⟨scopes⟩ := t
    show insert scope symbol (scopes ++ [⟨scope, []⟩]) = insert scope symbol scopes
    -- the empty scope stands last, where a scope that is missing would be put
    induction scopes with
    | nil => simp [insert]
    | cons s scopes ih =>
      obtain ⟨hs, hscopes⟩ := List.forall_mem_cons.mp h
      simp only [List.cons_append, insert, beq_iff_eq, hs, if_false, ih hscopes]
  · rw [opened_of_ne_none h]

/-- **A call does what `declare` says**, and one that is refused leaves the table as it was. -/
theorem call_eq (t : SymbolTable) (scope : String) (symbol : Symbol) :
    t.call scope symbol =
      match t.declare scope symbol with
      | .error previous => (some previous, t)
      | .ok u => (none, u) := by
  have hconflict : (t.opened scope).conflict? scope symbol = t.conflict? scope symbol := by
    rw [conflict?, conflict?, symbols_opened]
  unfold call declare
  rw [hconflict, insert_opened]
  cases h : t.conflict? scope symbol with
  | none => rfl
  | some previous =>
    -- something stands in the way, so the scope was there before
    have hscope : t.scope? scope ≠ none := by
      intro hnone
      rw [conflict?, symbols, hnone] at h
      cases h
    simp only [opened_of_ne_none hscope]

/-! ### Runs of calls -/

/-- The table after some calls on a new one. -/
def after (calls : List (String × Symbol)) : SymbolTable :=
  calls.foldl (fun t c => (t.call c.1 c.2).2) empty

/-- Those of some calls that are accepted, from a table on. -/
def acceptedFrom (t : SymbolTable) : List (String × Symbol) → List (String × Symbol)
  | [] => []
  | c :: calls =>
    match t.call c.1 c.2 with
    | (none, u) => c :: acceptedFrom u calls
    | (some _, u) => acceptedFrom u calls

/-- **The log**: those of some calls on a new table that are accepted. -/
def accepted (calls : List (String × Symbol)) : List (String × Symbol) := acceptedFrom empty calls

/-- What one call does to the table of a consistent log: it adds to the log, or it is refused and
the log stays. -/
theorem call_ofLog {log : List (String × Symbol)} (h : Consistent log) (c : String × Symbol) :
    ((ofLog log).call c.1 c.2 = (none, ofLog (log ++ [c])) ∧ Consistent (log ++ [c])) ∨
      ∃ previous, (ofLog log).call c.1 c.2 = (some previous, ofLog log) := by
  rw [call_eq]
  cases hd : (ofLog log).declare c.1 c.2 with
  | error previous => exact .inr ⟨previous, rfl⟩
  | ok u =>
    -- accepted: nothing of that name in the scope has another type
    obtain ⟨hs, rfl⟩ := declare_eq_ok_iff.mp hd
    rw [← scopes_ofLog_append]
    exact .inl ⟨rfl, (consistent_append_singleton h).mpr hs⟩

/-- **The table after some calls is the table of their log**, and the log is consistent. -/
theorem after_eq_ofLog (calls : List (String × Symbol)) :
    after calls = ofLog (accepted calls) ∧ Consistent (accepted calls) := by
  -- from the table of any consistent log, the run adds to that log what it accepts
  suffices hrun : ∀ log, Consistent log →
      calls.foldl (fun t c => (t.call c.1 c.2).2) (ofLog log) =
          ofLog (log ++ acceptedFrom (ofLog log) calls) ∧
        Consistent (log ++ acceptedFrom (ofLog log) calls) from
    hrun [] fun _ h => absurd h List.not_mem_nil
  induction calls with
  | nil =>
    intro log h
    rw [acceptedFrom, List.append_nil]
    exact ⟨rfl, h⟩
  | cons c calls ih =>
    intro log h
    rw [List.foldl_cons, acceptedFrom]
    rcases call_ofLog h c with ⟨hcall, hc⟩ | ⟨previous, hcall⟩
    · rw [hcall]
      have hmore := ih (log ++ [c]) hc
      rwa [← List.append_cons] at hmore
    · rw [hcall]
      exact ih log h

/-! ### What the log tells -/

/-- **A variable stands in the way** exactly if it was declared in the scope with another type. -/
theorem conflict?_ofLog_ne_none_iff {log : List (String × Symbol)} {scope : String}
    {symbol : Symbol} :
    (ofLog log).conflict? scope symbol ≠ none ↔
      ∃ c ∈ log, c.1 = scope ∧ c.2.name = symbol.name ∧ c.2.type ≠ symbol.type := by
  rw [Ne, conflict?_eq_none_iff]
  push Not
  constructor
  · rintro ⟨s, hs, hname, htype⟩
    exact ⟨(scope, s), mem_symbols_ofLog.mp hs, rfl, hname, htype⟩
  · rintro ⟨⟨_, s⟩, hs, rfl, hname, htype⟩
    exact ⟨s, mem_symbols_ofLog.mpr hs, hname, htype⟩

/-- **What stands in the way is the first declaration of the name in the scope.** The search is for
a variable of another type, but all variables of the name have one type. -/
theorem conflict?_ofLog_eq_first {log : List (String × Symbol)} (h : Consistent log)
    {scope : String} {symbol previous : Symbol}
    (hc : (ofLog log).conflict? scope symbol = some previous) :
    log.find? (fun c => c.1 = scope ∧ c.2.name = symbol.name) = some (scope, previous) := by
  have hmem : (scope, previous) ∈ log :=
    mem_symbols_ofLog.mp (List.mem_of_find?_eq_some hc)
  obtain ⟨hname, htype⟩ : previous.name = symbol.name ∧ previous.type ≠ symbol.type := by
    simpa using List.find?_some hc
  -- the log is consistent, so all calls with this name have the type that conflicts
  have hsearch : log.find? (fun c => c.1 = scope ∧ c.2.name = symbol.name) =
      (log.filter fun c => c.1 = scope).find? fun c =>
        c.2.name == symbol.name && c.2.type != symbol.type := by
    rw [List.find?_filter]
    refine List.find?_congr fun c hlog => ?_
    by_cases hc : c.1 = scope ∧ c.2.name = symbol.name
    · have hsame : c.2.type = previous.type :=
        h c hlog (scope, previous) hmem hc.1 (hc.2.trans hname.symm)
      simp [hc, hsame, htype]
    · by_cases hscope : c.1 = scope
      · have hother : c.2.name ≠ symbol.name := fun hn => hc ⟨hscope, hn⟩
        simp [hscope, hother]
      · simp [hscope]
  -- the table is searched as the log is, with only the calls of the scope left
  rw [conflict?, symbols_ofLog, List.find?_map, Option.map_eq_some_iff] at hc
  obtain ⟨⟨name, s⟩, hfound, rfl⟩ := hc
  obtain rfl : name = scope := by
    simpa using (List.mem_filter.mp (List.mem_of_find?_eq_some hfound)).2
  rw [hsearch]
  exact hfound

/-- The scopes stand in the order of their first declarations. -/
theorem names_ofLog (log : List (String × Symbol)) :
    (ofLog log).scopes.map Scope.name = (log.map Prod.fst).eraseDups := by
  induction log using List.reverseRecOn with
  | nil => rfl
  | append_singleton log a ih =>
    rw [scopes_ofLog_append, names_insert, ih, List.map_append, List.eraseDups_append]
    -- a scope is added at the end if and only if the log has not named it yet
    by_cases h : a.1 ∈ log.map Prod.fst
    · rw [if_pos (List.mem_eraseDups.mpr h)]
      simp [List.removeAll, h]
    · rw [if_neg (mt List.mem_eraseDups.mp h)]
      simp [List.removeAll, h, List.eraseDups_cons]

/-- A tidy table is its scopes, one for each name. -/
theorem Tidy.scopes_eq {t : SymbolTable} (h : t.Tidy) :
    t.scopes = (t.scopes.map Scope.name).map fun name => ⟨name, t.symbols name⟩ := by
  rw [List.map_map]
  conv_lhs => rw [← List.map_id t.scopes]
  refine List.map_congr_left fun scope hscope => ?_
  show scope = ⟨scope.name, t.symbols scope.name⟩
  rw [← (h.mem_scopes_iff.mp hscope).2]

theorem scopes_ofLog (log : List (String × Symbol)) :
    (ofLog log).scopes = (log.map Prod.fst).eraseDups.map fun scope =>
      ⟨scope, (log.filter fun c => c.1 = scope).map Prod.snd⟩ := by
  rw [(tidy_ofLog log).scopes_eq, names_ofLog]
  exact List.map_congr_left fun scope _ => by rw [symbols_ofLog]

/-- **A symbol table refines the log of its declarations.** After any calls on a new table:

* the next call does what `declare` says;
* it is refused exactly if a call of the log had its scope and name and another type;
* the variable it is refused with is the one of the first call of the log with that scope and name;
* a refused call leaves the table as it was;
* the table lists each scope of the log once, in the order of the first calls, with the variables of
  all its calls of the log in order, repeats included;
* the variables of a scope are those of its calls of the log. -/
theorem call_refines_log (calls : List (String × Symbol)) (scope : String) (symbol : Symbol) :
    ((after calls).call scope symbol =
      match (after calls).declare scope symbol with
      | .error previous => (some previous, after calls)
      | .ok u => (none, u)) ∧
    (((after calls).call scope symbol).1 ≠ none ↔
      ∃ c ∈ accepted calls, c.1 = scope ∧ c.2.name = symbol.name ∧ c.2.type ≠ symbol.type) ∧
    (∀ previous, ((after calls).call scope symbol).1 = some previous →
      (accepted calls).find? (fun c => c.1 = scope ∧ c.2.name = symbol.name) =
        some (scope, previous)) ∧
    (((after calls).call scope symbol).1 ≠ none →
      ((after calls).call scope symbol).2 = after calls) ∧
    (after calls).scopes = ((accepted calls).map Prod.fst).eraseDups.map (fun name =>
      ⟨name, ((accepted calls).filter fun c => c.1 = name).map Prod.snd⟩) ∧
    ∀ name, (after calls).symbols name =
      ((accepted calls).filter fun c => c.1 = name).map Prod.snd := by
  obtain ⟨hafter, hconsistent⟩ := after_eq_ofLog calls
  -- what the call answers is the conflict
  have hfirst : ((after calls).call scope symbol).1 = (after calls).conflict? scope symbol := by
    rw [call_eq, declare]
    cases (after calls).conflict? scope symbol <;> rfl
  refine ⟨call_eq _ scope symbol, ?_, fun previous hprevious => ?_, fun hrefused => ?_, ?_,
    fun name => ?_⟩
  · rw [hfirst, hafter]
    exact conflict?_ofLog_ne_none_iff
  · rw [hfirst, hafter] at hprevious
    exact conflict?_ofLog_eq_first hconsistent hprevious
  · rw [call_eq] at hrefused ⊢
    cases hdeclare : (after calls).declare scope symbol with
    | error previous => rfl
    | ok u =>
      rw [hdeclare] at hrefused
      exact absurd rfl hrefused
  · rw [hafter, scopes_ofLog]
  · rw [hafter, symbols_ofLog]

/-- Calls in two scopes, of which the third is refused and the last repeats the first. -/
def mixedCalls : List (String × Symbol) :=
  [("f", ⟨"x", .int, ⟨4, 1⟩⟩), ("", ⟨"x", .bool, ⟨5, 1⟩⟩), ("f", ⟨"x", .bool, ⟨6, 1⟩⟩),
    ("f", ⟨"x", .int, ⟨7, 1⟩⟩)]

/-- One more call is refused with the first of them, and the scopes stand in the order of their
first calls. -/
theorem call_mixedCalls :
    accepted mixedCalls =
        [("f", ⟨"x", .int, ⟨4, 1⟩⟩), ("", ⟨"x", .bool, ⟨5, 1⟩⟩), ("f", ⟨"x", .int, ⟨7, 1⟩⟩)] ∧
      (after mixedCalls).call "f" ⟨"x", .float, ⟨8, 1⟩⟩ =
        (some ⟨"x", .int, ⟨4, 1⟩⟩, after mixedCalls) ∧
      (after mixedCalls).scopes =
        [⟨"f", [⟨"x", .int, ⟨4, 1⟩⟩, ⟨"x", .int, ⟨7, 1⟩⟩]⟩, ⟨"", [⟨"x", .bool, ⟨5, 1⟩⟩]⟩] := by
  have hlog : accepted mixedCalls =
      [("f", ⟨"x", .int, ⟨4, 1⟩⟩), ("", ⟨"x", .bool, ⟨5, 1⟩⟩), ("f", ⟨"x", .int, ⟨7, 1⟩⟩)] := by
    decide
  obtain ⟨-, hrefused, hfirst, hunchanged, hscopes, -⟩ :=
    call_refines_log mixedCalls "f" ⟨"x", .float, ⟨8, 1⟩⟩
  rw [hlog] at hrefused hfirst hscopes
  have hne := hrefused.mpr (by decide)
  obtain ⟨previous, hprevious⟩ := Option.ne_none_iff_exists'.mp hne
  have hfound := hfirst previous hprevious
  refine ⟨hlog, Prod.ext (hprevious.trans ?_) (hunchanged hne), hscopes.trans (by decide)⟩
  cases hfound
  rfl

end Offside.SymbolTable
