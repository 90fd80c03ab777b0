import Offside.Scope
import Mathlib.Data.List.Induction

/-!
# Recording declarations

A list of declarations, each with its scope, recorded one after another in a symbol table. The list
is `Consistent` if no two of them give one variable of one scope two types.

* `SymbolTable.ofLog` — the table that holds a list of declarations, whatever they are;
* `SymbolTable.record` — declaring them in order, up to the first conflict;
* `SymbolTable.record_empty` — recording succeeds exactly on consistent lists, and then gives the
  table of the list.
-/

namespace Offside

/-- No two declarations give one variable of one scope two types. -/
def Consistent (log : List (String × Symbol)) : Prop :=
  ∀ a ∈ log, ∀ b ∈ log, a.1 = b.1 → a.2.name = b.2.name → a.2.type = b.2.type

theorem Consistent.of_append {log log' : List (String × Symbol)} (h : Consistent (log ++ log')) :
    Consistent log := fun a ha b hb =>
  h a (List.mem_append_left _ ha) b (List.mem_append_left _ hb)

namespace SymbolTable

/-- The table that holds the given declarations. -/
def ofLog (log : List (String × Symbol)) : SymbolTable :=
  ⟨log.foldl (fun scopes a => insert a.1 a.2 scopes) []⟩

/-- Declare variables in order, up to the first conflict. -/
def record (t : SymbolTable) (log : List (String × Symbol)) : Except Symbol SymbolTable :=
  log.foldlM (fun t a => t.declare a.1 a.2) t

@[simp] theorem record_nil (t : SymbolTable) : t.record [] = .ok t := rfl

theorem record_cons (t : SymbolTable) (a : String × Symbol) (log : List (String × Symbol)) :
    t.record (a :: log) = (t.declare a.1 a.2 >>= fun u => u.record log) := rfl

theorem record_append (t : SymbolTable) (log log' : List (String × Symbol)) :
    t.record (log ++ log') = (t.record log >>= fun u => u.record log') :=
  List.foldlM_append

theorem record_append_ok {t u v : SymbolTable} {log log' : List (String × Symbol)}
    (h : t.record log = .ok u) (h' : u.record log' = .ok v) :
    t.record (log ++ log') = .ok v := by
  rw [record_append, h]
  exact h'

/-- What is recorded in two parts passes through the table of the first part. -/
theorem record_append_ok_iff {t v : SymbolTable} {log log' : List (String × Symbol)} :
    t.record (log ++ log') = .ok v ↔ ∃ u, t.record log = .ok u ∧ u.record log' = .ok v := by
  refine ⟨fun h => ?_, fun ⟨u, h, h'⟩ => record_append_ok h h'⟩
  rw [record_append] at h
  cases hl : t.record log with
  | error e => rw [hl] at h; exact absurd h (by simp [bind, Except.bind])
  | ok u => rw [hl] at h; exact ⟨u, rfl, h⟩

/-! ### The variables of one scope -/

theorem scopes_ofLog_append (log : List (String × Symbol)) (a : String × Symbol) :
    ofLog (log ++ [a]) = ⟨insert a.1 a.2 (ofLog log).scopes⟩ := by
  unfold ofLog
  rw [List.foldl_append, List.foldl_cons, List.foldl_nil]

/-- An insertion adds to the variables of its own scope and leaves those of every other alone. -/
theorem symbols_insert (scope name : String) (symbol : Symbol) (scopes : List Scope) :
    symbols ⟨insert scope symbol scopes⟩ name =
      symbols ⟨scopes⟩ name ++ if scope = name then [symbol] else [] := by
  unfold symbols scope?
  induction scopes with
  | nil =>
    by_cases hn : scope = name
    · subst hn; simp [insert]
    · simp [insert, hn]
  | cons s scopes ih =>
    -- the insertion stops at the first scope of its name, and so does the search
    by_cases hs : s.name = scope
    · subst hs
      by_cases hn : s.name = name
      · subst hn; simp [insert]
      · simp [insert, hn]
    · by_cases hn : s.name = name
      · subst hn
        simp [insert, hs, Ne.symm hs]
      · simp only [insert, beq_iff_eq, hs, if_false]
        rw [List.find?_cons_of_neg (by simpa using hn), List.find?_cons_of_neg (by simpa using hn)]
        exact ih

theorem symbols_ofLog (log : List (String × Symbol)) (scope : String) :
    (ofLog log).symbols scope = (log.filter fun a => a.1 = scope).map Prod.snd := by
  -- the table grows at the end of the list, so the induction takes its last declaration off
  induction log using List.reverseRecOn with
  | nil => rfl
  | append_singleton log a ih =>
    rw [scopes_ofLog_append, symbols_insert, List.filter_append, List.map_append]
    change (ofLog log).symbols scope ++ _ = _
    rw [ih]
    by_cases h : a.1 = scope <;> simp [h]

theorem mem_symbols_ofLog {log : List (String × Symbol)} {scope : String} {s : Symbol} :
    s ∈ (ofLog log).symbols scope ↔ (scope, s) ∈ log := by
  rw [symbols_ofLog, List.mem_map]
  constructor
  · rintro ⟨⟨sc, s'⟩, hm, rfl⟩
    obtain ⟨hlog, hsc⟩ := List.mem_filter.mp hm
    obtain rfl : sc = scope := by simpa using hsc
    exact hlog
  · intro hm
    exact ⟨(scope, s), List.mem_filter.mpr ⟨hm, by simp⟩, rfl⟩

/-! ### Conflicts -/

theorem conflict?_eq_none_iff {t : SymbolTable} {scope : String} {symbol : Symbol} :
    t.conflict? scope symbol = none ↔
      ∀ s ∈ t.symbols scope, s.name = symbol.name → s.type = symbol.type := by
  unfold conflict?
  rw [List.find?_eq_none]
  refine forall₂_congr fun s _ => ?_
  simp

theorem declare_eq_ok_iff {t u : SymbolTable} {scope : String} {symbol : Symbol} :
    t.declare scope symbol = .ok u ↔
      (∀ s ∈ t.symbols scope, s.name = symbol.name → s.type = symbol.type) ∧
        u = ⟨insert scope symbol t.scopes⟩ := by
  unfold declare
  rw [← conflict?_eq_none_iff]
  cases h : t.conflict? scope symbol with
  | none => simp [eq_comm]
  | some previous => simp

/-- One more declaration keeps a consistent list consistent exactly if the table of the list has no
conflict with it. -/
theorem consistent_append_singleton {log : List (String × Symbol)} {a : String × Symbol}
    (h : Consistent log) :
    Consistent (log ++ [a]) ↔
      ∀ s ∈ (ofLog log).symbols a.1, s.name = a.2.name → s.type = a.2.type := by
  constructor
  · intro hc s hs hn
    refine hc (a.1, s) ?_ a (by simp) rfl hn
    exact List.mem_append_left _ (mem_symbols_ofLog.mp hs)
  · intro hs x hx y hy hxy hn
    have fits : ∀ z ∈ log, z.1 = a.1 → z.2.name = a.2.name → z.2.type = a.2.type := by
      rintro ⟨sc, s⟩ hz rfl hzn
      exact hs s (mem_symbols_ofLog.mpr hz) hzn
    -- two declarations of the longer list: each is either old or the new one
    rcases List.mem_append.mp hx with hx' | hx' <;> rcases List.mem_append.mp hy with hy' | hy'
    · exact h x hx' y hy' hxy hn
    · obtain rfl := List.mem_singleton.mp hy'
      exact fits x hx' hxy hn
    · obtain rfl := List.mem_singleton.mp hx'
      exact (fits y hy' hxy.symm hn.symm).symm
    · obtain rfl := List.mem_singleton.mp hx'
      obtain rfl := List.mem_singleton.mp hy'
      rfl

/-- Recording goes on from a consistent list exactly as long as the list stays consistent. -/
theorem record_ofLog {log : List (String × Symbol)} (h : Consistent log)
    (more : List (String × Symbol)) (u : SymbolTable) :
    (ofLog log).record more = .ok u ↔ Consistent (log ++ more) ∧ u = ofLog (log ++ more) := by
  induction more generalizing log with
  | nil => simp [h, eq_comm]
  | cons a more ih =>
    rw [record_cons, List.append_cons]
    cases hd : (ofLog log).declare a.1 a.2 with
    | ok t =>
      obtain ⟨hs, rfl⟩ := declare_eq_ok_iff.mp hd
      rw [← scopes_ofLog_append] at *
      exact ih ((consistent_append_singleton h).mpr hs)
    | error previous =>
      -- a refused declaration breaks consistency, and no later one mends it
      refine ⟨fun hu => absurd hu (by simp [bind, Except.bind]), fun ⟨hc, _⟩ => ?_⟩
      have hs := (consistent_append_singleton h).mp hc.of_append
      rw [declare_eq_ok_iff.mpr ⟨hs, rfl⟩] at hd
      cases hd

/-- **Recording in an empty table** succeeds exactly on consistent lists, and gives their table. -/
theorem record_empty {log : List (String × Symbol)} {u : SymbolTable} :
    empty.record log = .ok u ↔ Consistent log ∧ u = ofLog log :=
  have h : Consistent [] := fun _ h => absurd h (by simp)
  record_ofLog h log u

end SymbolTable

end Offside
