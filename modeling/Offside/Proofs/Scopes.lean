import Offside.Proofs.Proper
import Offside.Source

/-!
# Scopes of a program

The symbol table and the tree of a text are built side by side: a variable is declared when its
annotation is met, long before the statement around it is complete. They agree all the same. Each
scope of the table lists what is annotated in the bodies that go by its name, in order, and there is
such a scope for each of those names and for nothing else. Functions of one name share one scope,
and no function shares that of the module, since the empty text is no name.

* `SymbolTable.Tidy` — a table with one scope to a name and no empty scope, which is what recording
  declarations gives (`SymbolTable.tidy_ofLog`);
* `Program.declared` — the variables that a program declares in a scope, read off its tree;
* `Source.analyze_scopes` — the scopes of a text are the declared ones.
-/

namespace Offside

namespace SymbolTable

/-- There is one scope to a name, and no scope is empty. -/
structure Tidy (t : SymbolTable) : Prop where
  nodup : (t.scopes.map Scope.name).Nodup
  nonempty : ∀ scope ∈ t.scopes, scope.symbols ≠ []

/-- An insertion adds a scope at the end unless there is one of the name. -/
theorem names_insert (name : String) (symbol : Symbol) (scopes : List Scope) :
    (insert name symbol scopes).map Scope.name =
      if name ∈ scopes.map Scope.name then scopes.map Scope.name
      else scopes.map Scope.name ++ [name] := by
  induction scopes with
  | nil => rfl
  | cons s scopes ih =>
    by_cases hs : s.name = name
    · simp [insert, hs]
    · -- the first scope has another name, so the insertion goes on behind it
      have hs' : ¬ name = s.name := fun h => hs h.symm
      simp only [insert, beq_iff_eq, hs, if_false, List.map_cons, ih, List.mem_cons, hs', false_or]
      split_ifs <;> rfl

/-- An insertion leaves no scope empty: the one it touches has the new symbol. -/
theorem nonempty_insert (name : String) (symbol : Symbol) {scopes : List Scope}
    (h : ∀ scope ∈ scopes, scope.symbols ≠ []) :
    ∀ scope ∈ insert name symbol scopes, scope.symbols ≠ [] := by
  induction scopes with
  | nil => simp [insert]
  | cons s scopes ih =>
    obtain ⟨hs, hscopes⟩ := List.forall_mem_cons.mp h
    unfold insert
    -- the scope that is found gets a variable more, the others stay as they are
    split_ifs with hname
    · exact List.forall_mem_cons.mpr ⟨by simp, hscopes⟩
    · exact List.forall_mem_cons.mpr ⟨hs, ih hscopes⟩

/-- **One declaration keeps a table tidy.** -/
theorem tidy_insert {scopes : List Scope} (h : Tidy ⟨scopes⟩) (name : String) (symbol : Symbol) :
    Tidy ⟨insert name symbol scopes⟩ := by
  refine ⟨?_, nonempty_insert name symbol h.nonempty⟩
  show ((insert name symbol scopes).map Scope.name).Nodup
  rw [names_insert]
  split_ifs with hmem
  · exact h.nodup
  · -- a scope is added only under a name that none of the others has
    rw [List.nodup_append]
    refine ⟨h.nodup, by simp, ?_⟩
    rintro a ha b hb rfl
    cases List.mem_singleton.mp hb
    exact hmem ha

/-- The run of `tidy_insert`. Declarations are recorded in order, so the induction is on the list
from its end. -/
theorem tidy_ofLog (log : List (String × Symbol)) : (ofLog log).Tidy := by
  induction log using List.reverseRecOn with
  | nil => exact ⟨List.nodup_nil, nofun⟩
  | append_singleton log a ih =>
    rw [scopes_ofLog_append]
    exact tidy_insert ih a.1 a.2

/-- In a tidy table a scope is told by its name. -/
theorem Tidy.mem_scopes_iff {t : SymbolTable} (h : t.Tidy) {scope : Scope} :
    scope ∈ t.scopes ↔ scope.symbols ≠ [] ∧ scope.symbols = t.symbols scope.name := by
  constructor
  · intro hmem
    -- no scope before it has its name, so it is the one that is found
    have hfound : t.scope? scope.name = some scope := by
      obtain ⟨before, after, hscopes⟩ := List.append_of_mem hmem
      have hbefore : ∀ s ∈ before, ¬ (s.name == scope.name) = true := by
        intro s hs hname
        have hnodup := h.nodup
        rw [hscopes, List.map_append, List.map_cons] at hnodup
        exact (List.nodup_append.mp hnodup).2.2 s.name (List.mem_map_of_mem hs) scope.name
          List.mem_cons_self (beq_iff_eq.mp hname)
      rw [scope?, hscopes, List.find?_append, List.find?_eq_none.mpr hbefore, Option.none_or,
        List.find?_cons_of_pos (by simp)]
    exact ⟨h.nonempty scope hmem, by rw [symbols, hfound]; rfl⟩
  · rintro ⟨hne, hsymbols⟩
    cases hfound : t.scope? scope.name with
    | none =>
      rw [symbols, hfound] at hsymbols
      exact absurd hsymbols hne
    | some s =>
      -- the scope that is found has the same name and the same variables
      rw [symbols, hfound] at hsymbols
      have hname : s.name = scope.name := by simpa using List.find?_some hfound
      have hscope : s = scope := by
        rcases s with ⟨name, symbols⟩
        rcases scope with ⟨name', symbols'⟩
        cases hname
        cases hsymbols
        rfl
      exact hscope ▸ List.mem_of_find?_eq_some hfound

end SymbolTable

/-- **The variables that a program declares in a scope**: those of the module's own statements, or
those of the functions that go by the name of the scope. -/
def Program.declared (p : Program) (scope : String) : List Symbol :=
  if scope = SymbolTable.moduleName then Stmt.annotationsOfBlock p.body
  else (p.functions.filter fun f => f.name = scope).flatMap fun f => Stmt.annotationsOfBlock f.body

mutual

/-- What a proper statement annotates are names. -/
theorem Stmt.isName_annotations {s : Stmt} (hs : s.Proper) :
    ∀ a ∈ s.annotations, IsName a.name := by
  match s, hs with
  | .assign target (some type) value span, hs => exact List.forall_mem_singleton.mpr hs.1
  | .assign target none value span, hs => exact nofun
  | .declare name type span, hs => exact List.forall_mem_singleton.mpr hs
  | .giveBack value span, hs => exact nofun
  | .loop condition body span, hs => exact Stmt.isName_annotationsOfBlock hs.2
  | .choose bs none span, hs => exact Stmt.isName_annotationsOfBranches hs.2
  | .choose bs (some body) span, hs =>
    exact List.forall_mem_append.mpr
      ⟨Stmt.isName_annotationsOfBranches hs.2.1, Stmt.isName_annotationsOfBlock hs.2.2⟩
  | .print args span, hs => exact nofun
  | .call c, hs => exact nofun

/-- The same for a block. -/
theorem Stmt.isName_annotationsOfBlock {ss : List Stmt} (hss : Stmt.ProperBlock ss) :
    ∀ a ∈ Stmt.annotationsOfBlock ss, IsName a.name := by
  match ss, hss with
  | [], _ => exact nofun
  | s :: ss, hss =>
    exact List.forall_mem_append.mpr
      ⟨Stmt.isName_annotations hss.1, Stmt.isName_annotationsOfBlock hss.2⟩

/-- The same for branches. -/
theorem Stmt.isName_annotationsOfBranches {bs : List Branch} (hbs : Stmt.ProperBranches bs) :
    ∀ a ∈ Stmt.annotationsOfBranches bs, IsName a.name := by
  match bs, hbs with
  | [], _ => exact nofun
  | .mk condition body span :: bs, hbs =>
    exact List.forall_mem_append.mpr
      ⟨Stmt.isName_annotationsOfBlock hbs.1.2, Stmt.isName_annotationsOfBranches hbs.2⟩

end

/-- No function has the name of the module's own scope. -/
theorem ne_moduleName_of_isName {s : String} (hs : IsName s) : s ≠ SymbolTable.moduleName := by
  rintro rfl
  exact absurd hs (by decide)

/-- What a proper program declares are names, in every scope. -/
theorem Program.isName_declared {p : Program} (hp : p.Proper) (scope : String) :
    ∀ a ∈ p.declared scope, IsName a.name := by
  unfold Program.declared
  split_ifs
  · exact Stmt.isName_annotationsOfBlock hp.body
  · intro a ha
    obtain ⟨f, hf, ha⟩ := List.mem_flatMap.mp ha
    exact Stmt.isName_annotationsOfBlock (hp.functions f (List.mem_filter.mp hf).1).body a ha

namespace Grammar

/-- The declarations of one name, of which all others have another. -/
theorem filter_map_pair (name scope : String) (symbols : List Symbol) :
    ((symbols.map fun s => (name, s)).filter fun a => a.1 = scope).map Prod.snd =
      if name = scope then symbols else [] := by
  by_cases h : name = scope
  · simp [h, List.filter_map, Function.comp_def]
  · simp [h, List.filter_map, Function.comp_def]

/-- What the parts of a module declare in a scope is what their program declares in it. -/
theorem Item.declared_program {is : List Item}
    (hnames : ∀ f ∈ (Item.program is).functions, f.name ≠ SymbolTable.moduleName) (scope : String) :
    ((is.flatMap Item.annotations).filter fun a => a.1 = scope).map Prod.snd =
      (Item.program is).declared scope := by
  induction is with
  | nil =>
    unfold Program.declared
    split_ifs <;> rfl
  | cons i is ih =>
    rw [List.flatMap_cons, List.filter_append, List.map_append]
    cases i with
    | function f =>
      -- a function declares in the scope of its own name, which is not that of the module
      obtain ⟨hf, hmore⟩ := List.forall_mem_cons.mp hnames
      rw [ih hmore, Item.annotations, filter_map_pair]
      unfold Program.declared
      by_cases hscope : scope = SymbolTable.moduleName
      · rw [if_neg (fun h => hf (h.trans hscope)), if_pos hscope, if_pos hscope]
        rfl
      · rw [if_neg hscope, if_neg hscope]
        by_cases hname : f.name = scope
        · simp [Item.program, hname]
        · simp [Item.program, hname]
    | statement s =>
      -- a statement of the module declares in the module's own scope, before the others
      rw [ih hnames, Item.annotations, filter_map_pair]
      unfold Program.declared
      by_cases hscope : scope = SymbolTable.moduleName
      · rw [if_pos hscope.symm, if_pos hscope, if_pos hscope]
        rfl
      · rw [if_neg (fun h => hscope h.symm), if_neg hscope, if_neg hscope]
        rfl

end Grammar

namespace Source

/-- What is read from a text is what its tokens are parsed to. -/
theorem analyze_eq_ok_iff {tabWidth : UInt64} {text : String} {x : SymbolTable × Program} :
    analyze tabWidth text = .ok x ↔
      ∃ ts, tokenize tabWidth text = .ok ts ∧ Parser.parse ts = .ok x := by
  unfold analyze
  -- without tokens neither side holds; with them both are about the parser
  cases hts : tokenize tabWidth text with
  | error halt =>
    constructor
    · intro h
      cases h
    · rintro ⟨ts, h, -⟩
      cases h
  | ok ts =>
    cases hp : Parser.parse ts with
    | error e => simp [hp, Except.mapError, bind, Except.bind]
    | ok y => simp [hp, Except.mapError, bind, Except.bind]

/-- A text is parsed under settings that are in range, and then as it is under any. -/
theorem parse_eq_ok_iff {s : Settings} {text : String} {x : SymbolTable × Program} :
    parse s text = .ok x ↔ s.validate = .ok () ∧ analyze s.tabWidth text = .ok x := by
  unfold parse
  cases s.validate with
  | error e => simp [Except.mapError, bind, Except.bind]
  | ok _ => simp [Except.mapError, bind, Except.bind]

/-- From the tokens on, the parser decides. -/
theorem analyze_of_tokens {tabWidth : UInt64} {text : String} {ts : List Token}
    (h : tokenize tabWidth text = .ok ts) :
    analyze tabWidth text = (Parser.parse ts).mapError fun e => .fault (.grammar e) := by
  unfold analyze
  rw [h]
  rfl

/-- Settings that are in range leave the text to the tab width. -/
theorem parse_of_validate {s : Settings} (h : s.validate = .ok ()) (text : String) :
    parse s text = analyze s.tabWidth text := by
  unfold parse
  rw [h]
  rfl

section Analyze

variable {tabWidth : UInt64} {text : String} {table : SymbolTable} {p : Program}

/-- What is read from a text is proper (`Parser.parse_proper`). -/
theorem analyze_proper (h : analyze tabWidth text = .ok (table, p)) : p.Proper := by
  obtain ⟨ts, hts, hparse⟩ := analyze_eq_ok_iff.mp h
  exact Parser.parse_proper hts hparse

/-- The variables of each scope are those that the program declares in it. -/
theorem analyze_symbols (h : analyze tabWidth text = .ok (table, p)) (name : String) :
    table.symbols name = p.declared name := by
  have hproper := analyze_proper h
  obtain ⟨ts, -, hparse⟩ := analyze_eq_ok_iff.mp h
  obtain ⟨is, -, rfl, -, rfl⟩ := Parser.parse_eq_ok_iff.mp hparse
  -- no function has the name of the module, so the two kinds of scopes do not mix
  have hnames : ∀ f ∈ (Grammar.Item.program is).functions, f.name ≠ SymbolTable.moduleName :=
    fun f hf => ne_moduleName_of_isName (hproper.functions f hf).name
  rw [SymbolTable.symbols_ofLog, Grammar.Item.declared_program hnames]

/-- The table of a text is recorded from a log, so it is tidy. -/
theorem analyze_tidy (h : analyze tabWidth text = .ok (table, p)) : table.Tidy := by
  obtain ⟨ts, -, hparse⟩ := analyze_eq_ok_iff.mp h
  obtain ⟨is, -, -, -, rfl⟩ := Parser.parse_eq_ok_iff.mp hparse
  exact SymbolTable.tidy_ofLog _

/-- **The symbol table and the tree of a text agree**, whatever the tab width. The variables of each
scope are those that the program declares in it, in order and with repeats (`analyze_symbols`);
there is one scope to a name, and a scope is in the table exactly if it lists what the program
declares under its name and that is not nothing (`analyze_tidy`). -/
theorem analyze_scopes (h : analyze tabWidth text = .ok (table, p)) :
    (∀ name, table.symbols name = p.declared name) ∧ (table.scopes.map Scope.name).Nodup ∧
      ∀ scope : Scope, scope ∈ table.scopes ↔
        scope.symbols ≠ [] ∧ scope.symbols = p.declared scope.name := by
  have htidy := analyze_tidy h
  refine ⟨analyze_symbols h, htidy.nodup, fun scope => ?_⟩
  rw [htidy.mem_scopes_iff, analyze_symbols h]

end Analyze

/-- Annotations at several depths and out of order, a function that is defined twice, and a
parameter and a plain assignment that declare nothing. -/
def scopedText : String := String.join [
  "x: int\n",
  "def f(a: int) -> None:\n",
  "  while a:\n",
  "\ty: float = 1.5\n",
  "  x: bool\n",
  "if x:\n",
  "  z: bool\n",
  "else:\n",
  "  x: int = 2\n",
  "def f() -> None:\n",
  "  b = 3\n",
  "  y: float\n"]

/-- The tab width here is none that the settings allow. -/
theorem analyze_scopedText :
    ∃ table p, analyze 40 scopedText = .ok (table, p) ∧
      p.declared "" = [⟨"x", .int, ⟨1, 1⟩⟩, ⟨"z", .bool, ⟨7, 3⟩⟩, ⟨"x", .int, ⟨9, 3⟩⟩] ∧
      p.declared "f" = [⟨"y", .float, ⟨4, 2⟩⟩, ⟨"x", .bool, ⟨5, 3⟩⟩, ⟨"y", .float, ⟨12, 3⟩⟩] ∧
      (table.scopes.map Scope.name).Nodup ∧
      ∀ scope : Scope, scope ∈ table.scopes ↔
        scope.symbols ≠ [] ∧ scope.symbols = p.declared scope.name := by
  have hscopes : (analyze 40 scopedText).toOption.map (fun parsed => parsed.1.scopes) = some
      [⟨"", [⟨"x", .int, ⟨1, 1⟩⟩, ⟨"z", .bool, ⟨7, 3⟩⟩, ⟨"x", .int, ⟨9, 3⟩⟩]⟩,
        ⟨"f", [⟨"y", .float, ⟨4, 2⟩⟩, ⟨"x", .bool, ⟨5, 3⟩⟩, ⟨"y", .float, ⟨12, 3⟩⟩]⟩] := by
    decide +kernel
  cases hp : analyze 40 scopedText with
  | error halt =>
    rw [hp] at hscopes
    cases hscopes
  | ok parsed =>
    obtain ⟨⟨scopes⟩, p⟩ := parsed
    rw [hp] at hscopes
    cases hscopes
    -- only the table is evaluated: what the program declares follows from it
    obtain ⟨hsymbols, hnodup, hscope⟩ := analyze_scopes hp
    exact ⟨_, p, rfl, (hsymbols "").symm, (hsymbols "f").symm, hnodup, hscope⟩

/-- The table of a compiled text, and its program. -/
theorem compile_eq_ok {s : Settings} {text out : String} (h : compile s text = .ok out) :
    ∃ table p, parse s text = .ok (table, p) ∧ out = Cpp.emit s.indentWidth.toNat table p := by
  unfold compile at h
  cases hp : parse s text with
  | error fault =>
    rw [hp] at h
    cases h
  | ok parsed =>
    rw [hp] at h
    cases h
    exact ⟨parsed.1, parsed.2, rfl, rfl⟩

end Source

end Offside
