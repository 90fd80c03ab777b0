import Offside.Proofs.Cpp.Distinct

/-!
# What emitted code says about the program

Emitted code does not show where anything stood in the source, which assignments had an annotation
and where a variable was declared. It shows everything else: two programs have the same code exactly
if they are the same without these (`Program.bare`) and the scopes of their functions declare the
same variables.

One direction is about the emitter alone (`emit_of_bare`). For the other the code is read back in
three steps. The lines that begin a function are the only ones that are no statements, so a text
falls into one section for each function (`sections_emit`). A section begins with declarations, and
what comes behind them is none (`scopeSection_inj`). The lines of a block are read as statements of
C++, which say what block it was (`bare_of_ofBlock`). Indentation is not used for any of this, and
so the width does not matter.
-/

namespace Offside

/-! ### Names -/

mutual

/-- The names in a statement. -/
def Stmt.names : Stmt → List String
  | .assign target _ value _ => target :: value.names
  | .declare name _ _ => [name]
  | .giveBack none _ => []
  | .giveBack (some value) _ => value.names
  | .loop condition body _ => condition.names ++ Stmt.namesOfBlock body
  | .choose bs none _ => Stmt.namesOfBranches bs
  | .choose bs (some body) _ => Stmt.namesOfBranches bs ++ Stmt.namesOfBlock body
  | .print args _ => args.flatMap Expr.names
  | .call c => c.names

def Stmt.namesOfBlock : List Stmt → List String
  | [] => []
  | s :: ss => s.names ++ Stmt.namesOfBlock ss

def Stmt.namesOfBranches : List Branch → List String
  | [] => []
  | .mk condition body _ :: bs =>
    condition.names ++ Stmt.namesOfBlock body ++ Stmt.namesOfBranches bs

end

/-- The names in a function: its own, those of its parameters, and those of its body. -/
def Function.names (f : Function) : List String :=
  f.name :: f.params.map Param.name ++ Stmt.namesOfBlock f.body

/-- The names in a program. -/
def Program.names (p : Program) : List String :=
  p.functions.flatMap Function.names ++ Stmt.namesOfBlock p.body

/-! ### Bare programs -/

mutual

/-- A statement without its positions and its annotation. Of a declaration nothing is left. -/
def Stmt.bare : Stmt → List Stmt
  | .assign target _ value _ => [.assign target none value.unplaced .start]
  | .declare _ _ _ => []
  | .giveBack value _ => [.giveBack (value.map Expr.unplaced) .start]
  | .loop condition body _ => [.loop condition.unplaced (Stmt.bareBlock body) .start]
  | .choose bs none _ => [.choose (Stmt.bareBranches bs) none .start]
  | .choose bs (some body) _ => [.choose (Stmt.bareBranches bs) (some (Stmt.bareBlock body)) .start]
  | .print args _ => [.print (args.map Expr.unplaced) .start]
  | .call c => [.call c.unplaced]

def Stmt.bareBlock : List Stmt → List Stmt
  | [] => []
  | s :: ss => s.bare ++ Stmt.bareBlock ss

def Stmt.bareBranches : List Branch → List Branch
  | [] => []
  | .mk condition body _ :: bs =>
    .mk condition.unplaced (Stmt.bareBlock body) .start :: Stmt.bareBranches bs

end

/-- A function without its position, and with nothing but the bare statements in it. -/
def Function.bare (f : Function) : Function :=
  { f with body := Stmt.bareBlock f.body, span := .start }

/-- **A program without its positions, its annotations and its declarations.** -/
def Program.bare (p : Program) : Program :=
  ⟨p.functions.map Function.bare, Stmt.bareBlock p.body⟩

/-- The types and names that a scope declares, in order. -/
def SymbolTable.declared (table : SymbolTable) (scope : String) : List (ValueType × String) :=
  (table.symbols scope).map fun s => (s.type, s.name)

namespace Cpp

open Token Linewise

/-! ### The code of a bare program -/

/-- The text of an expression does not depend on its position. -/
theorem expression_unplaced (e : Expr) : expression e.unplaced = expression e := by
  cases e <;> rfl

/-- Nor does that of a print statement. -/
theorem printText_unplaced (args : List Expr) :
    printText (args.map Expr.unplaced) = printText args := by
  rw [printText, printText, List.map_map]
  simp only [Function.comp_def, expression_unplaced]

/-- The lines of two blocks, one after the other. -/
theorem block_append (depth : Nat) (ss ss' : List Stmt) :
    block depth (ss ++ ss') = block depth ss ++ block depth ss' := by
  induction ss with
  | nil => rfl
  | cons s ss ih => rw [List.cons_append, block, block, ih, List.append_assoc]

/-- A block of one statement has its lines. -/
theorem block_singleton (depth : Nat) (s : Stmt) : block depth [s] = statement depth s := by
  rw [block, block, List.append_nil]

mutual

/-- What is left of a statement has the same lines, at every depth. A declaration has no lines, and
nothing is left of it. -/
theorem statement_bare (depth : Nat) : ∀ s : Stmt, block depth s.bare = statement depth s
  | .assign _ _ value _ => by
    -- a statement without what the code does not show is emitted alike: only a declaration goes
    -- away
    rw [Stmt.bare, block_singleton, statement, statement, expression_unplaced]
  | .declare _ _ _ => rfl
  | .giveBack none _ => rfl
  | .giveBack (some value) _ => by
    rw [Stmt.bare, block_singleton, Option.map_some, statement, statement, expression_unplaced]
  | .loop condition body _ => by
    rw [Stmt.bare, block_singleton, statement, statement, expression_unplaced,
      block_bare (depth + 1) body]
  | .choose bs none _ => by
    rw [Stmt.bare, block_singleton, statement, statement, branches_bare depth "if" bs]
  | .choose bs (some body) _ => by
    rw [Stmt.bare, block_singleton, statement, statement, branches_bare depth "if" bs,
      block_bare (depth + 1) body]
  | .print args _ => by
    rw [Stmt.bare, block_singleton, statement, statement, printText_unplaced]
  | .call _ => rfl

theorem block_bare (depth : Nat) : ∀ ss : List Stmt,
    block depth (Stmt.bareBlock ss) = block depth ss
  | [] => rfl
  | s :: ss => by
    rw [Stmt.bareBlock, block_append, block, statement_bare depth s, block_bare depth ss]

theorem branches_bare (depth : Nat) (word : String) : ∀ bs : List Branch,
    branches depth word (Stmt.bareBranches bs) = branches depth word bs
  | [] => rfl
  | .mk condition body _ :: bs => by
    rw [Stmt.bareBranches, branches, branches, expression_unplaced, block_bare (depth + 1) body,
      branches_bare depth "else if" bs]

end

/-- The lines of some declarations. -/
def declaring (declared : List (ValueType × String)) : List Line :=
  declared.map fun d => ⟨1, d.1.text ++ " " ++ d.2 ++ ";"⟩

/-- The declarations of a function are written from the types and names of its scope alone. -/
theorem declarations_eq (table : SymbolTable) (scope : String) :
    declarations table scope = declaring (table.declared scope) := by
  rw [declarations, declaring, SymbolTable.declared, List.map_map]
  rfl

/-- The lines of a function that declares the given variables. -/
def defining (f : Function) (declared : List (ValueType × String)) : List Line :=
  ⟨0, header f⟩ :: braced 0 (declaring declared ++ block 1 f.body)

/-- A function is written from its bare form and from what its scope declares (`block_bare`,
`declarations_eq`). -/
theorem function_eq (table : SymbolTable) (f : Function) :
    function table f = defining f.bare (table.declared f.name) := by
  rw [function, defining, declarations_eq, Function.bare, block_bare]
  rfl

/-- **The code of a program** depends on what is left of it and on what its scopes declare. -/
theorem emit_of_bare {table table' : SymbolTable} {p p' : Program} (indentWidth : Nat)
    (hbare : p.bare = p'.bare)
    (hmodule : table.declared SymbolTable.moduleName = table'.declared SymbolTable.moduleName)
    (hfunctions : (p.functions.map fun f => table.declared f.name) =
      p'.functions.map fun f => table'.declared f.name) :
    emit indentWidth table p = emit indentWidth table' p' := by
  obtain ⟨hnames, hbody⟩ := Program.mk.inj hbare
  -- each function is written from its bare form and from what its scope declares
  have hall : ∀ (table : SymbolTable) (fs : List Function), fs.flatMap (function table) =
      ((fs.map Function.bare).zip (fs.map fun f => table.declared f.name)).flatMap
        fun pair => defining pair.1 pair.2 := by
    intro table fs
    rw [List.zip_map', List.flatMap_map]
    exact congrArg fs.flatMap (funext (function_eq table))
  have hmain : mainFunction table p.body = mainFunction table' p'.body := by
    rw [mainFunction, mainFunction, declarations_eq, declarations_eq, hmodule, ← block_bare,
      ← block_bare 1 p'.body, hbody]
  rw [emit, emit, lines, lines, hall, hall, hnames, hfunctions, hmain]

/-! ### What a block stands for -/

/-- A statement with names that are names and no truth values, with finite numbers, and with no
conditional without a branch. -/
structure Fit (s : Stmt) : Prop where
  proper : s.Proper
  plain : Plain s.names

/-- A block of such statements. -/
structure FitBlock (ss : List Stmt) : Prop where
  proper : Stmt.ProperBlock ss
  plain : Plain (Stmt.namesOfBlock ss)

/-- Branches with such conditions and blocks. -/
structure FitBranches (bs : List Branch) : Prop where
  proper : Stmt.ProperBranches bs
  plain : Plain (Stmt.namesOfBranches bs)

/-- The first statement of a block and the others. -/
theorem FitBlock.cons {s : Stmt} {ss : List Stmt} (h : FitBlock (s :: ss)) : Fit s ∧ FitBlock ss :=
  have hplain := plain_append.mp h.plain
  ⟨⟨h.proper.1, hplain.1⟩, ⟨h.proper.2, hplain.2⟩⟩

/-- The first branch and the others. -/
theorem FitBranches.cons {condition : Expr} {body : List Stmt} {span : Span} {bs : List Branch}
    (h : FitBranches (.mk condition body span :: bs)) :
    condition.WellFormed ∧ Plain condition.names ∧ FitBlock body ∧ FitBranches bs :=
  have hplain := plain_append.mp h.plain
  have hfirst := plain_append.mp hplain.1
  ⟨h.proper.1.1, hfirst.1, ⟨h.proper.1.2, hfirst.2⟩, ⟨h.proper.2, hplain.2⟩⟩

/-- A conditional with or without a last block stands for one statement. -/
theorem ofStmt_choose (bs : List Branch) (otherwise : Option (List Stmt)) (span : Span) :
    Code.ofStmt (.choose bs otherwise span) =
      [(Code.ofBranches ((otherwise.map Code.ofBlock).map .compound) bs).getD .skip] := by
  cases otherwise <;> rfl

/-- A conditional stands for a conditional. -/
theorem branch_of_ofStmt {bs : List Branch} {otherwise : Option (List Stmt)} {span : Span}
    (h : Fit (.choose bs otherwise span)) {c : Code}
    (hc : Code.ofStmt (.choose bs otherwise span) = [c]) :
    ∃ condition yes no, c = .branch condition yes no := by
  have hne : bs ≠ [] := by
    cases otherwise with
    | none => exact h.proper.1
    | some body => exact h.proper.1
  obtain ⟨⟨condition, body, span'⟩, bs, rfl⟩ := List.exists_cons_of_ne_nil hne
  rw [ofStmt_choose] at hc
  exact ⟨_, _, _, (List.cons.inj hc).1.symm⟩

/-- The branches of a conditional, whether or not it has a last block. -/
theorem Fit.branches {bs : List Branch} {otherwise : Option (List Stmt)} {span : Span}
    (h : Fit (.choose bs otherwise span)) : FitBranches bs := by
  cases otherwise with
  | none => exact ⟨h.proper.2, h.plain⟩
  | some body => exact ⟨h.proper.2.1, (plain_append.mp h.plain).1⟩

/-- The last block of a conditional. -/
theorem Fit.otherwise {bs : List Branch} {body : List Stmt} {span : Span}
    (h : Fit (.choose bs (some body) span)) : FitBlock body :=
  ⟨h.proper.2.2, (plain_append.mp h.plain).2⟩

/-- Only a declaration stands for nothing, and any other statement for one. -/
theorem ofStmt_cases (s : Stmt) :
    s.bare = [] ∧ Code.ofStmt s = [] ∨ ∃ c, Code.ofStmt s = [c] := by
  cases s with
  | declare name type span => exact .inl ⟨rfl, rfl⟩
  | choose bs otherwise span => exact .inr ⟨_, ofStmt_choose bs otherwise span⟩
  | _ => exact .inr ⟨_, rfl⟩

/-- The first statement that stands for anything. -/
theorem exists_first {ss : List Stmt} (hss : FitBlock ss) {c : Code} {cs : List Code}
    (h : Code.ofBlock ss = c :: cs) : ∃ s rest, Fit s ∧ FitBlock rest ∧ Code.ofStmt s = [c] ∧
      Code.ofBlock rest = cs ∧ Stmt.bareBlock ss = s.bare ++ Stmt.bareBlock rest := by
  induction ss with
  | nil => cases h
  | cons s ss ih =>
    obtain ⟨hs, hrest⟩ := hss.cons
    rw [Code.ofBlock] at h
    -- a declaration is passed over, and any other statement is the one
    obtain ⟨hbare, hnone⟩ | ⟨d, hone⟩ := ofStmt_cases s
    · rw [hnone, List.nil_append] at h
      rw [Stmt.bareBlock, hbare, List.nil_append]
      exact ih hrest h
    · rw [hone] at h
      obtain ⟨rfl, rfl⟩ := List.cons.inj h
      exact ⟨s, ss, hs, hrest, hone, rfl, rfl⟩

/-- A block that stands for nothing consists of declarations (`ofStmt_cases`). -/
theorem bareBlock_of_nil {ss : List Stmt} (h : Code.ofBlock ss = []) : Stmt.bareBlock ss = [] := by
  induction ss with
  | nil => rfl
  | cons s ss ih =>
    obtain ⟨hs, hss⟩ := List.append_eq_nil_iff.mp h
    obtain ⟨hbare, -⟩ | ⟨c, hone⟩ := ofStmt_cases s
    · rw [Stmt.bareBlock, hbare, ih hss]
      rfl
    · rw [hone] at hs
      cases hs

/-- What is in the `else` of a conditional shows whether there is one. -/
theorem ofBranches_ne_skip (last : Option (List Code)) (bs : List Branch) :
    Code.ofBranches (last.map .compound) bs ≠ some .skip := by
  cases bs with
  | nil => cases last <;> nofun
  | cons b bs =>
    cases b
    nofun

/-- If neither is the empty statement, it shows whether something is there. -/
theorem getD_inj {x y : Option Code} (hx : x ≠ some .skip) (hy : y ≠ some .skip)
    (h : x.getD .skip = y.getD .skip) : x = y := by
  cases x with
  | none =>
    cases y with
    | none => rfl
    | some d => exact absurd (congrArg some h.symm) hy
  | some c =>
    cases y with
    | none => exact absurd (congrArg some h) hx
    | some d => exact congrArg some h

/-- Two conditionals that stand for the same code have the same chains of branches. -/
theorem ofBranches_of_ofStmt {bs bs' : List Branch} {otherwise otherwise' : Option (List Stmt)}
    {span span' : Span} {c : Code} (h : Code.ofStmt (.choose bs otherwise span) = [c])
    (h' : Code.ofStmt (.choose bs' otherwise' span') = [c]) :
    Code.ofBranches ((otherwise.map Code.ofBlock).map .compound) bs =
      Code.ofBranches ((otherwise'.map Code.ofBlock).map .compound) bs' := by
  rw [ofStmt_choose] at h h'
  exact getD_inj (ofBranches_ne_skip _ bs) (ofBranches_ne_skip _ bs')
    (List.cons.inj (h.trans h'.symm)).1

mutual

/-- **Statements that stand for the same code** are the same, up to what is not emitted. Texts are
compared by `expression_inj`, `printText_inj` and `call_inj`, blocks and branches by the two lemmas
below. -/
theorem bare_of_ofStmt {s s' : Stmt} (hs : Fit s) (hs' : Fit s') {c : Code}
    (h : Code.ofStmt s = [c]) (h' : Code.ofStmt s' = [c]) : s.bare = s'.bare := by
  -- the code shows which kind of statement it stands for; only for a conditional it has to be found
  -- out that the code is one
  match s, hs with
  | .assign target type value span, hs =>
    cases h
    cases s' with
    | assign target' type' value' span' =>
      simp only [Code.ofStmt, List.cons.injEq, Code.action.injEq, Action.assign.injEq,
        and_true] at h'
      rw [Stmt.bare, Stmt.bare, h'.1, expression_inj hs.proper.2 hs'.proper.2
        (plain_cons.mp hs.plain).2 (plain_cons.mp hs'.plain).2 h'.2.symm]
    | choose => obtain ⟨_, _, _, ⟨⟩⟩ := branch_of_ofStmt hs' h'
    | _ => cases h'
  | .declare name type span, hs => cases h
  | .giveBack none span, hs =>
    cases h
    cases s' with
    | giveBack value' span' =>
      cases value' with
      | none => rfl
      | some value' => cases h'
    | choose => obtain ⟨_, _, _, ⟨⟩⟩ := branch_of_ofStmt hs' h'
    | _ => cases h'
  | .giveBack (some value) span, hs =>
    cases h
    cases s' with
    | giveBack value' span' =>
      cases value' with
      | none => cases h'
      | some value' =>
        simp only [Code.ofStmt, List.cons.injEq, Code.action.injEq, Action.giveBack.injEq,
          Option.map_some, Option.some.injEq, and_true] at h'
        rw [Stmt.bare, Stmt.bare, Option.map_some, Option.map_some,
          expression_inj hs.proper hs'.proper hs.plain hs'.plain h'.symm]
    | choose => obtain ⟨_, _, _, ⟨⟩⟩ := branch_of_ofStmt hs' h'
    | _ => cases h'
  | .loop condition body span, hs =>
    cases h
    cases s' with
    | loop condition' body' span' =>
      simp only [Code.ofStmt, List.cons.injEq, Code.loop.injEq, Code.compound.injEq,
        and_true] at h'
      obtain ⟨hplain, hblock⟩ := plain_append.mp hs.plain
      obtain ⟨hplain', hblock'⟩ := plain_append.mp hs'.plain
      rw [Stmt.bare, Stmt.bare,
        expression_inj hs.proper.1 hs'.proper.1 hplain hplain' h'.1.symm,
        bare_of_ofBlock ⟨hs.proper.2, hblock⟩ ⟨hs'.proper.2, hblock'⟩ h'.2.symm]
    | choose => obtain ⟨_, _, _, ⟨⟩⟩ := branch_of_ofStmt hs' h'
    | _ => cases h'
  | .choose bs none span, hs =>
    obtain ⟨condition, yes, no, rfl⟩ := branch_of_ofStmt hs h
    cases s' with
    | choose bs' otherwise' span' =>
      -- the chains of branches are the same, and with them whether there is a last block
      obtain ⟨hbranches, helse⟩ :=
        bare_of_ofBranches hs.branches hs'.branches (ofBranches_of_ofStmt h h')
      cases otherwise' with
      | none => rw [Stmt.bare, Stmt.bare, hbranches]
      | some body' => cases helse
    | _ => cases h'
  | .choose bs (some body) span, hs =>
    obtain ⟨condition, yes, no, rfl⟩ := branch_of_ofStmt hs h
    cases s' with
    | choose bs' otherwise' span' =>
      obtain ⟨hbranches, helse⟩ :=
        bare_of_ofBranches hs.branches hs'.branches (ofBranches_of_ofStmt h h')
      cases otherwise' with
      | none => cases helse
      | some body' =>
        rw [Stmt.bare, Stmt.bare, hbranches,
          bare_of_ofBlock hs.otherwise hs'.otherwise (Option.some.inj helse)]
    | _ => cases h'
  | .print args span, hs =>
    cases h
    cases s' with
    | print args' span' =>
      simp only [Code.ofStmt, List.cons.injEq, Code.action.injEq, Action.print.injEq,
        and_true] at h'
      rw [Stmt.bare, Stmt.bare,
        printText_inj (fun e he => ⟨hs.proper e he, plain_flatMap hs.plain e he⟩)
          (fun e he => ⟨hs'.proper e he, plain_flatMap hs'.plain e he⟩) h'.symm]
    | choose => obtain ⟨_, _, _, ⟨⟩⟩ := branch_of_ofStmt hs' h'
    | _ => cases h'
  | .call call, hs =>
    cases h
    cases s' with
    | call call' =>
      simp only [Code.ofStmt, List.cons.injEq, Code.action.injEq, Action.call.injEq,
        and_true] at h'
      rw [Stmt.bare, Stmt.bare, call_inj hs.proper hs'.proper hs.plain hs'.plain h'.symm]
    | choose => obtain ⟨_, _, _, ⟨⟩⟩ := branch_of_ofStmt hs' h'
    | _ => cases h'

/-- Blocks that stand for the same code, from the first statement on that stands for anything
(`exists_first`). -/
theorem bare_of_ofBlock {ss ss' : List Stmt} (hss : FitBlock ss) (hss' : FitBlock ss')
    (h : Code.ofBlock ss = Code.ofBlock ss') : Stmt.bareBlock ss = Stmt.bareBlock ss' := by
  -- declarations are passed over on either side, so the two blocks need not be of one length
  match ss, hss with
  | [], _ => rw [bareBlock_of_nil h.symm, Stmt.bareBlock]
  | s :: ss, hss =>
    obtain ⟨hs, hrest⟩ := hss.cons
    obtain ⟨hbare, hnone⟩ | ⟨c, hone⟩ := ofStmt_cases s
    · rw [Code.ofBlock, hnone, List.nil_append] at h
      rw [Stmt.bareBlock, hbare, List.nil_append]
      exact bare_of_ofBlock hrest hss' h
    · rw [Code.ofBlock, hone, List.singleton_append] at h
      obtain ⟨s', rest', hs', hrest', hone', hmore, hbare⟩ := exists_first hss' h.symm
      rw [hbare, Stmt.bareBlock, bare_of_ofStmt hs hs' hone hone',
        bare_of_ofBlock hrest hrest' hmore.symm]

/-- Chains of branches that are the same code. Each branch stands in the `else` of the one before
it, and what stands in the last `else` shows whether there is a last block (`ofBranches_ne_skip`).
-/
theorem bare_of_ofBranches {bs bs' : List Branch} (hbs : FitBranches bs) (hbs' : FitBranches bs')
    {last last' : Option (List Code)} (h : Code.ofBranches (last.map .compound) bs =
      Code.ofBranches (last'.map .compound) bs') :
    Stmt.bareBranches bs = Stmt.bareBranches bs' ∧ last = last' := by
  match bs, hbs with
  | [], _ =>
    cases bs' with
    | nil => exact ⟨rfl, Option.map_injective (fun _ _ => Code.compound.inj) h⟩
    | cons b' bs' =>
      cases b'
      -- a branch on one side and none on the other: the codes differ
      cases last <;> cases h
  | .mk condition body span :: bs, hbs =>
    cases bs' with
    | nil => cases last' <;> cases h
    | cons b' bs' =>
      obtain ⟨condition', body', span'⟩ := b'
      obtain ⟨hc, hplain, hbody, hrest⟩ := hbs.cons
      obtain ⟨hc', hplain', hbody', hrest'⟩ := hbs'.cons
      simp only [Code.ofBranches, Option.some.injEq, Code.branch.injEq, Code.compound.injEq] at h
      obtain ⟨hcondition, hblock, hno⟩ := h
      -- what stands behind an `else` is again a chain of branches
      obtain ⟨hmore, hlast⟩ := bare_of_ofBranches hrest hrest'
        (getD_inj (ofBranches_ne_skip _ bs) (ofBranches_ne_skip _ bs') hno)
      rw [Stmt.bareBranches, Stmt.bareBranches, hmore, bare_of_ofBlock hbody hbody' hblock,
        expression_inj hc hc' hplain hplain' hcondition]
      exact ⟨rfl, hlast⟩

end

/-! ### The functions of a text -/

/-- The lines of a text that are no statements, each with the statements behind it. In emitted code
these are the lines that begin a function, and the include. -/
def sections : List (List Char) → List (List Char × List (List Char))
  | [] => []
  | line :: lines =>
    if (Piece.ofLine? line).isSome then sections lines
    else (line, lines.takeWhile fun l => (Piece.ofLine? l).isSome) :: sections lines

/-- Statements before the first section belong to none. -/
theorem sections_append {ls : List (List Char)} (h : ∀ l ∈ ls, (Piece.ofLine? l).isSome)
    (lines : List (List Char)) : sections (ls ++ lines) = sections lines := by
  induction ls with
  | nil => rfl
  | cons l ls ih =>
    obtain ⟨hl, hls⟩ := List.forall_mem_cons.mp h
    rw [List.cons_append, sections, if_pos hl, ih hls]

/-- **Sections are found again** in the lines they are put together to. -/
theorem sections_flatMap {xs : List (List Char × List (List Char))}
    (h : ∀ x ∈ xs, Piece.ofLine? x.1 = none ∧ ∀ l ∈ x.2, (Piece.ofLine? l).isSome) :
    sections (xs.flatMap fun x => x.1 :: x.2) = xs := by
  induction xs with
  | nil => rfl
  | cons x xs ih =>
    obtain ⟨⟨hhead, hbody⟩, hxs⟩ := List.forall_mem_cons.mp h
    -- the statements of a section end where the next one begins
    have hstop : (xs.flatMap fun x => x.1 :: x.2).takeWhile
        (fun l => (Piece.ofLine? l).isSome) = [] := by
      cases xs with
      | nil => rfl
      | cons y ys =>
        obtain ⟨⟨hy, -⟩, -⟩ := List.forall_mem_cons.mp hxs
        rw [List.flatMap_cons, List.cons_append, List.takeWhile_cons_of_neg (by simp [hy])]
    rw [List.flatMap_cons, List.cons_append, sections, if_neg (by simp [hhead]),
      List.takeWhile_append_of_pos hbody, hstop, List.append_nil, sections_append hbody, ih hxs]

/-- What is read from some lines was read from each of them. -/
theorem isSome_of_foldrM {lines : List (List Char)} {levels levels' : List (List Slot)}
    (h : lines.foldrM putLine levels = some levels') : ∀ l ∈ lines, (Piece.ofLine? l).isSome := by
  induction lines generalizing levels' with
  | nil => exact List.forall_mem_nil _
  | cons line lines ih =>
    rw [List.foldrM_cons] at h
    obtain ⟨between, hlines, hline⟩ := Option.bind_eq_some_iff.mp h
    obtain ⟨pieces, hpieces, -⟩ := Option.bind_eq_some_iff.mp hline
    exact List.forall_mem_cons.mpr ⟨by rw [hpieces]; rfl, ih hlines⟩

/-- The line of a declaration is a statement. -/
theorem isSome_declarations (table : SymbolTable) (scope : String) :
    ∀ l ∈ written (declarations table scope), (Piece.ofLine? l).isSome := by
  intro l hl
  obtain ⟨line, hline, rfl⟩ := List.mem_map.mp (List.mem_filter.mp hl).1
  obtain ⟨s, -, rfl⟩ := List.mem_map.mp hline
  rw [Piece.ofLine?_declare]
  rfl

/-- No statement begins with a return type, a space and a name, and ends without a semicolon. -/
theorem ofParts?_returnType (type : ReturnType) {c : Char} {cs : List Char} (hc : c ≠ '=')
    (hend : (c :: cs).getLast? ≠ some ';') :
    Action.ofParts? type.cpp.toList (' ' :: c :: cs) = none := by
  have hreturn : type.cpp.toList ≠ "return".toList ∧ type.cpp.toList ≠ "std".toList := by
    rcases type with (_ | _ | _) | _ <;> decide
  unfold Action.ofParts?
  rw [if_neg hreturn.1, if_neg fun h => hreturn.2 h.1]
  cases type with
  | value type =>
    -- it could only be a declaration
    have htype : type.text.toList ∈ typeWords := by cases type <;> decide
    have hended : ended? (c :: cs) = none := if_neg hend
    show (if type.text.toList ∈ typeWords then (ended? (c :: cs)).map _ else _) = none
    rw [if_pos htype, hended, Option.map_none]
  | nothing =>
    -- it could only be an assignment to a variable with the name of the type, or a call
    rw [if_neg (by decide), if_neg (by decide)]
    split
    · next h => exact absurd (List.cons.inj (List.cons.inj h).2).1 hc
    · next h => cases h
    · rfl

/-- The line that begins a function is no statement. -/
theorem ofLine?_header {f : Function} (hf : f.Proper) :
    Piece.ofLine? (header f).toList = none := by
  obtain ⟨c, cs, hname, hstart, -⟩ := isWord_iff.mp hf.name.1
  -- a type, a space, a name and parentheses, of which the last character is one
  obtain ⟨params, htext⟩ : ∃ params, (header f).toList =
      f.returnType.cpp.toList ++ ' ' :: c :: (cs ++ params ++ [')']) :=
    ⟨"(".toList ++ (String.intercalate ", "
      (f.params.map fun p => p.type.text ++ " " ++ p.name)).toList, by simp [header, hname]⟩
  have hc : c ≠ '=' := by
    rintro rfl
    cases hstart
  have hend : (c :: (cs ++ params ++ [')'])).getLast? ≠ some ';' := by
    rw [← List.cons_append, List.getLast?_concat]
    decide
  rw [htext, Piece.ofLine?_returnType, ofParts?_returnType _ hc hend, Option.map_none]

/-- The section of a function. -/
def scopeSection (header : String) (table : SymbolTable) (scope : String) (inner : List Line) :
    List Char × List (List Char) :=
  (header.toList, written (braced 0 (declarations table scope ++ inner)))

/-- The lines of a function are its section. -/
theorem written_scopeSection {header : String} (h : header.toList ≠ []) (table : SymbolTable)
    (scope : String) (inner : List Line) :
    written (⟨0, header⟩ :: braced 0 (declarations table scope ++ inner)) =
      (scopeSection header table scope inner).1 :: (scopeSection header table scope inner).2 := by
  rw [← List.singleton_append, written_append, written_singleton h, List.singleton_append]
  rfl

/-- Behind the first line of a section there are only statements: braces, declarations and what is
in the block. -/
theorem isSome_scopeSection (header : String) (table : SymbolTable) (scope : String)
    {inner : List Line} (hinner : ∀ l ∈ written inner, (Piece.ofLine? l).isSome) :
    ∀ l ∈ (scopeSection header table scope inner).2, (Piece.ofLine? l).isSome := by
  rw [scopeSection, written_braced, written_append]
  refine List.forall_mem_cons.mpr ⟨rfl, List.forall_mem_append.mpr ⟨?_, ?_⟩⟩
  · exact List.forall_mem_append.mpr ⟨isSome_declarations table scope, hinner⟩
  · exact List.forall_mem_singleton.mpr rfl

/-- **The section of a function** shows what it declares and its other lines. The declarations are
read off the front (`leadingDeclarations_declarations`), and two types with the same text are the
same (`text_inj`). -/
theorem scopeSection_inj {header header' : String} {table table' : SymbolTable}
    {scope scope' : String} {inner inner' : List Line} (hinner : Inner inner)
    (hinner' : Inner inner')
    (h : scopeSection header table scope inner = scopeSection header' table' scope' inner') :
    header = header' ∧ table.declared scope = table'.declared scope' ∧
      written inner = written inner' := by
  obtain ⟨hheader, hlines⟩ := Prod.mk.inj h
  rw [written_braced, written_braced, written_append, written_append] at hlines
  have hbody := List.append_cancel_right (List.cons.inj hlines).2
  -- what comes behind the declarations does not begin with one, so both have the same of them
  have hleading : ∀ {inner : List Line}, Inner inner →
      leadingDeclarations (written inner) = [] := by
    intro inner hinner
    rw [← List.append_nil (written inner)]
    exact hinner.leading [] rfl
  have hread := congrArg leadingDeclarations hbody
  rw [leadingDeclarations_declarations table scope (hleading hinner),
    leadingDeclarations_declarations table' scope' (hleading hinner')] at hread
  have hdeclared : table.declared scope = table'.declared scope' :=
    map_eq_of_map_eq _ _ (fun s _ s' _ hs => by
      obtain ⟨htype, hname⟩ := Prod.mk.inj hs
      rw [text_inj htype, hname]) hread
  rw [declarations_eq, declarations_eq, hdeclared] at hbody
  exact ⟨String.toList_inj.mp hheader, hdeclared, List.append_cancel_left hbody⟩

/-- The lines of a block show the block: they are put together to the code it stands for
(`puts_block`), and this shows what it was (`bare_of_ofBlock`). -/
theorem bareBlock_of_written {depth : Nat} {ss ss' : List Stmt} (hss : FitBlock ss)
    (hss' : FitBlock ss') (h : written (block depth ss) = written (block depth ss')) :
    Stmt.bareBlock ss = Stmt.bareBlock ss' := by
  have hput := (puts_block depth hss.proper [] []).put
  rw [h, (puts_block depth hss'.proper [] []).put] at hput
  have hcodes := congrArg wholes? (List.cons.inj (Option.some.inj hput)).1
  rw [wholes?_map, wholes?_map, List.append_nil, List.append_nil] at hcodes
  exact bare_of_ofBlock hss hss' (Option.some.inj hcodes).symm

/-- The section of a function of the program. -/
def functionSection (table : SymbolTable) (f : Function) : List Char × List (List Char) :=
  scopeSection (header f) table f.name (block 1 f.body)

/-- The section of the main function, which has the statements of the module. -/
def mainSection (table : SymbolTable) (body : List Stmt) : List Char × List (List Char) :=
  scopeSection "int main()" table SymbolTable.moduleName (block 1 body ++ [⟨1, "return 0;"⟩])

/-- The sections of an emitted program: the include, its functions and the main function. -/
def programSections (table : SymbolTable) (p : Program) : List (List Char × List (List Char)) :=
  ("#include <iostream>".toList, []) ::
    (p.functions.map (functionSection table) ++ [mainSection table p.body])

/-- The lines of the functions are their sections. -/
theorem written_functions (table : SymbolTable) (fs : List Function) :
    written (fs.flatMap (function table)) =
      (fs.map (functionSection table)).flatMap fun x => x.1 :: x.2 := by
  induction fs with
  | nil => rfl
  | cons f fs ih =>
    have hheader : (header f).toList ≠ [] := by simp [header]
    rw [List.flatMap_cons, written_append, ih, function, written_scopeSection hheader]
    rfl

/-- The lines of a program are its sections; the empty line between them is not seen. -/
theorem written_lines (table : SymbolTable) (p : Program) :
    written (lines table p) = (programSections table p).flatMap fun x => x.1 :: x.2 := by
  have hmain : written (mainFunction table p.body) =
      (mainSection table p.body).1 :: (mainSection table p.body).2 := by
    rw [mainFunction, List.append_assoc, written_scopeSection (by decide)]
    rfl
  -- the blank lines between the sections are not counted as written
  have hblank : ∀ ls : List Line, written (⟨0, ""⟩ :: ls) = written ls := fun _ => rfl
  rw [lines, written_append, written_append, written_functions, hblank, hmain, programSections,
    List.flatMap_cons, List.flatMap_append, List.flatMap_singleton, List.append_assoc]
  rfl

/-- **The lines of code show the sections.** -/
theorem sections_emit (indentWidth : Nat) {table : SymbolTable} {p : Program} (hp : p.Proper)
    (h : ∀ scope, ∀ s ∈ table.symbols scope, IsName s.name) :
    sections (codeLines (emit indentWidth table p)) = programSections table p := by
  rw [emit, codeLines_render indentWidth (legible_lines hp h), written_lines]
  refine sections_flatMap (List.forall_mem_cons.mpr ⟨⟨rfl, List.forall_mem_nil _⟩,
    List.forall_mem_append.mpr ⟨List.forall_mem_map.mpr fun f hf => ?_,
      List.forall_mem_singleton.mpr ?_⟩⟩)
  · -- a function: its first line is no statement, all others are
    have hproper := hp.functions f hf
    exact ⟨ofLine?_header hproper, isSome_scopeSection _ table f.name
      (isSome_of_foldrM (puts_block 1 hproper.body [] []).put)⟩
  · -- the main function, which ends with a line of its own
    refine ⟨rfl, isSome_scopeSection _ table _ ?_⟩
    rw [written_append]
    exact List.forall_mem_append.mpr ⟨isSome_of_foldrM (puts_block 1 hp.body [] []).put,
      List.forall_mem_singleton.mpr rfl⟩

/-- The section of a function shows what is left of it: its head (`header_inj`), its declarations
(`scopeSection_inj`) and its body (`bareBlock_of_written`). -/
theorem bare_of_functionSection {table table' : SymbolTable} {f f' : Function}
    (hf : f.Proper) (hf' : f'.Proper) (hn : Plain f.names) (hn' : Plain f'.names)
    (h : functionSection table f = functionSection table' f') :
    f.bare = f'.bare ∧ table.declared f.name = table'.declared f'.name := by
  obtain ⟨hheader, hdeclared, hblock⟩ :=
    scopeSection_inj (inner_block 1 hf.body) (inner_block 1 hf'.body) h
  -- the header gives back the signature, the lines below it the declarations and the body
  obtain ⟨hname, hparams, htype⟩ := header_inj hf hf' hheader
  have hbody := bareBlock_of_written ⟨hf.body, (plain_append.mp hn).2⟩
    ⟨hf'.body, (plain_append.mp hn').2⟩ hblock
  rw [Function.bare, Function.bare, hname, hparams, htype, hbody]
  exact ⟨rfl, hname ▸ hdeclared⟩

/-- **Emitted code says exactly** what is left of the program without its positions, annotations and
declarations, and what each of its scopes declares. One direction is `emit_of_bare`; for the other
the code falls into sections (`sections_emit`), and each section shows its function
(`bare_of_functionSection`). -/
theorem emit_eq_iff {table table' : SymbolTable} {p p' : Program} (hp : p.Proper) (hp' : p'.Proper)
    (hn : Plain p.names) (hn' : Plain p'.names)
    (ht : ∀ scope, ∀ s ∈ table.symbols scope, IsName s.name)
    (ht' : ∀ scope, ∀ s ∈ table'.symbols scope, IsName s.name) (indentWidth : Nat) :
    emit indentWidth table p = emit indentWidth table' p' ↔
      p.bare = p'.bare ∧
        table.declared SymbolTable.moduleName = table'.declared SymbolTable.moduleName ∧
        (p.functions.map fun f => table.declared f.name) =
          p'.functions.map fun f => table'.declared f.name := by
  refine ⟨fun h => ?_, fun ⟨hbare, hmodule, hfunctions⟩ =>
    emit_of_bare indentWidth hbare hmodule hfunctions⟩
  have hreturn : Inner [⟨1, "return 0;"⟩] :=
    inner_line 1 (Piece.ofLine?_giveBack "0") ⟨nofun, nofun, nofun⟩
  -- texts that are equal have equal sections
  have hsections : programSections table p = programSections table' p' := by
    rw [← sections_emit indentWidth hp ht, ← sections_emit indentWidth hp' ht', h]
  -- the main function comes last, also if there is another one of its name
  obtain ⟨hfs, hmain⟩ := List.append_inj' (List.cons.inj hsections).2 rfl
  obtain ⟨-, hmodule, hlines⟩ := scopeSection_inj ((inner_block 1 hp.body).append hreturn)
    ((inner_block 1 hp'.body).append hreturn) (List.cons.inj hmain).1
  rw [written_append, written_append] at hlines
  -- the last line is the same for all programs, so the lines before it are equal
  have hbody := bareBlock_of_written ⟨hp.body, (plain_append.mp hn).2⟩
    ⟨hp'.body, (plain_append.mp hn').2⟩ (List.append_cancel_right hlines)
  have hall : ∀ f ∈ p.functions, ∀ f' ∈ p'.functions,
      functionSection table f = functionSection table' f' →
        f.bare = f'.bare ∧ table.declared f.name = table'.declared f'.name := fun f hf f' hf' =>
    bare_of_functionSection (hp.functions f hf) (hp'.functions f' hf')
      (plain_flatMap (plain_append.mp hn).1 f hf) (plain_flatMap (plain_append.mp hn').1 f' hf')
  have hbare := map_eq_of_map_eq Function.bare Function.bare
    (fun f hf f' hf' hsame => (hall f hf f' hf' hsame).1) hfs
  have hdeclared := map_eq_of_map_eq _ _
    (fun f hf f' hf' hsame => (hall f hf f' hf' hsame).2) hfs
  refine ⟨?_, hmodule, hdeclared⟩
  rw [Program.bare, Program.bare, hbare, hbody]

/-- A function of two truth values with the given statements. -/
def branching (body : List Stmt) : Program :=
  ⟨[⟨"f", [⟨"a", .bool⟩, ⟨"b", .bool⟩], .nothing, body, ⟨1, 1⟩⟩], []⟩

/-- A conditional with two branches. -/
def chainedProgram : Program :=
  branching [.choose [.mk (.operation ⟨false, .name "a", []⟩) [.giveBack none ⟨3, 9⟩] ⟨2, 5⟩,
    .mk (.operation ⟨true, .name "b", []⟩)
      [.assign "x" none (.operation ⟨false, .literal (.int (-1)), []⟩) ⟨5, 9⟩] ⟨4, 5⟩] none ⟨2, 5⟩]

/-- The same, with an annotation and a declaration. -/
def annotatedProgram : Program :=
  branching [.declare "x" .int ⟨2, 5⟩,
    .choose [.mk (.operation ⟨false, .name "a", []⟩) [.giveBack none ⟨4, 9⟩] ⟨3, 5⟩,
      .mk (.operation ⟨true, .name "b", []⟩)
        [.assign "x" (some .int) (.operation ⟨false, .literal (.int (-1)), []⟩) ⟨6, 9⟩] ⟨5, 5⟩]
      none ⟨3, 5⟩]

/-- The second branch as a conditional of its own, in the `else` of the first. -/
def nestedProgram : Program :=
  branching [.choose [.mk (.operation ⟨false, .name "a", []⟩) [.giveBack none ⟨3, 9⟩] ⟨2, 5⟩]
    (some [.choose [.mk (.operation ⟨true, .name "b", []⟩)
      [.assign "x" none (.operation ⟨false, .literal (.int (-1)), []⟩) ⟨6, 13⟩] ⟨5, 9⟩]
      none ⟨5, 9⟩])
    ⟨2, 5⟩]

/-- A table with the one variable of the function. -/
def branchingTable : SymbolTable := .ofLog [("f", ⟨"x", .int, ⟨2, 5⟩⟩)]

/-- Without any indentation the annotated program has the code of the first one, and the nested one
has other code. -/
theorem emit_chainedProgram :
    emit 0 branchingTable chainedProgram = emit 0 branchingTable annotatedProgram ∧
      emit 0 branchingTable chainedProgram ≠ emit 0 branchingTable nestedProgram := by
  -- the table has one symbol, and it is a name
  have htable : ∀ scope, ∀ s ∈ branchingTable.symbols scope, IsName s.name := by
    have hlog : ∀ entry ∈ [("f", (⟨"x", .int, ⟨2, 5⟩⟩ : Symbol))], IsName entry.2.name := by decide
    exact fun scope s hs => hlog _ (SymbolTable.mem_symbols_ofLog.mp hs)
  have hname : IsName "f" := by decide
  have hparams : ∀ p ∈ [(⟨"a", .bool⟩ : Param), ⟨"b", .bool⟩], IsName p.name := by decide
  have hproper : ∀ {body : List Stmt}, Stmt.ProperBlock body → (branching body).Proper :=
    fun hbody => ⟨List.forall_mem_singleton.mpr ⟨hname, hparams, hbody⟩, trivial⟩
  have hchained : chainedProgram.Proper := hproper (by decide)
  refine ⟨?_, fun h => ?_⟩
  · exact (emit_eq_iff hchained (hproper (by decide)) (by decide) (by decide) htable htable 0).mpr
      ⟨rfl, rfl, rfl⟩
  · obtain ⟨hbare, -⟩ := (emit_eq_iff hchained (hproper (by decide)) (by decide) (by decide)
      htable htable 0).mp h
    cases hbare

end Cpp

end Offside
