import Offside.Proofs.Cpp.Reading
import Offside.Proofs.Scopes

/-!
# Declarations at the top of a function

Which variables an emitted function declares is read off the emitted text alone: behind the brace
that opens an outermost block come the declarations, up to the first line that is none.

The variables of a function are looked up by its name, so a function declares what is annotated in
any function of that name (`topDeclarations_of_compile`). They are its own annotations exactly if
no other function of its name has any; functions of other names and the module never matter.
-/

namespace Offside.Cpp

open Token Linewise

/-! ### Reading declarations off a text -/

/-- The type and the name on a line that is a declaration. -/
def declaration? (line : List Char) : Option (String × String) :=
  match Piece.ofLine? line with
  | some [.action (.declare type name)] => some (type, name)
  | _ => none

/-- The declarations that some lines begin with. -/
def leadingDeclarations : List (List Char) → List (String × String)
  | [] => []
  | line :: lines =>
    match declaration? line with
    | some d => d :: leadingDeclarations lines
    | none => []

/-- **The declarations at the top of each outermost block**, from so many braces deep on. -/
def topDeclarations : Nat → List (List Char) → List (List (String × String))
  | _, [] => []
  | depth, line :: lines =>
    if Piece.ofLine? line = some [.opening] then
      if depth = 0 then leadingDeclarations lines :: topDeclarations 1 lines
      else topDeclarations (depth + 1) lines
    else if Piece.ofLine? line = some [.closing] then topDeclarations (depth - 1) lines
    else topDeclarations depth lines

/-! ### The lines of a block -/

/-- Within a block the lines leave the depth as it was, and no declaration comes first. -/
structure Inner (ls : List Line) : Prop where
  top : ∀ depth lines,
    topDeclarations (depth + 1) (written ls ++ lines) = topDeclarations (depth + 1) lines
  leading : ∀ lines, leadingDeclarations lines = [] → leadingDeclarations (written ls ++ lines) = []

namespace Inner

/-- No lines at all leave the depth as it was. -/
theorem nil : Inner [] := ⟨fun _ _ => rfl, fun _ h => h⟩

/-- Both halves of `Inner` pass through a concatenation: the depth from left to right, the leading
declarations from right to left. -/
theorem append {ls ls' : List Line} (h : Inner ls) (h' : Inner ls') : Inner (ls ++ ls') := by
  refine ⟨fun depth lines => ?_, fun lines hlines => ?_⟩
  · rw [written_append, List.append_assoc, h.top, h'.top]
  · rw [written_append, List.append_assoc]
    exact h.leading _ (h'.leading lines hlines)

end Inner

/-- What a line is read as says that it has any characters. -/
theorem written_line (depth : Nat) {text : String} {pieces : List Piece}
    (h : Piece.ofLine? text.toList = some pieces) : written [⟨depth, text⟩] = [text.toList] :=
  written_singleton fun hnil => absurd (hnil ▸ h) nofun

/-- A line that is neither a brace nor a declaration. -/
theorem inner_line (depth : Nat) {text : String} {pieces : List Piece}
    (hpieces : Piece.ofLine? text.toList = some pieces)
    (hplain : pieces ≠ [.opening] ∧ pieces ≠ [.closing] ∧
      ∀ type name, pieces ≠ [.action (.declare type name)]) :
    Inner [⟨depth, text⟩] := by
  obtain ⟨hopening, hclosing, hdeclare⟩ := hplain
  refine ⟨fun d lines => ?_, fun lines _ => ?_⟩
  · rw [written_line depth hpieces, List.singleton_append, topDeclarations, hpieces,
      if_neg (by simpa using hopening), if_neg (by simpa using hclosing)]
  · have hnone : declaration? text.toList = none := by
      rw [declaration?, hpieces]
      -- the match in `declaration?` succeeds for a declaration only
      split
      · next type name h => exact absurd (Option.some.inj h) (hdeclare type name)
      · rfl
    rw [written_line depth hpieces, List.singleton_append, leadingDeclarations, hnone]

/-- A braced block as it is written: the braces are lines of code of their own. -/
theorem written_braced (depth : Nat) (ls : List Line) :
    written (braced depth ls) = ['\x7b'] :: (written ls ++ [['\x7d']]) := by
  have hopening : Piece.ofLine? "\x7b".toList = some [.opening] := rfl
  have hclosing : Piece.ofLine? "\x7d".toList = some [.closing] := rfl
  rw [braced, List.cons_append, ← List.singleton_append, written_append, written_append,
    written_line depth hopening, written_line depth hclosing, List.singleton_append]
  simp

/-- A closing brace goes one level up. -/
theorem topDeclarations_closing (depth : Nat) (lines : List (List Char)) :
    topDeclarations (depth + 1) (['\x7d'] :: lines) = topDeclarations depth lines := by
  rw [topDeclarations, if_neg (by decide), if_pos (by decide), Nat.add_sub_cancel]

theorem inner_braced (depth : Nat) {ls : List Line} (h : Inner ls) : Inner (braced depth ls) := by
  refine ⟨fun d lines => ?_, fun lines _ => ?_⟩
  · -- inside a function an opening brace goes one level down, and the closing one back up
    rw [written_braced, List.cons_append, topDeclarations, if_pos (by decide),
      if_neg (Nat.succ_ne_zero d), List.append_assoc, h.top, List.singleton_append,
      topDeclarations_closing]
  · rw [written_braced]
    rfl

mutual

/-- **The lines of a statement leave the depth as it was.** A declaration has no lines here, as it
was put at the top of its function; every other line is read as something else (`inner_line`). -/
theorem inner_statement (depth : Nat) {s : Stmt} (hs : s.Proper) : Inner (statement depth s) := by
  match s, hs with
  | .assign target type value span, hs =>
    -- what the line is read as shows that it is neither a brace nor a declaration
    exact inner_line depth (Piece.ofLine?_assign hs.1 _) ⟨nofun, nofun, nofun⟩
  | .declare name type span, hs => exact .nil
  | .giveBack none span, hs =>
    have hpieces : Piece.ofLine? "return;".toList = some [.action (.giveBack none)] := rfl
    exact inner_line depth hpieces ⟨nofun, nofun, nofun⟩
  | .giveBack (some value) span, hs =>
    exact inner_line depth (Piece.ofLine?_giveBack _) ⟨nofun, nofun, nofun⟩
  | .loop condition body span, hs =>
    have hheader := inner_line depth (Piece.ofLine?_loop (expression condition))
      ⟨nofun, nofun, nofun⟩
    exact hheader.append (inner_braced depth (inner_block (depth + 1) hs.2))
  | .choose bs none span, hs =>
    exact inner_branches depth Piece.ofLine?_branch (fun _ => ⟨nofun, nofun, nofun⟩) hs.2
  | .choose bs (some body) span, hs =>
    have hbranches := inner_branches depth Piece.ofLine?_branch
      (fun _ => ⟨nofun, nofun, nofun⟩) hs.2.1
    have hpieces : Piece.ofLine? "else".toList = some [.otherwise] := rfl
    have helse := inner_line depth hpieces ⟨nofun, nofun, nofun⟩
    exact hbranches.append (helse.append (inner_braced depth (inner_block (depth + 1) hs.2.2)))
  | .print args span, hs =>
    exact inner_line depth (Piece.ofLine?_print args) ⟨nofun, nofun, nofun⟩
  | .call c, hs => exact inner_line depth (Piece.ofLine?_call hs) ⟨nofun, nofun, nofun⟩

/-- The statements of a block one after another. -/
theorem inner_block (depth : Nat) {ss : List Stmt} (hss : Stmt.ProperBlock ss) :
    Inner (block depth ss) := by
  match ss, hss with
  | [], _ => exact .nil
  | s :: ss, hss => exact (inner_statement depth hss.1).append (inner_block depth hss.2)

/-- The first header is read as some pieces, and all others go on from the one before. -/
theorem inner_branches (depth : Nat) {word : String} {pieces : String → List Piece}
    (hword : ∀ c, Piece.ofLine? (word ++ "(" ++ c ++ ")").toList = some (pieces c))
    (hplain : ∀ c, pieces c ≠ [.opening] ∧ pieces c ≠ [.closing] ∧
      ∀ type name, pieces c ≠ [.action (.declare type name)])
    {bs : List Branch} (hbs : Stmt.ProperBranches bs) : Inner (branches depth word bs) := by
  match bs, hbs with
  | [], _ => exact .nil
  | .mk condition body span :: bs, hbs =>
    -- the header, the body between its braces, and the other branches
    have hheader := inner_line depth (hword (expression condition)) (hplain _)
    have hbody := inner_braced depth (inner_block (depth + 1) hbs.1.2)
    have hmore := inner_branches depth Piece.ofLine?_otherwise_branch
      (fun _ => ⟨nofun, nofun, nofun⟩) hbs.2
    exact (hheader.append hbody).append hmore

end

/-! ### The lines of a function -/

/-- The declaration of a variable. -/
def declaration (s : Symbol) : String × String := (s.type.text, s.name)

/-- What stands behind the declarations of a scope is at the same depth. -/
theorem topDeclarations_declarations (table : SymbolTable) (scope : String) (depth : Nat)
    (lines : List (List Char)) :
    topDeclarations depth (written (declarations table scope) ++ lines) =
      topDeclarations depth lines := by
  unfold declarations
  induction table.symbols scope with
  | nil => rfl
  | cons s symbols ih =>
    -- a declaration is no brace
    have hpieces := Piece.ofLine?_declare s.type s.name
    rw [List.map_cons, ← List.singleton_append, written_append, written_line 1 hpieces,
      List.singleton_append, List.cons_append, topDeclarations, hpieces, if_neg (by simp),
      if_neg (by simp), ih]

/-- The declarations of a scope are read off in full, if none follows them. -/
theorem leadingDeclarations_declarations (table : SymbolTable) (scope : String)
    {lines : List (List Char)} (h : leadingDeclarations lines = []) :
    leadingDeclarations (written (declarations table scope) ++ lines) =
      (table.symbols scope).map declaration := by
  unfold declarations
  induction table.symbols scope with
  | nil => exact h
  | cons s symbols ih =>
    have hpieces := Piece.ofLine?_declare s.type s.name
    -- the line is read as the declaration that it was written for
    have hsome : declaration? (s.type.text ++ " " ++ s.name ++ ";").toList =
        some (declaration s) := by
      rw [declaration?, hpieces]
      rfl
    rw [List.map_cons, ← List.singleton_append, written_append, written_line 1 hpieces,
      List.singleton_append, List.cons_append, leadingDeclarations, hsome, List.map_cons, ih]

/-- A line that begins with a return type is read as a simple statement or not at all. -/
theorem Piece.ofLine?_returnType (type : ReturnType) (cs : List Char) :
    ofLine? (type.cpp.toList ++ ' ' :: cs) =
      (Action.ofParts? type.cpp.toList (' ' :: cs)).map fun a => [.action a] := by
  have hword : type.cpp.toList.all isWordPart = true ∧ type.cpp.toList ≠ [] ∧
      type.cpp.toList ≠ "else".toList ∧ type.cpp.toList ≠ "while".toList ∧
      type.cpp.toList ≠ "if".toList := by
    -- four words, none of which begins another statement
    rcases type with (_ | _ | _) | _ <;> decide
  obtain ⟨hparts, hne, helse, hwhile, hif⟩ := hword
  have hrest : ∀ c ∈ (' ' :: cs).head?, isWordPart c = false := boundary_cons (by decide)
  rw [ofLine?_word hparts hrest helse, ofStart?_word hparts hne hrest, if_neg hwhile, if_neg hif,
    Option.map_map]
  rfl

/-- The line that begins a function is no brace. -/
theorem topDeclarations_header (f : Function) (lines : List (List Char)) :
    topDeclarations 0 (written [⟨0, header f⟩] ++ lines) = topDeclarations 0 lines := by
  obtain ⟨cs, hcs⟩ : ∃ cs, (header f).toList = f.returnType.cpp.toList ++ ' ' :: cs :=
    ⟨(f.name ++ "(" ++ String.intercalate ", " (f.params.map fun p => p.type.text ++ " " ++ p.name)
      ++ ")").toList, by simp [header]⟩
  -- whatever the line is read as, it begins with a word
  have hbrace : ∀ p, (∀ a, p ≠ .action a) → Piece.ofLine? (header f).toList ≠ some [p] := by
    intro p hp h
    rw [hcs, Piece.ofLine?_returnType] at h
    obtain ⟨a, -, ha⟩ := Option.map_eq_some_iff.mp h
    cases ha
    exact hp a rfl
  have hwritten : written [⟨0, header f⟩] = [(header f).toList] :=
    written_singleton (by rw [hcs]; simp)
  rw [hwritten, List.singleton_append, topDeclarations, if_neg (hbrace .opening nofun),
    if_neg (hbrace .closing nofun)]

/-- **The lines of a function** have the declarations of its scope at the top. -/
theorem topDeclarations_scope (table : SymbolTable) (scope : String) {header : String}
    (hheader : ∀ lines,
      topDeclarations 0 (written [⟨0, header⟩] ++ lines) = topDeclarations 0 lines)
    {inner : List Line} (hinner : Inner inner) (lines : List (List Char)) :
    topDeclarations 0
        (written (⟨0, header⟩ :: braced 0 (declarations table scope ++ inner)) ++ lines) =
      (table.symbols scope).map declaration :: topDeclarations 0 lines := by
  have hclosed : leadingDeclarations ([['\x7d']] ++ lines) = [] := rfl
  -- the header is passed, the brace opens an outermost block, and behind its declarations the lines
  -- leave the depth alone
  rw [← List.singleton_append, written_append, List.append_assoc, hheader, written_braced,
    List.cons_append, topDeclarations, if_pos (by decide), if_pos rfl, written_append,
    List.append_assoc, List.append_assoc, topDeclarations_declarations, hinner.top,
    leadingDeclarations_declarations table scope (hinner.leading _ hclosed),
    List.singleton_append, topDeclarations_closing]

/-! ### The lines of a program -/

/-- A line is legible if it begins with a word that is. -/
theorem legible_append {word s : String} (hword : word.toList ≠ [] ∧ Legible word)
    (hs : Unbroken s) : Legible (word ++ s) := by
  obtain ⟨hne, hunbroken, hhead⟩ := hword
  refine ⟨unbroken_append hunbroken hs, ?_⟩
  rwa [String.toList_append, List.head?_append_of_ne_nil _ hne]

/-- The word for a type begins a legible line. -/
theorem legible_type (type : ValueType) : type.text.toList ≠ [] ∧ Legible type.text := by
  cases type <;> exact ⟨by decide, by decide, by decide⟩

/-- Braces are legible. -/
theorem legible_braced (depth : Nat) {ls : List Line} (h : ∀ l ∈ ls, Legible l.text) :
    ∀ l ∈ braced depth ls, Legible l.text := by
  have hopening : Legible "\x7b" := ⟨by decide, by decide⟩
  have hclosing : Legible "\x7d" := ⟨by decide, by decide⟩
  intro l hl
  rcases List.mem_cons.mp hl with rfl | hl
  · exact hopening
  · rcases List.mem_append.mp hl with hl | hl
    · exact h l hl
    · cases List.mem_singleton.mp hl
      exact hclosing

/-- A declaration is legible if it declares a name. -/
theorem legible_declarations {table : SymbolTable} {scope : String}
    (h : ∀ s ∈ table.symbols scope, IsName s.name) :
    ∀ l ∈ declarations table scope, Legible l.text := by
  intro l hl
  obtain ⟨s, hs, rfl⟩ := List.mem_map.mp hl
  show Legible (s.type.text ++ " " ++ s.name ++ ";")
  rw [String.append_assoc, String.append_assoc]
  refine legible_append (legible_type s.type) (unbroken_append (by decide) ?_)
  exact unbroken_append (unbroken_name (h s hs)) (by decide)

/-- The header of a function is legible: its return type is, and nothing behind it breaks the line.
-/
theorem legible_header {f : Function} (hf : f.Proper) : Legible (header f) := by
  have hcpp : f.returnType.cpp.toList ≠ [] ∧ Legible f.returnType.cpp := by
    rcases f.returnType with type | _
    · exact legible_type type
    · exact ⟨by decide, by decide, by decide⟩
  have hparams : ∀ s ∈ f.params.map fun p => p.type.text ++ " " ++ p.name, Unbroken s := by
    refine List.forall_mem_map.mpr fun p hp => ?_
    refine unbroken_append (unbroken_append (legible_type p.type).2.1 (by decide)) ?_
    exact unbroken_name (hf.params p hp)
  unfold header
  -- the header is a sum of strings to the left, while `legible_append` takes off the first
  rw [String.append_assoc, String.append_assoc, String.append_assoc, String.append_assoc]
  refine legible_append hcpp (unbroken_append (by decide) (unbroken_append (unbroken_name hf.name)
    (unbroken_append (by decide) (unbroken_append (unbroken_intercalate (by decide) hparams) ?_))))
  decide

/-- **Every emitted line is legible**, so `codeLines_render` applies to the whole program. For the
statements `puts_block` says it. -/
theorem legible_lines {table : SymbolTable} {p : Program} (hp : p.Proper)
    (h : ∀ scope, ∀ s ∈ table.symbols scope, IsName s.name) :
    ∀ l ∈ lines table p, Legible l.text := by
  have hblank : Legible "" := ⟨by decide, by decide⟩
  have hinclude : Legible "#include <iostream>" := ⟨by decide, by decide⟩
  have hmain : Legible "int main()" := ⟨by decide, by decide⟩
  have hreturn : Legible "return 0;" := ⟨by decide, by decide⟩
  have hfunction : ∀ f ∈ p.functions, ∀ l ∈ function table f, Legible l.text := by
    intro f hf
    have hproper := hp.functions f hf
    refine List.forall_mem_cons.mpr ⟨legible_header hproper, legible_braced 0 ?_⟩
    exact List.forall_mem_append.mpr
      ⟨legible_declarations (h f.name), (puts_block 1 hproper.body [] []).legible⟩
  have hmainFunction : ∀ l ∈ mainFunction table p.body, Legible l.text := by
    refine List.forall_mem_cons.mpr ⟨hmain, legible_braced 0 ?_⟩
    refine List.forall_mem_append.mpr ⟨List.forall_mem_append.mpr
      ⟨legible_declarations (h _), (puts_block 1 hp.body [] []).legible⟩, ?_⟩
    exact List.forall_mem_singleton.mpr hreturn
  -- the include and an empty line, the functions, and the main function behind another
  unfold lines
  refine List.forall_mem_append.mpr ⟨List.forall_mem_append.mpr ⟨?_, ?_⟩, ?_⟩
  · exact List.forall_mem_cons.mpr ⟨hinclude, List.forall_mem_singleton.mpr hblank⟩
  · intro l hl
    obtain ⟨f, hf, hl⟩ := List.mem_flatMap.mp hl
    exact hfunction f hf l hl
  · exact List.forall_mem_cons.mpr ⟨hblank, hmainFunction⟩

/-- The functions of a program one after another, each by `topDeclarations_scope`. -/
theorem topDeclarations_functions (table : SymbolTable) {fs : List Function}
    (hfs : ∀ f ∈ fs, f.Proper) (more : List (List Char)) :
    topDeclarations 0 (written (fs.flatMap (function table)) ++ more) =
      fs.map (fun f => (table.symbols f.name).map declaration) ++ topDeclarations 0 more := by
  induction fs with
  | nil => rfl
  | cons f fs ih =>
    obtain ⟨hf, hmore⟩ := List.forall_mem_cons.mp hfs
    -- the lines of the first function lead back to depth zero
    rw [List.flatMap_cons, written_append, List.append_assoc, function,
      topDeclarations_scope table f.name (topDeclarations_header f) (inner_block 1 hf.body),
      ih hmore]
    rfl

/-- **The declarations of an emitted program**: for each function in order those of the scope that
goes by its name, and for the main function those of the module. -/
theorem topDeclarations_emit (width : Nat) {table : SymbolTable} {p : Program} (hp : p.Proper)
    (h : ∀ scope, ∀ s ∈ table.symbols scope, IsName s.name) :
    topDeclarations 0 (codeLines (emit width table p)) =
      p.functions.map (fun f => (table.symbols f.name).map declaration) ++
        [(table.symbols SymbolTable.moduleName).map declaration] := by
  have hreturn : Inner [⟨1, "return 0;"⟩] :=
    inner_line 1 (Piece.ofLine?_giveBack "0") ⟨nofun, nofun, nofun⟩
  have hheader : ∀ more, topDeclarations 0 (written [⟨0, "int main()"⟩] ++ more) =
      topDeclarations 0 more := fun _ => rfl
  have hmain := topDeclarations_scope table SymbolTable.moduleName hheader
    ((inner_block 1 hp.body).append hreturn) []
  rw [emit, codeLines_render width (legible_lines hp h), lines, written_append, written_append,
    List.append_assoc]
  -- the include is no brace, and empty lines are not among the lines of code
  show topDeclarations 0 (written (p.functions.flatMap (function table)) ++
    written (mainFunction table p.body)) = _
  rw [topDeclarations_functions table hp.functions, mainFunction, List.append_assoc]
  rw [List.append_nil] at hmain
  rw [hmain]
  rfl

/-- The variables that are annotated in a function, each as it is declared. -/
def ownDeclarations (f : Function) : List (String × String) :=
  (Stmt.annotationsOfBlock f.body).map declaration

/-- The declarations of all functions of a name. -/
def namedDeclarations (fs : List Function) (name : String) : List (String × String) :=
  (fs.filter fun f => f.name = name).flatMap ownDeclarations

/-- The scope of a function holds the annotations of all functions of its name. A name is never that
of the module's own scope. -/
theorem declared_function {p : Program} (hp : p.Proper) {f : Function} (hf : f ∈ p.functions) :
    (p.declared f.name).map declaration = namedDeclarations p.functions f.name := by
  have hname := ne_moduleName_of_isName (hp.functions f hf).name
  rw [Program.declared, if_neg hname, List.map_flatMap]
  rfl

/-- Nothing is declared for a name exactly if no function of that name has an annotation. -/
theorem namedDeclarations_eq_nil_iff {fs : List Function} {name : String} :
    namedDeclarations fs name = [] ↔ ∀ f ∈ fs, f.name = name → ownDeclarations f = [] := by
  simp [namedDeclarations, List.flatMap_eq_nil_iff]

/-- All declarations of a name come from one function of the name exactly if the others have
none. -/
theorem namedDeclarations_eq_own_iff (before : List Function) (f : Function)
    (after : List Function) :
    namedDeclarations (before ++ f :: after) f.name = ownDeclarations f ↔
      ∀ g ∈ before ++ after, g.name = f.name → ownDeclarations g = [] := by
  have hsplit : namedDeclarations (before ++ f :: after) f.name =
      namedDeclarations before f.name ++ (ownDeclarations f ++ namedDeclarations after f.name) := by
    simp [namedDeclarations]
  rw [hsplit, List.forall_mem_append, ← namedDeclarations_eq_nil_iff,
    ← namedDeclarations_eq_nil_iff]
  constructor
  · intro h
    -- the lists around its own add nothing to the length
    have hlength := congrArg List.length h
    rw [List.length_append, List.length_append] at hlength
    exact ⟨List.length_eq_zero_iff.mp (by omega), List.length_eq_zero_iff.mp (by omega)⟩
  · rintro ⟨hbefore, hafter⟩
    rw [hbefore, hafter, List.nil_append, List.append_nil]

/-- **What the functions of a compiled text declare.** Each emitted function declares what is
annotated in the functions of its name, in order; the main function declares what is annotated in
the module's own statements. So a function declares what is annotated in it, and that only,
exactly if there is no annotation in any other function of its name. -/
theorem topDeclarations_of_compile {s : Settings} {text out : String}
    (h : Source.compile s text = .ok out) :
    ∃ table p, Source.parse s text = .ok (table, p) ∧
      topDeclarations 0 (codeLines out) =
        p.functions.map (fun f => namedDeclarations p.functions f.name) ++
          [(Stmt.annotationsOfBlock p.body).map declaration] ∧
      ∀ before f after, p.functions = before ++ f :: after →
        ((topDeclarations 0 (codeLines out))[before.length]? = some (ownDeclarations f) ↔
          ∀ g ∈ before ++ after, g.name = f.name → ownDeclarations g = []) := by
  obtain ⟨table, p, hp, rfl⟩ := Source.compile_eq_ok h
  have hread := (Source.parse_eq_ok_iff.mp hp).2
  have hproper := Source.analyze_proper hread
  have hsymbols := Source.analyze_symbols hread
  -- only names are declared, so the lines of declarations are legible
  have hnames : ∀ scope, ∀ a ∈ table.symbols scope, IsName a.name := by
    intro scope
    rw [hsymbols]
    exact Program.isName_declared hproper scope
  have htop : topDeclarations 0 (codeLines (emit s.indentWidth.toNat table p)) =
      p.functions.map (fun f => namedDeclarations p.functions f.name) ++
        [(Stmt.annotationsOfBlock p.body).map declaration] := by
    rw [topDeclarations_emit _ hproper hnames, hsymbols SymbolTable.moduleName]
    -- the module's own scope is settled; the functions are looked up one by one
    congr 1
    refine List.map_congr_left fun f hf => ?_
    rw [hsymbols, declared_function hproper hf]
  refine ⟨table, p, hp, htop, fun before f after hfunctions => ?_⟩
  rw [htop, hfunctions, ← namedDeclarations_eq_own_iff]
  simp

/-- A function that is defined twice, with different annotations, and another one between them. -/
def sharedText : String := String.join [
  "def f(a: int) -> None:\n",
  "    x: int\n",
  "def g() -> None:\n",
  "    b: bool\n",
  "def f(a: float) -> None:\n",
  "    y: int\n"]

/-- Both functions of the shared name declare the variables of the two, and the one between them
only its own. -/
theorem topDeclarations_sharedText :
    ∃ out, Source.compile .standard sharedText = .ok out ∧
      topDeclarations 0 (codeLines out) =
        [[("int", "x"), ("int", "y")], [("bool", "b")], [("int", "x"), ("int", "y")], []] ∧
      ∃ table p, Source.parse .standard sharedText = .ok (table, p) ∧
        ∀ before f after, p.functions = before ++ f :: after →
          ((topDeclarations 0 (codeLines out))[before.length]? = some (ownDeclarations f) ↔
            ∀ g ∈ before ++ after, g.name = f.name → ownDeclarations g = []) := by
  have htop : (Source.compile .standard sharedText).toOption.map (topDeclarations 0 ∘ codeLines) =
      some [[("int", "x"), ("int", "y")], [("bool", "b")], [("int", "x"), ("int", "y")], []] := by
    decide +kernel
  cases hout : Source.compile .standard sharedText with
  | error fault =>
    rw [hout] at htop
    cases htop
  | ok out =>
    rw [hout] at htop
    obtain ⟨table, p, hp, -, hown⟩ := topDeclarations_of_compile hout
    exact ⟨out, rfl, Option.some.inj htop, table, p, hp, hown⟩

/-- The first of the two functions declares the variable of the second, and the second that of the
first. -/
theorem compile_sharedText :
    (Source.compile .standard sharedText).toOption = some (String.join [
      "#include <iostream>\n",
      "\n",
      "void f(int a)\n",
      "\x7b\n",
      "    int x;\n",
      "    int y;\n",
      "\x7d\n",
      "void g()\n",
      "\x7b\n",
      "    bool b;\n",
      "\x7d\n",
      "void f(float a)\n",
      "\x7b\n",
      "    int x;\n",
      "    int y;\n",
      "\x7d\n",
      "\n",
      "int main()\n",
      "\x7b\n",
      "    return 0;\n",
      "\x7d\n"]) := by
  decide +kernel

end Offside.Cpp
