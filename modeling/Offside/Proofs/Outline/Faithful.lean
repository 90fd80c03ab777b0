import Offside.Proofs.Blocks.Agreement
import Offside.Proofs.Cpp.Distinct
import Offside.Proofs.Outline.Drawing
import Offside.Proofs.RoundTrip.Source
import Offside.Proofs.Scopes

/-!
# What the tree view shows

The tree view shows a whole symbol table, positions included, and of a program everything but its
positions (`render_eq_iff`).

That a drawing determines its tree is known (`draw_inj`). What is left is that the trees determine
what they are made from. The label of a symbol is taken apart at its colon and its spaces
(`Symbol.text_inj`). The labels of a program, each with its depth, are the rows of its canonical
text without the colons (`rowsAll_parts`). Since a row is read as its words, equal labels have
equal words (`Clause.words_eq_of_label`), and a program is derived from its words in one way only
(`Program.unplaced_eq_of_shown`). That conditionals are flattened into siblings is no loss: the
grammar finds the chains again.
-/

namespace Offside

open Token Linewise

/-! ### Labels of clauses -/

/-- A colon at the end of a line is a word of its own. -/
theorem Linewise.Spelled.colon_end {signed : Bool} {cs : List Char} {ws : List Word}
    (h : Spelled signed cs ws) : Spelled signed (cs ++ [':']) (ws ++ [.plain .colon]) := by
  -- word by word: what comes after a word is a colon or what came after it before
  induction h with
  | nil => exact .colon .nil
  | blank _ ih => exact .blank ih
  | lexeme hm hd _ ih =>
    rw [List.append_assoc]
    refine .lexeme hm (hd.imp_left fun hd => ?_) ih
    intro c hc
    rw [List.head?_append, Option.mem_def, Option.or_eq_some_iff] at hc
    obtain hc | ⟨-, hc⟩ := hc
    · exact hd c hc
    · obtain rfl : ':' = c := Option.some.inj hc
      decide

/-- A text is spelled with one list of words only, because a line is read to one list of tokens
(`Spelled.tokens_ok`). -/
theorem Linewise.Spelled.words_eq {cs : List Char} {ws ws' : List Word}
    (h : Spelled true cs ws) (h' : Spelled true cs ws') : ws = ws' := by
  have hsigned : true = !(none : Option Kind).any Kind.endsOperand := rfl
  obtain ⟨ts, hts, rfl⟩ := h.tokens_ok 1 1 hsigned
  obtain ⟨ts', hts', rfl⟩ := h'.tokens_ok 1 1 hsigned
  rw [hts] at hts'
  rw [Except.ok.inj hts']

namespace Clause

open Outline

/-- A clause as it is shown: the header of a block has no colon. -/
def label : Clause → String
  | .loop condition => "while " ++ expression condition
  | .choose condition => "if " ++ expression condition
  | .chooseNext condition => "elif " ++ expression condition
  | .otherwise => "else"
  | .define name params returnType =>
    "def " ++ name ++ "(" ++ String.intercalate ", " (params.map Param.text) ++ ") -> "
      ++ returnType.text
  | c => c.text

/-- Whether the clause is the header of a block. -/
def isHeader : Clause → Bool
  | .loop _ | .choose _ | .chooseNext _ | .otherwise | .define _ _ _ => true
  | .assign _ _ _ | .declare _ _ | .giveBack _ | .print _ | .call _ => false

/-- A clause is its label, and a colon if it is a header. -/
theorem text_eq_label (c : Clause) : c.text = c.label ++ if c.isHeader then ":" else "" := by
  cases c with
  | otherwise => rfl
  | loop => rfl
  | choose => rfl
  | chooseNext => rfl
  | define => rfl
  | _ => exact String.append_empty.symm

/-- The kinds of word with which headers begin. -/
def headerKinds : List Kind := [.whileWord, .ifWord, .elifWord, .elseWord, .defWord]

/-- The first word of a clause tells whether it is a header. -/
theorem isHeader_eq (c : Clause) :
    c.isHeader = c.words.head?.any fun w => headerKinds.contains w.1 := by
  cases c with
  | assign target type value => cases type <;> rfl
  | giveBack value => cases value <;> rfl
  | _ => rfl

/-- A header is not shown like another clause. -/
theorem label_ne {c c' : Clause} (hc : c.WellFormed) (hc' : c'.WellFormed)
    (hheader : c.isHeader = true) (hheader' : c'.isHeader = false) : c.label ≠ c'.label := by
  intro h
  -- the header would be the other clause with a colon behind it, and begin with its first word
  have htext : c.text.toList = c'.text.toList ++ [':'] := by
    rw [text_eq_label c, text_eq_label c', hheader, hheader', h]
    simp
  have hwords : c.words = c'.words ++ [.plain .colon] := by
    have hspelled := spelled_text hc
    rw [htext] at hspelled
    exact hspelled.words_eq (spelled_text hc').colon_end
  rw [isHeader_eq] at hheader hheader'
  rw [hwords] at hheader
  cases hw : c'.words with
  | nil =>
    rw [hw] at hheader
    exact absurd hheader (by decide)
  | cons w ws =>
    rw [hw] at hheader hheader'
    exact Bool.false_ne_true (hheader'.symm.trans hheader)

/-- **Clauses that are shown alike have the same words.** Both are headers or neither is
(`label_ne`), so their texts are the same too, and a text has one list of words
(`Spelled.words_eq`). -/
theorem words_eq_of_label {c c' : Clause} (hc : c.WellFormed) (hc' : c'.WellFormed)
    (h : c.label = c'.label) : c.words = c'.words := by
  -- whether the clause opens a block shows in its label
  have hheader : c.isHeader = c'.isHeader := by
    cases hc₁ : c.isHeader <;> cases hc₂ : c'.isHeader
    · rfl
    · exact absurd h.symm (label_ne hc' hc hc₂ hc₁)
    · exact absurd h (label_ne hc hc' hc₁ hc₂)
    · rfl
  have htext : c.text = c'.text := by rw [text_eq_label, text_eq_label, h, hheader]
  exact (spelled_text hc).words_eq (htext ▸ spelled_text hc')

/-- A label is on one line. -/
theorem not_mem_label {c : Clause} (hc : c.WellFormed) : '\n' ∉ c.label.toList := by
  intro hmem
  have htext : '\n' ∈ c.text.toList := by
    rw [text_eq_label, String.toList_append]
    exact List.mem_append_left _ hmem
  exact absurd ((spelled_text hc).not_isGap '\n' htext) (by decide)

end Clause

/-! ### The labels of a program -/

/-- A row as it is shown. -/
def Row.shown (r : Row) : Nat × String := (r.depth, r.clause.label)

namespace Outline

mutual

/-- The labels below a statement are its rows, each at its depth. A conditional is shown as
siblings, one for each branch, just as it is written. -/
theorem rowsAll_statement (depth : Nat) :
    ∀ s : Stmt, rowsAll depth (statement s) = (s.rows depth).map Row.shown
  | .assign _ none _ _ => rfl
  | .assign _ (some _) _ _ => rfl
  | .declare _ _ _ => rfl
  | .giveBack none _ => rfl
  | .giveBack (some _) _ => rfl
  | .print _ _ => rfl
  | .call _ => rfl
  | .loop condition body _ => by
    -- only a statement with a body has rows below its own
    rw [statement, rowsAll, rowsAt, rowsAll_block (depth + 1) body, rowsAll, List.append_nil]
    rfl
  | .choose bs none _ => rowsAll_branches depth "if" .choose (fun _ => rfl) bs
  | .choose bs (some body) _ => by
    rw [statement, rowsAll_append, rowsAll_branches depth "if" .choose (fun _ => rfl) bs, rowsAll,
      rowsAt, rowsAll_block (depth + 1) body, rowsAll, List.append_nil, Stmt.rows, List.map_append]
    rfl

theorem rowsAll_block (depth : Nat) :
    ∀ ss : List Stmt, rowsAll depth (block ss) = (Stmt.rowsOfBlock depth ss).map Row.shown
  | [] => rfl
  | s :: ss => by
    rw [block, rowsAll_append, rowsAll_statement depth s, rowsAll_block depth ss,
      Stmt.rowsOfBlock, List.map_append]

theorem rowsAll_branches (depth : Nat) (word : String) (header : Expr → Clause)
    (hheader : ∀ e, (header e).label = word ++ " " ++ expression e) :
    ∀ bs : List Branch, rowsAll depth (branches word bs) =
      (Stmt.rowsOfBranches depth header bs).map Row.shown
  | [] => rfl
  | .mk condition body _ :: bs => by
    rw [branches, rowsAll, rowsAt, rowsAll_block (depth + 1) body,
      rowsAll_branches depth "elif" .chooseNext (fun _ => rfl) bs, Stmt.rowsOfBranches,
      List.map_cons, List.map_append, Row.shown, hheader]
    rfl

end

/-- The trees below the root of a program. -/
def parts (p : Program) : List Outline := p.functions.map function ++ block p.body

/-- **The labels of a program are its rows**, without the colons of headers. -/
theorem rowsAll_parts (p : Program) : rowsAll 0 (parts p) = p.rows.map Row.shown := by
  have hfunction : ∀ f, rowsAt 0 (function f) = f.rows.map Row.shown := by
    intro f
    rw [function, rowsAt, rowsAll_block 1 f.body]
    rfl
  -- the functions come first, one after the other
  have hfunctions : ∀ fs : List Function,
      rowsAll 0 (fs.map function) = (fs.flatMap Function.rows).map Row.shown := by
    intro fs
    induction fs with
    | nil => rfl
    | cons f fs ih =>
      rw [List.map_cons, rowsAll, hfunction, ih, List.flatMap_cons, List.map_append]
  rw [parts, rowsAll_append, hfunctions, rowsAll_block, Program.rows, List.map_append]

/-- The tree of a program: a root, and the trees of its parts. -/
theorem program_eq (p : Program) :
    program p = .node (if p.isEmpty then "Program: (empty)" else "Program") (parts p) := by
  unfold program parts
  obtain ⟨fs, ss⟩ := p
  cases fs with
  | nil =>
    cases ss with
    | nil => rfl
    | cons s ss => rfl
  | cons f fs => rfl

end Outline

/-! ### Programs with the same rows -/

/-- The words that are left do not depend on more than the depths and the words of the rows. -/
theorem Row.following_congr {rows rows' : List Row}
    (h : (rows.map fun r => (r.depth, r.clause.words)) =
      rows'.map fun r => (r.depth, r.clause.words)) (depth : Nat) :
    following depth rows = following depth rows' := by
  -- row by row: the depth says how many blocks are closed, and the words are the same
  induction rows generalizing rows' depth with
  | nil =>
    obtain rfl := List.map_eq_nil_iff.mp h.symm
    rfl
  | cons r rows ih =>
    obtain ⟨r', rows', rfl, hr, hrows⟩ := List.map_eq_cons_iff.mp h.symm
    obtain ⟨hdepth, hwords⟩ := Prod.mk.inj hr
    rw [following, following, ih hrows.symm, hdepth, hwords]

/-- The same of the words from the first row on, which may open a block (`Row.following_congr`). -/
theorem Row.resumed_congr {rows rows' : List Row}
    (h : (rows.map fun r => (r.depth, r.clause.words)) =
      rows'.map fun r => (r.depth, r.clause.words)) (depth : Nat) :
    resumed depth rows = resumed depth rows' := by
  cases rows with
  | nil =>
    obtain rfl := List.map_eq_nil_iff.mp h.symm
    rfl
  | cons r rows =>
    -- only the depths and the words of the rows are looked at
    have hfollowing := following_congr h depth
    obtain ⟨r', rows', rfl, hr, hrows⟩ := List.map_eq_cons_iff.mp h.symm
    obtain ⟨hdepth, hwords⟩ := Prod.mk.inj hr
    rw [resumed, resumed, hfollowing, hdepth, hwords, following_congr hrows.symm]

namespace Program

/-- Tokens with the words of a program are parsed, and what comes out is the program: it is derived
from them (`module_of_words`), and its declarations agree. -/
theorem parse_of_words {p : Program} (hp : p.WellFormed) {ts : List Token}
    (h : ts.map word = Row.resumed 0 p.rows) :
    ∃ table q, Parser.parse ts = .ok (table, q) ∧ q.unplaced = p.unplaced := by
  obtain ⟨q, hq, hqp⟩ := module_of_words hp h
  -- consistency does not depend on positions, so it passes over to what was read
  have hconsistent : Consistent q.annotations := by
    have hlog := hp.consistent
    rwa [← consistent_unplaced, ← annotations_unplaced, ← hqp, annotations_unplaced,
      consistent_unplaced] at hlog
  refine ⟨_, q, Parser.parse_eq_ok_iff.mpr ⟨_, hq, (program_of_parts q).symm, ?_, rfl⟩, hqp⟩
  rwa [annotations_of_parts]

/-- **Programs that are shown alike are the same**, but for their positions. Their rows have the
same words (`Clause.words_eq_of_label`), and from the same words only one program is parsed
(`parse_of_words`). -/
theorem unplaced_eq_of_shown {p p' : Program} (hp : p.WellFormed) (hp' : p'.WellFormed)
    (h : p.rows.map Row.shown = p'.rows.map Row.shown) : p.unplaced = p'.unplaced := by
  have hrows : (p.rows.map fun r => (r.depth, r.clause.words)) =
      p'.rows.map fun r => (r.depth, r.clause.words) := by
    refine Cpp.map_eq_of_map_eq _ _ (fun r hr r' hr' hshown => ?_) h
    obtain ⟨hdepth, hlabel⟩ := Prod.mk.inj hshown
    rw [hdepth, Clause.words_eq_of_label (wellFormed_rows hp r hr) (wellFormed_rows hp' r' hr')
      hlabel]
  -- both programs come out of the same tokens
  have hwords : ((Row.resumed 0 p.rows).map fun w => (⟨w.1, w.2, .start⟩ : Token)).map word =
      Row.resumed 0 p.rows := by
    rw [List.map_map]
    exact List.map_id _
  obtain ⟨table, q, hq, hqp⟩ := parse_of_words hp hwords
  rw [Row.resumed_congr hrows] at hwords hq
  obtain ⟨table', q', hq', hqp'⟩ := parse_of_words hp' hwords
  obtain ⟨-, rfl⟩ := Prod.mk.inj (Except.ok.inj (hq.symm.trans hq'))
  rw [← hqp, hqp']

end Program

/-! ### Symbols -/

/-- Numbers with the same digits are the same. -/
theorem toString_nat_inj {m n : Nat} (h : toString m = toString n) : m = n := by
  have hdigits : Nat.toDigits 10 m = Nat.toDigits 10 n := by
    rw [← Nat.toList_repr, ← Nat.toList_repr]
    exact congrArg String.toList h
  calc
    m = Nat.ofDigitChars 10 (Nat.toDigits 10 m) 0 := Nat.ofDigitChars_ten_toDigits.symm
    _ = Nat.ofDigitChars 10 (Nat.toDigits 10 n) 0 := by rw [hdigits]
    _ = n := Nat.ofDigitChars_ten_toDigits

/-- A number is written with digits. -/
theorem isDigit_toString {n : Nat} {c : Char} (hc : c ∈ (toString n).toList) :
    c.isDigit = true := by
  have hmem : c ∈ Nat.toDigits 10 n := by rwa [← Nat.toList_repr]
  exact Nat.isDigit_of_mem_toDigits (by decide) (by decide) hmem

/-- Positions with the same text are the same: the line is what stands before the colon. -/
theorem Span.text_inj {s s' : Span} (h : s.text = s'.text) : s = s' := by
  -- the text is cut at its only colon
  have hcolon : ∀ n : Nat, ':' ∉ (toString n).toList := fun n hmem =>
    absurd (isDigit_toString hmem) (by decide)
  have hchars := congrArg String.toList h
  simp only [text, String.toList_append, List.append_assoc] at hchars
  obtain ⟨hline, hcolumn⟩ := Cpp.cut_inj (hcolon _) (hcolon _) hchars
  obtain ⟨line, column⟩ := s
  obtain ⟨line', column'⟩ := s'
  rw [Span.mk.injEq]
  exact ⟨toString_nat_inj (String.toList_inj.mp hline),
    toString_nat_inj (String.toList_inj.mp hcolumn)⟩

namespace Symbol

/-- **A symbol is told by its label.** The name ends at the colon, which is no part of a name, and
the type at the space behind it. -/
theorem text_inj {a b : Symbol} (ha : IsName a.name) (hb : IsName b.name)
    (h : a.text = b.text) : a = b := by
  have hblank : ∀ type : ValueType, ' ' ∉ type.text.toList := by
    intro type
    cases type <;> decide
  have hchars := congrArg String.toList h
  simp only [text, String.toList_append, List.append_assoc] at hchars
  -- cut at the colon, and then at the blank behind the type
  obtain ⟨hname, hrest⟩ := Cpp.cut_inj (Cpp.not_mem_name ha (by decide))
    (Cpp.not_mem_name hb (by decide)) hchars
  obtain ⟨htext, hspan⟩ := Cpp.cut_inj (hblank _) (hblank _) (List.cons.inj hrest).2
  obtain ⟨name, type, span⟩ := a
  obtain ⟨name', type', span'⟩ := b
  rw [Symbol.mk.injEq]
  exact ⟨String.toList_inj.mp hname, Cpp.text_inj (String.toList_inj.mp htext),
    Span.text_inj (String.toList_inj.mp (List.cons.inj hspan).2)⟩

/-- The label of a symbol is on one line. -/
theorem not_mem_text {a : Symbol} (ha : IsName a.name) : '\n' ∉ a.text.toList := by
  have hname : '\n' ∉ a.name.toList := Cpp.not_mem_name ha (by decide)
  have htype : '\n' ∉ a.type.text.toList := by cases a.type <;> decide
  have hnumber : ∀ n : Nat, '\n' ∉ (toString n).toList := fun n hmem =>
    absurd (isDigit_toString hmem) (by decide)
  simp only [text, Span.text, String.toList_append, List.mem_append, hname, htype, hnumber]
  decide

end Symbol

namespace Outline

/-- Scopes with the same label have the same name: only the scope of the module is shown without a
`def`. -/
theorem scopeLabel_inj {name name' : String} (h : scopeLabel name = scopeLabel name') :
    name = name' := by
  -- no function is labelled as the module is
  have hne : ∀ s : String, "<module>" ≠ "def " ++ s := by
    intro s hs
    have hchars := congrArg String.toList hs
    rw [String.toList_append] at hchars
    exact absurd (List.cons.inj hchars).1 (by decide)
  unfold scopeLabel at h
  split_ifs at h with hname hname' hname'
  · rw [beq_iff_eq.mp hname, beq_iff_eq.mp hname']
  · exact absurd h (hne name')
  · exact absurd h.symm (hne name)
  · exact (String.append_right_inj "def ").mp h

/-- The tree of a scope. -/
def scope (s : Scope) : Outline := .node (scopeLabel s.name) (s.symbols.map fun a => leaf a.text)

/-- The tree of a symbol table: a root, and the trees of its scopes. -/
theorem symbols_eq (t : SymbolTable) :
    symbols t = .node (if t.isEmpty then "Symbols: (empty)" else "Symbols")
      (t.scopes.map scope) := by
  obtain ⟨scopes⟩ := t
  cases scopes <;> rfl

/-- **A symbol table is told by its tree**, if its variables have names. -/
theorem scopes_inj {t t' : SymbolTable} (ht : ∀ s ∈ t.scopes, ∀ a ∈ s.symbols, IsName a.name)
    (ht' : ∀ s ∈ t'.scopes, ∀ a ∈ s.symbols, IsName a.name)
    (h : t.scopes.map scope = t'.scopes.map scope) : t = t' := by
  obtain ⟨scopes⟩ := t
  obtain ⟨scopes'⟩ := t'
  have hscopes : scopes.map id = scopes'.map id := by
    refine Cpp.map_eq_of_map_eq id id (fun s hs s' hs' hscope => ?_) h
    -- a scope: its label gives its name, and each leaf gives a symbol
    obtain ⟨hname, hsymbols⟩ := Outline.node.inj hscope
    have hall : s.symbols.map id = s'.symbols.map id :=
      Cpp.map_eq_of_map_eq id id (fun a ha b hb hleaf =>
        Symbol.text_inj (ht s hs a ha) (ht' s' hs' b hb) (Outline.node.inj hleaf).1) hsymbols
    rw [List.map_id, List.map_id] at hall
    obtain ⟨name, symbols⟩ := s
    obtain ⟨name', symbols'⟩ := s'
    exact (Scope.mk.injEq _ _ _ _).mpr ⟨scopeLabel_inj hname, hall⟩
  rw [List.map_id, List.map_id] at hscopes
  rw [hscopes]

end Outline

/-! ### What a text is read to -/

mutual

/-- A proper statement without empty blocks is well formed. -/
theorem Stmt.wellFormed_of_filled : ∀ s : Stmt, s.Proper → s.Filled → s.WellFormed
  | .assign _ _ _ _, h, _ => h
  | .declare _ _ _, h, _ => h
  | .giveBack none _, _, _ => trivial
  | .giveBack (some _) _, h, _ => h
  | .print _ _, h, _ => h
  | .call _, h, _ => h
  -- the body is not empty, which `Proper` does not say
  | .loop _ body _, h, hf => ⟨h.1, hf.1, Stmt.wellFormedBlock_of_filled body h.2 hf.2⟩
  | .choose bs none _, h, hf => ⟨h.1, Stmt.wellFormedBranches_of_filled bs h.2 hf.2⟩
  | .choose bs (some body) _, h, hf =>
    ⟨h.1, Stmt.wellFormedBranches_of_filled bs h.2.1 hf.2.1, hf.2.2.1,
      Stmt.wellFormedBlock_of_filled body h.2.2 hf.2.2.2⟩

theorem Stmt.wellFormedBlock_of_filled :
    ∀ ss : List Stmt, Stmt.ProperBlock ss → Stmt.FilledBlock ss → Stmt.WellFormedBlock ss
  | [], _, _ => trivial
  | s :: ss, h, hf =>
    ⟨Stmt.wellFormed_of_filled s h.1 hf.1, Stmt.wellFormedBlock_of_filled ss h.2 hf.2⟩

theorem Stmt.wellFormedBranches_of_filled :
    ∀ bs : List Branch, Stmt.ProperBranches bs → Stmt.FilledBranches bs →
      Stmt.WellFormedBranches bs
  | [], _, _ => trivial
  | .mk _ body _ :: bs, h, hf =>
    ⟨⟨h.1.1, hf.1.1, Stmt.wellFormedBlock_of_filled body h.1.2 hf.1.2⟩,
      Stmt.wellFormedBranches_of_filled bs h.2 hf.2⟩

end

/-- What a program declares is declared by one of the parts it is made of. -/
theorem Grammar.Item.mem_annotations {is : List Item} {a : String × Symbol}
    (ha : a ∈ (Item.program is).annotations) : a ∈ is.flatMap Item.annotations := by
  induction is with
  | nil => exact ha
  | cons i is ih =>
    rw [List.flatMap_cons, List.mem_append]
    cases i with
    | function f =>
      rw [Item.program, Program.annotations, List.flatMap_cons, List.append_assoc,
        List.mem_append] at ha
      exact ha.imp_right ih
    -- the functions stand before the statements in a program, and the parts in any order
    | statement s =>
      rw [Item.program, Program.annotations, Stmt.annotationsOfBlock, List.map_append,
        List.mem_append, List.mem_append, or_left_comm, ← List.mem_append] at ha
      exact ha.imp_right ih

namespace Source

open Grammar

variable {tabWidth : UInt64} {text : String} {table : SymbolTable} {p : Program}

/-- **The program of a text is well formed**: it is proper (`analyze_proper`), none of its blocks is
empty (`Module.nested`), and its declarations agree. -/
theorem analyze_wellFormed (h : analyze tabWidth text = .ok (table, p)) : p.WellFormed := by
  have hproper := analyze_proper h
  obtain ⟨ts, hts, hparse⟩ := analyze_eq_ok_iff.mp h
  obtain ⟨is, his, rfl, hconsistent, -⟩ := Parser.parse_eq_ok_iff.mp hparse
  have hfilled := Item.filled_program (his.nested (tokenize_laid hts).1).1
  -- properness comes from the lexer, bodies that are not empty from the layout
  refine ⟨fun f hf => ?_, Stmt.wellFormedBlock_of_filled _ hproper.body hfilled.body, ?_⟩
  · have hf' := hproper.functions f hf
    obtain ⟨hne, hbody⟩ := hfilled.functions f hf
    exact ⟨hf'.name, hf'.params, hne, Stmt.wellFormedBlock_of_filled _ hf'.body hbody⟩
  · exact fun a ha b hb =>
      hconsistent a (Item.mem_annotations ha) b (Item.mem_annotations hb)

/-- The scopes of a text have names, but for that of the module, and so have their variables. -/
theorem analyze_isName (h : analyze tabWidth text = .ok (table, p)) : ∀ scope ∈ table.scopes,
    (scope.name = SymbolTable.moduleName ∨ IsName scope.name) ∧
      ∀ a ∈ scope.symbols, IsName a.name := by
  intro scope hscope
  have hproper := analyze_proper h
  obtain ⟨hne, hsymbols⟩ := (analyze_tidy h).mem_scopes_iff.mp hscope
  rw [analyze_symbols h] at hsymbols
  refine ⟨?_, hsymbols ▸ Program.isName_declared hproper scope.name⟩
  -- only the functions of the program declare variables outside the module's own scope
  by_cases hmodule : scope.name = SymbolTable.moduleName
  · exact .inl hmodule
  · rw [hsymbols, Program.declared, if_neg hmodule] at hne
    obtain ⟨a, ha⟩ := List.exists_mem_of_ne_nil _ hne
    obtain ⟨f, hf, -⟩ := List.mem_flatMap.mp ha
    obtain ⟨hf, hname⟩ := List.mem_filter.mp hf
    exact .inr (of_decide_eq_true hname ▸ (hproper.functions f hf).name)

end Source

namespace Outline

variable {tabWidth : UInt64} {text : String} {table : SymbolTable} {p : Program}

/-- The labels of a symbol table are on one line each, since all names in it are names
(`Source.analyze_isName`). -/
theorem legible_scopes (h : Source.analyze tabWidth text = .ok (table, p)) :
    Legible (table.scopes.map scope) := by
  have hnames := Source.analyze_isName h
  -- siblings without children first, and then the scopes they belong to
  have hleaves : ∀ as : List Symbol, (∀ a ∈ as, IsName a.name) →
      ∀ row ∈ rowsAll 1 (as.map fun a => leaf a.text), '\n' ∉ row.2.toList := by
    intro as has
    induction as with
    | nil => exact nofun
    | cons a as ih =>
      obtain ⟨ha, has⟩ := List.forall_mem_cons.mp has
      exact List.forall_mem_cons.mpr ⟨Symbol.not_mem_text ha, ih has⟩
  unfold Legible
  generalize table.scopes = scopes at hnames ⊢
  induction scopes with
  | nil => exact nofun
  | cons sc scopes ih =>
    obtain ⟨⟨hname, hsymbols⟩, hscopes⟩ := List.forall_mem_cons.mp hnames
    rw [List.map_cons, rowsAll, scope, rowsAt, List.forall_mem_append, List.forall_mem_cons]
    refine ⟨⟨?_, hleaves sc.symbols hsymbols⟩, ih hscopes⟩
    obtain hmodule | hname := hname
    · rw [scopeLabel, if_pos (beq_iff_eq.mpr hmodule)]
      decide
    · rw [scopeLabel, if_neg (mt beq_iff_eq.mp (ne_moduleName_of_isName hname)),
        String.toList_append, List.mem_append]
      exact fun hmem => hmem.elim (by decide) (Cpp.not_mem_name hname (by decide))

/-- The labels of a program are on one line each (`rowsAll_parts`, `Clause.not_mem_label`). -/
theorem legible_parts (hp : p.WellFormed) : Legible (parts p) := by
  unfold Legible
  rw [rowsAll_parts]
  exact List.forall_mem_map.mpr fun r hr => Clause.not_mem_label (Program.wellFormed_rows hp r hr)

/-- So the drawing of a symbol table consists of lines. -/
theorem isLine_symbols (h : Source.analyze tabWidth text = .ok (table, p)) :
    ∀ line ∈ (symbols table).draw, IsLine line := by
  rw [symbols_eq]
  refine isLine_draw ?_ (legible_scopes h)
  split_ifs <;> exact ⟨by decide, by decide⟩

/-- So does that of a program. -/
theorem isLine_program (hp : p.WellFormed) : ∀ line ∈ (program p).draw, IsLine line := by
  rw [program_eq]
  refine isLine_draw ?_ (legible_parts hp)
  split_ifs <;> exact ⟨by decide, by decide⟩

/-- The first line of a program does not begin like a line that belongs to a tree before it. -/
theorem apart_program (p : Program) : Apart "" (program p).draw := by
  have hmark : 'P' ∉ marks := by decide
  rw [program_eq]
  intro line hline c hc hbegins
  cases hline
  have hhead : c = 'P' := by
    split_ifs at hbegins <;> exact (List.cons_prefix_cons.mp hbegins).1
  exact hmark (hhead ▸ hc)

/-! ### Positions are not shown -/

/-- An expression is shown without its position. -/
theorem expression_unplaced (e : Expr) : expression e.unplaced = expression e := by
  cases e <;> rfl

mutual

/-- A statement is shown without its position and without those in it. -/
theorem statement_unplaced : ∀ s : Stmt, statement s.unplaced = statement s
  | .assign _ none value _ => by
    rw [Stmt.unplaced, statement, statement, expression_unplaced]
  | .assign _ (some _) value _ => by
    rw [Stmt.unplaced, statement, statement, expression_unplaced]
  | .declare _ _ _ => rfl
  | .giveBack none _ => rfl
  | .giveBack (some value) _ => by
    rw [Stmt.unplaced, Option.map_some, statement, statement, expression_unplaced]
  | .print args _ => by
    have hargs : (args.map Expr.unplaced).map expression = args.map expression := by
      rw [List.map_map]
      exact List.map_congr_left fun e _ => expression_unplaced e
    rw [Stmt.unplaced, statement, statement, hargs]
  | .call _ => rfl
  | .loop condition body _ => by
    rw [Stmt.unplaced, statement, statement, expression_unplaced, block_unplaced body]
  | .choose bs none _ => branches_unplaced "if" bs
  | .choose bs (some body) _ => by
    rw [Stmt.unplaced, statement, statement, branches_unplaced "if" bs, block_unplaced body]

theorem block_unplaced : ∀ ss : List Stmt, block (Stmt.unplacedBlock ss) = block ss
  | [] => rfl
  | s :: ss => by
    rw [Stmt.unplacedBlock, block, block, statement_unplaced s, block_unplaced ss]

theorem branches_unplaced (word : String) :
    ∀ bs : List Branch, branches word (Stmt.unplacedBranches bs) = branches word bs
  | [] => rfl
  | .mk condition body _ :: bs => by
    rw [Stmt.unplacedBranches, branches, branches, expression_unplaced, block_unplaced body,
      branches_unplaced "elif" bs]

end

/-- A program is shown without its positions (`block_unplaced`). -/
theorem program_unplaced (p : Program) : program p.unplaced = program p := by
  have hempty : p.unplaced.isEmpty = p.isEmpty := by
    obtain ⟨fs, ss⟩ := p
    cases fs <;> cases ss <;> rfl
  -- a function is drawn without its place
  have hfunctions :
      (p.functions.map Function.unplaced).map function = p.functions.map function := by
    rw [List.map_map]
    refine List.map_congr_left fun f _ => ?_
    show function f.unplaced = function f
    unfold function
    exact congrArg (Outline.node _) (block_unplaced f.body)
  rw [program_eq, program_eq, hempty, parts, parts, Program.unplaced, hfunctions, block_unplaced]

/-! ### The tree view -/

/-- **The tree view is faithful, with any tab width.** The lines of the two views are the same
(`Cpp.intercalate_inj`), so their drawings are, and a drawing determines what is drawn (`draw_inj`):
the scopes (`scopes_inj`), and of a well-formed program all but its positions
(`Program.unplaced_eq_of_shown`). -/
theorem render_eq_iff_of_analyze {tabWidth tabWidth' : UInt64} {text text' : String}
    {table table' : SymbolTable} {p p' : Program}
    (h : Source.analyze tabWidth text = .ok (table, p))
    (h' : Source.analyze tabWidth' text' = .ok (table', p')) :
    render table p = render table' p' ↔ table = table' ∧ p.unplaced = p'.unplaced := by
  have hp := Source.analyze_wellFormed h
  have hp' := Source.analyze_wellFormed h'
  constructor
  · intro hrender
    have hlines : (symbols table).draw ++ (program p).draw =
        (symbols table').draw ++ (program p').draw :=
      Cpp.intercalate_inj "\n" rfl
        (List.forall_mem_append.mpr ⟨isLine_symbols h, isLine_program hp⟩)
        (List.forall_mem_append.mpr ⟨isLine_symbols h', isLine_program hp'⟩) hrender
    -- the line of the program's root is not drawn like a part of the symbol table
    obtain ⟨hsymbols, hdraw⟩ := draw_inj (apart_program p) (apart_program p') hlines
    rw [← List.append_nil (program p).draw, ← List.append_nil (program p').draw] at hdraw
    obtain ⟨hprogram, -⟩ := draw_inj (apart_nil "") (apart_nil "") hdraw
    rw [symbols_eq, symbols_eq] at hsymbols
    rw [program_eq, program_eq] at hprogram
    refine ⟨scopes_inj (fun sc hsc => (Source.analyze_isName h sc hsc).2)
      (fun sc hsc => (Source.analyze_isName h' sc hsc).2) (Outline.node.inj hsymbols).2, ?_⟩
    apply Program.unplaced_eq_of_shown hp hp'
    rw [← rowsAll_parts, ← rowsAll_parts, (Outline.node.inj hprogram).2]
  · rintro ⟨rfl, hunplaced⟩
    rw [render, render, ← program_unplaced p, ← program_unplaced p', hunplaced]

/-- **The tree view is faithful.** For the results of reading two texts, the tree views are the same
exactly if the symbol tables are equal, order and positions included, and the programs are equal but
for their positions. -/
theorem render_eq_iff {s s' : Settings} {text text' : String} {table table' : SymbolTable}
    {p p' : Program} (h : Source.parse s text = .ok (table, p))
    (h' : Source.parse s' text' = .ok (table', p')) :
    render table p = render table' p' ↔ table = table' ∧ p.unplaced = p'.unplaced :=
  render_eq_iff_of_analyze (Source.parse_eq_ok_iff.mp h).2 (Source.parse_eq_ok_iff.mp h').2

/-- A chain of branches in a function, with a variable of its own. -/
def branchedText : String := String.join [
  "def f(a: int) -> bool:\n",
  "  if a < 1:\n",
  "    b: float = -0.5\n",
  "  elif not a:\n",
  "    print(a, f(2))\n",
  "  else:\n",
  "    return b\n",
  "f(3)\n"]

/-- The same declaration at the same place, and all else laid out and spelled in another way. -/
def spreadText : String := String.join [
  "def f(a:int)->bool: # f\n",
  "  if a<1:\n",
  "    b: float = -0.50\n",
  "  elif not a:\n",
  "   print(a,f(2),)\n",
  "  else:\n",
  "     return b\n",
  "\n",
  "f( 3 )\n"]

/-- Both texts are read to the same table, and the views are the same although the last statement
stands on another line. -/
theorem render_spreadText :
    ∃ table p p', Source.parse .standard branchedText = .ok (table, p) ∧
      Source.parse .standard spreadText = .ok (table, p') ∧
      render table p = render table p' ∧ p.unplaced = p'.unplaced ∧ p ≠ p' := by
  have hboth : ((Source.parse .standard branchedText).toOption.bind fun r =>
      (Source.parse .standard spreadText).toOption.map fun r' =>
        (decide (render r.1 r.2 = render r'.1 r'.2), r.2.body.map Stmt.span,
          r'.2.body.map Stmt.span)) = some (true, [⟨8, 1⟩], [⟨9, 1⟩]) := by
    decide +kernel
  cases h : Source.parse .standard branchedText with
  | error fault =>
    rw [h] at hboth
    cases hboth
  | ok parsed =>
    cases h' : Source.parse .standard spreadText with
    | error fault =>
      rw [h, h'] at hboth
      cases hboth
    | ok parsed' =>
      obtain ⟨table, p⟩ := parsed
      obtain ⟨table', p'⟩ := parsed'
      rw [h, h'] at hboth
      obtain ⟨hview, hspans⟩ := Prod.mk.inj (Option.some.inj hboth)
      obtain ⟨rfl, hunplaced⟩ := (render_eq_iff h h').mp (of_decide_eq_true hview)
      refine ⟨table, p, p', rfl, rfl, of_decide_eq_true hview, hunplaced, ?_⟩
      -- the programs are different, as their statements stand on different lines
      rintro rfl
      obtain ⟨hspan, hspan'⟩ := Prod.mk.inj hspans
      exact absurd (hspan.symm.trans hspan') (by decide)

end Outline

end Offside
