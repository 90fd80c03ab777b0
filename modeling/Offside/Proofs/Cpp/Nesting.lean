import Offside.Diagnostic
import Offside.Proofs.Cpp.Determined

/-!
# Indentation and braces

The depth of a line in emitted code is handed down through statements, blocks and branches, and the
braces are written beside it. That the two agree is read off the emitted text alone: each line
stands as deep as there are more braces opened than closed before it.

Lines are followed one after another, from one depth to another (`Nested`): a line that opens a
brace goes one level down, a line that closes one comes back up, and every other line stays. What is
written for a statement comes back to the depth it began at, whatever the statement holds, also
where no source text could have held it (`nested_statement`).

* `openings`, `closings` — the lines of a text that are a brace;
* `Nested.depth_eq` — the depth of a line, counted out in the braces before it;
* `emit_indentation` — the indentation of emitted code is that of its braces.
-/

namespace Offside.Cpp

open Token Linewise

/-! ### Braces of a text -/

/-- A line without the spaces before it. -/
def unindented (line : List Char) : List Char := line.dropWhile (· = ' ')

/-- How many lines are an opening brace. -/
def openings (lines : List (List Char)) : Nat := lines.countP (unindented · = ['\x7b'])

/-- How many lines are a closing brace. -/
def closings (lines : List (List Char)) : Nat := lines.countP (unindented · = ['\x7d'])

/-! ### Lines that are no brace -/

/-- All of the names are identifiers: a letter or an underscore, and then letters, digits and
underscores. -/
def Identifiers (names : List String) : Prop := ∀ name ∈ names, isWord name.toList = true

instance : DecidablePred Identifiers := fun names => inferInstanceAs (Decidable (∀ name ∈ names, _))

/-- A line that can be found again in a text, and that is not a brace. -/
structure Ordinary (text : String) : Prop where
  legible : Legible text
  opening : text ≠ "\x7b"
  closing : text ≠ "\x7d"

/-- The text begins with a word. -/
def BeginsWord (text : String) : Prop := text.toList.head?.any isWordPart = true

instance : DecidablePred BeginsWord := fun _ => inferInstanceAs (Decidable (_ = true))

/-- Whatever is written behind it, a text goes on beginning with its word. -/
theorem BeginsWord.append {s : String} (h : BeginsWord s) (t : String) : BeginsWord (s ++ t) := by
  unfold BeginsWord at h ⊢
  cases hs : s.toList with
  | nil =>
    rw [hs] at h
    cases h
  | cons c cs => simpa [hs] using h

/-- The start of a word is part of a word. -/
theorem beginsWord_of_isWord {s : String} (h : isWord s.toList = true) : BeginsWord s := by
  obtain ⟨c, cs, hcs, hc, -⟩ := isWord_iff.mp h
  rw [BeginsWord, hcs]
  exact isWordPart_of_isWordStart hc

/-- What begins with a word begins neither with a space nor with a brace. -/
theorem BeginsWord.ordinary {text : String} (h : BeginsWord text) (hline : Unbroken text) :
    Ordinary text := by
  -- a blank and the two braces are no part of a word
  have hhead : ∀ c, isWordPart c = false → text.toList.head? ≠ some c := by
    intro c hc heq
    rw [BeginsWord, heq, Option.any_some, hc] at h
    cases h
  refine ⟨⟨hline, hhead ' ' (by decide)⟩, ?_, ?_⟩
  · rintro rfl
    exact hhead '\x7b' (by decide) rfl
  · rintro rfl
    exact hhead '\x7d' (by decide) rfl

/-! ### From depth to depth -/

/-- **Lines that lead from one depth to another.** -/
inductive Nested : Nat → List Line → Nat → Prop
  | nil {depth : Nat} : Nested depth [] depth
  | opening {depth last : Nat} {ls : List Line} : Nested (depth + 1) ls last →
    Nested depth (⟨depth, "\x7b"⟩ :: ls) last
  | closing {depth last : Nat} {ls : List Line} : Nested depth ls last →
    Nested (depth + 1) (⟨depth, "\x7d"⟩ :: ls) last
  | line {depth last : Nat} {text : String} {ls : List Line} : Ordinary text →
    Nested depth ls last → Nested depth (⟨depth, text⟩ :: ls) last

namespace Nested

variable {depth middle last : Nat} {ls ls' : List Line}

/-- Lines that lead on from where others end. -/
theorem append (h : Nested depth ls middle) (h' : Nested middle ls' last) :
    Nested depth (ls ++ ls') last := by
  induction h with
  | nil => exact h'
  | opening _ ih => exact .opening (ih h')
  | closing _ ih => exact .closing (ih h')
  | line htext _ ih => exact .line htext (ih h')

/-- What stands between braces is one level deeper. -/
theorem braced (h : Nested (depth + 1) ls (depth + 1)) : Nested depth (braced depth ls) depth :=
  .opening (h.append (.closing .nil))

/-- Braces are legible, and every other line is by `Ordinary`. -/
theorem legible (h : Nested depth ls last) : ∀ l ∈ ls, Legible l.text := by
  have hopening : Legible "\x7b" := ⟨by decide, by decide⟩
  have hclosing : Legible "\x7d" := ⟨by decide, by decide⟩
  induction h with
  | nil => exact List.forall_mem_nil _
  | opening _ ih => exact List.forall_mem_cons.mpr ⟨hopening, ih⟩
  | closing _ ih => exact List.forall_mem_cons.mpr ⟨hclosing, ih⟩
  | line htext _ ih => exact List.forall_mem_cons.mpr ⟨htext.legible, ih⟩

/-- Lines go on from the depth that those before them lead to. -/
theorem split (h : Nested depth (ls ++ ls') last) :
    ∃ middle, Nested depth ls middle ∧ Nested middle ls' last := by
  induction ls generalizing depth with
  | nil => exact ⟨depth, .nil, h⟩
  | cons l ls ih =>
    -- the constructor is that of the first line; the induction splits what follows it
    cases h with
    | opening h =>
      obtain ⟨middle, hls, hls'⟩ := ih h
      exact ⟨middle, .opening hls, hls'⟩
    | closing h =>
      obtain ⟨middle, hls, hls'⟩ := ih h
      exact ⟨middle, .closing hls, hls'⟩
    | line htext h =>
      obtain ⟨middle, hls, hls'⟩ := ih h
      exact ⟨middle, .line htext hls, hls'⟩

/-- **The depth that lines lead to**: the braces that they open, less those that they close. -/
theorem last_eq (h : Nested depth ls last) :
    last + ls.countP (·.text = "\x7d") = depth + ls.countP (·.text = "\x7b") := by
  induction h with
  | nil => rfl
  | opening _ ih =>
    -- one more opened, and one level more to come back from
    rw [List.countP_cons_of_neg (by simp), List.countP_cons_of_pos (by simp)]
    omega
  | closing _ ih =>
    rw [List.countP_cons_of_pos (by simp), List.countP_cons_of_neg (by simp)]
    omega
  | line htext _ ih =>
    rwa [List.countP_cons_of_neg (by simpa using htext.closing),
      List.countP_cons_of_neg (by simpa using htext.opening)]

/-- **The depth of a line**: a line that closes a brace counts as behind it. -/
theorem depth_eq {l : Line} (h : Nested depth (ls ++ l :: ls') last) :
    l.depth + (ls ++ [l]).countP (·.text = "\x7d") = depth + ls.countP (·.text = "\x7b") := by
  obtain ⟨middle, hls, hl⟩ := h.split
  have hmiddle := hls.last_eq
  rw [List.countP_append, List.countP_singleton]
  cases hl with
  | opening _ =>
    rw [if_neg (by simp)]
    exact hmiddle
  | @closing depth' =>
    rw [if_pos (by simp)]
    -- the closing brace itself stands one level less deep than the lines before it lead to
    show depth' + (_ + 1) = _
    omega
  | line htext _ =>
    rw [if_neg (by simpa using htext.closing)]
    exact hmiddle

end Nested

/-! ### Statements -/

/-- The names of an expression are those of its operands. -/
theorem names_eq (e : Expr) : e.names = (operands e).flatMap Operand.names := by
  cases e with
  | call c => rfl
  | operation o => rw [operands, List.flatMap_cons, List.flatMap_map]; rfl

/-- The text of a number has no line break in it, whether the number is finite or not. -/
theorem unbroken_float (x : Binary64) : Unbroken x.text := by
  have hsign : Unbroken x.signText := by
    unfold Binary64.signText
    split_ifs <;> decide
  -- a finite number is a lexeme, and the others are words of their own
  by_cases hx : x.isFinite = true
  · exact unbroken_lexeme (meaning?_float hx)
  · unfold Binary64.text
    split_ifs
    · decide
    · exact unbroken_append hsign (by decide)
    · simp_all
    · simp_all

/-- An identifier is a lexeme, and no lexeme has a line break in it. -/
theorem unbroken_word {s : String} (h : isWord s.toList = true) : Unbroken s :=
  unbroken_lexeme (meaning?_of_isWord h)

/-- An expression has no line break if its names have none. -/
theorem Identifiers.unbroken {e : Expr} (h : Identifiers e.names) : Unbroken (expression e) := by
  refine unbroken_of_operands fun x hx => ?_
  -- only a name could have one, and it is an identifier
  rcases x with s | n | v | b
  · have hmem : s ∈ e.names := by
      rw [names_eq]
      exact List.mem_flatMap.mpr ⟨_, hx, List.mem_singleton_self s⟩
    exact unbroken_word (h s hmem)
  · exact unbroken_lexeme (meaning?_int n)
  · exact unbroken_float v
  · cases b <;> decide

/-- A line with an expression in it. -/
theorem ordinary_around {before after : String} {e : Expr} (hstart : BeginsWord before)
    (hbefore : Unbroken before) (he : Identifiers e.names) (hafter : Unbroken after) :
    Ordinary (before ++ expression e ++ after) :=
  ((hstart.append _).append _).ordinary
    (unbroken_append (unbroken_append hbefore he.unbroken) hafter)

mutual

/-- **A statement comes back to the depth it began at.** -/
theorem nested_statement (depth : Nat) {s : Stmt} (hs : Identifiers s.names) :
    Nested depth (statement depth s) depth := by
  match s, hs with
  | .assign target type value span, hs =>
    -- every line begins with a word, so it is ordinary; only a block leads further down
    obtain ⟨htarget, hvalue⟩ := List.forall_mem_cons.mp hs
    have hstart := (beginsWord_of_isWord htarget).append " = "
    have hbefore := unbroken_append (unbroken_word htarget) (by decide : Unbroken " = ")
    exact .line (ordinary_around hstart hbefore hvalue (by decide)) .nil
  | .declare name type span, hs => exact .nil
  | .giveBack none span, hs =>
    have hstart : BeginsWord "return;" := by decide
    exact .line (hstart.ordinary (by decide)) .nil
  | .giveBack (some value) span, hs =>
    have hstart : BeginsWord "return " := by decide
    exact .line (ordinary_around hstart (by decide) hs (by decide)) .nil
  | .loop condition body span, hs =>
    obtain ⟨hcondition, hbody⟩ := List.forall_mem_append.mp hs
    have hstart : BeginsWord "while(" := by decide
    exact .line (ordinary_around hstart (by decide) hcondition (by decide))
      (nested_block (depth + 1) hbody).braced
  | .choose bs none span, hs => exact nested_branches depth (by decide) (by decide) hs
  | .choose bs (some body) span, hs =>
    obtain ⟨hbs, hbody⟩ := List.forall_mem_append.mp hs
    have helse : BeginsWord "else" := by decide
    exact (nested_branches depth (by decide) (by decide) hbs).append
      (.line (helse.ordinary (by decide)) (nested_block (depth + 1) hbody).braced)
  | .print args span, hs =>
    have hargs : ∀ e ∈ args, Unbroken (expression e) := fun e he =>
      Identifiers.unbroken fun name hname => hs name (List.mem_flatMap.mpr ⟨e, he, hname⟩)
    have hstart : BeginsWord "std::cout << " := by decide
    exact .line (((hstart.append _).append _).ordinary (unbroken_printText hargs)) .nil
  | .call c, hs =>
    have hcall : Identifiers (Expr.call c).names := hs
    have hstart := beginsWord_of_isWord (List.forall_mem_cons.mp hs).1
    exact .line (((((hstart.append _).append _).append _).append _).ordinary
      (unbroken_append hcall.unbroken (by decide))) .nil

/-- Each statement comes back, so the next begins where it did. -/
theorem nested_block (depth : Nat) {ss : List Stmt} (hss : Identifiers (Stmt.namesOfBlock ss)) :
    Nested depth (block depth ss) depth := by
  match ss, hss with
  | [], _ => exact .nil
  | s :: ss, hss =>
    obtain ⟨hs, hmore⟩ := List.forall_mem_append.mp hss
    exact (nested_statement depth hs).append (nested_block depth hmore)

/-- Branches come back to the depth they began at, whatever word the first begins with. -/
theorem nested_branches (depth : Nat) {word : String} (hstart : BeginsWord word)
    (hword : Unbroken word) {bs : List Branch} (hbs : Identifiers (Stmt.namesOfBranches bs)) :
    Nested depth (branches depth word bs) depth := by
  match bs, hbs with
  | [], _ => exact .nil
  | .mk condition body span :: bs, hbs =>
    obtain ⟨hfirst, hmore⟩ := List.forall_mem_append.mp hbs
    obtain ⟨hcondition, hbody⟩ := List.forall_mem_append.mp hfirst
    have hbefore := unbroken_append hword (by decide : Unbroken "(")
    -- the header is a line that begins with a word, whatever the condition is
    have hheader :=
      ordinary_around (hstart.append "(") hbefore hcondition (by decide : Unbroken ")")
    exact (Nested.line hheader (nested_block (depth + 1) hbody).braced).append
      (nested_branches depth (by decide) (by decide) hmore)

end

/-! ### Programs -/

/-- Declarations stand one level deep, at the top of their function. -/
theorem nested_declarations {table : SymbolTable} {scope : String}
    (h : Identifiers ((table.symbols scope).map Symbol.name)) :
    Nested 1 (declarations table scope) 1 := by
  unfold declarations
  generalize table.symbols scope = symbols at h
  induction symbols with
  | nil => exact .nil
  | cons s symbols ih =>
    obtain ⟨hname, hmore⟩ := List.forall_mem_cons.mp h
    -- a declaration begins with its type, so it is an ordinary line
    have hstart : BeginsWord s.type.text := by cases s.type <;> decide
    have htext : Unbroken (s.type.text ++ " " ++ s.name ++ ";") :=
      unbroken_append (unbroken_append (unbroken_append (legible_type s.type).2.1 (by decide))
        (unbroken_word hname)) (by decide)
    exact .line ((((hstart.append _).append _).append _).ordinary htext) (ih hmore)

/-- A header, and between braces the declarations and the body. -/
theorem nested_function {table : SymbolTable} {f : Function} (hf : Identifiers f.names)
    (ht : Identifiers ((table.symbols f.name).map Symbol.name)) :
    Nested 0 (function table f) 0 := by
  obtain ⟨hheader, hbody⟩ := List.forall_mem_append.mp hf
  obtain ⟨hname, hparams⟩ := List.forall_mem_cons.mp hheader
  have hstart : BeginsWord f.returnType.cpp := by
    rcases f.returnType with (_ | _ | _) | _ <;> decide
  have hline : Unbroken (header f) := by
    have htype : Unbroken f.returnType.cpp := by
      rcases f.returnType with (_ | _ | _) | _ <;> decide
    have hparam : ∀ s ∈ f.params.map fun p => p.type.text ++ " " ++ p.name, Unbroken s := by
      refine List.forall_mem_map.mpr fun p hp => ?_
      exact unbroken_append (unbroken_append (legible_type p.type).2.1 (by decide))
        (unbroken_word (hparams p.name (List.mem_map_of_mem hp)))
    -- the header is put together from six texts
    exact unbroken_append (unbroken_append (unbroken_append (unbroken_append (unbroken_append htype
      (by decide)) (unbroken_word hname)) (by decide))
      (unbroken_intercalate (by decide) hparam)) (by decide)
  have hword : BeginsWord (header f) :=
    ((((hstart.append _).append _).append _).append _).append _
  exact .line (hword.ordinary hline) ((nested_declarations ht).append (nested_block 1 hbody)).braced

/-- **The lines of a program** come back to the depth of the text itself. -/
theorem nested_lines {table : SymbolTable} {p : Program} (hp : Identifiers p.names)
    (ht : ∀ scope, Identifiers ((table.symbols scope).map Symbol.name)) :
    Nested 0 (lines table p) 0 := by
  obtain ⟨hfunctions, hbody⟩ := List.forall_mem_append.mp hp
  have hblank : Ordinary "" := ⟨⟨by decide, by decide⟩, by decide, by decide⟩
  have hinclude : Ordinary "#include <iostream>" := ⟨⟨by decide, by decide⟩, by decide, by decide⟩
  have hmain : BeginsWord "int main()" := by decide
  have hreturn : BeginsWord "return 0;" := by decide
  -- functions one after another, each from the margin back to it
  have hmiddle : Nested 0 (p.functions.flatMap (function table)) 0 := by
    generalize p.functions = fs at hfunctions
    induction fs with
    | nil => exact .nil
    | cons f fs ih =>
      obtain ⟨hf, hfs⟩ := List.forall_mem_append.mp hfunctions
      exact (nested_function hf (ht f.name)).append (ih hfs)
  have hinner := ((nested_declarations (ht SymbolTable.moduleName)).append
    (nested_block 1 hbody)).append (.line (hreturn.ordinary (by decide)) .nil)
  exact .line hinclude (.line hblank (hmiddle.append
    (.line hblank (.line (hmain.ordinary (by decide)) hinner.braced))))

/-! ### Emitted text -/

/-- A line that can be found again is a brace in the text exactly if it is one by itself. -/
theorem countP_chars (width : Nat) {ls : List Line} (h : ∀ l ∈ ls, Legible l.text)
    (brace : String) :
    (ls.map (Line.chars width)).countP (unindented · = brace.toList) =
      ls.countP (·.text = brace) := by
  rw [List.countP_map]
  refine List.countP_congr fun l hl => ?_
  simp [unindented, l.dropWhile_chars width (h l hl), String.toList_inj]

/-- Opening braces counted in the text, and among the lines. -/
theorem openings_chars (width : Nat) {ls : List Line} (h : ∀ l ∈ ls, Legible l.text) :
    openings (ls.map (Line.chars width)) = ls.countP (·.text = "\x7b") :=
  countP_chars width h "\x7b"

/-- The same for closing braces. -/
theorem closings_chars (width : Nat) {ls : List Line} (h : ∀ l ∈ ls, Legible l.text) :
    closings (ls.map (Line.chars width)) = ls.countP (·.text = "\x7d") :=
  countP_chars width h "\x7d"

/-- A legible line does not begin with a space, so the spaces before it are its indentation. -/
theorem takeWhile_chars (width : Nat) {l : Line} (h : Legible l.text) :
    ((l.chars width).takeWhile (· = ' ')).length = width * l.depth := by
  have hlength : (l.chars width).length = width * l.depth + l.text.toList.length := by
    rw [Line.chars, List.length_append, List.length_replicate, Nat.mul_comm]
  rw [← List.takeWhile_append_dropWhile (p := (· = ' ')) (l := l.chars width),
    List.length_append, l.dropWhile_chars width h] at hlength
  exact Nat.add_right_cancel hlength

/-- The lines of the emitted text are those that were put together, as none has a line break in it.
-/
theorem linesOf_emit (width : Nat) {table : SymbolTable} {p : Program}
    (h : ∀ l ∈ lines table p, Legible l.text) :
    Diagnostic.linesOf (emit width table p).toList = (lines table p).map (Line.chars width) := by
  rw [Diagnostic.linesOf, emit, splitOn_render width fun l hl => (h l hl).1]
  simp

/-- **The indentation of emitted code is that of its braces**, for every table and every program
whose names are identifiers, and every width of indentation. Each line begins with exactly the width
in spaces for each brace that is opened and not closed before it, where a line that closes a brace
counts as behind it; no more braces are closed than opened, and in the end as many. Without the
spaces before them the lines are the same for every width. -/
theorem emit_indentation {table : SymbolTable} {p : Program} (hp : Identifiers p.names)
    (ht : ∀ scope, Identifiers ((table.symbols scope).map Symbol.name)) (width : Nat) :
    let ls := Diagnostic.linesOf (emit width table p).toList
    (∀ before line after, ls = before ++ line :: after →
        closings (before ++ [line]) ≤ openings before ∧
          (line.takeWhile (· = ' ')).length =
            width * (openings before - closings (before ++ [line]))) ∧
      openings ls = closings ls ∧
      ∀ width', (Diagnostic.linesOf (emit width' table p).toList).map unindented =
        ls.map unindented := by
  intro ls
  have hnested := nested_lines hp ht
  have hlegible := hnested.legible
  have hls : ls = (lines table p).map (Line.chars width) := linesOf_emit width hlegible
  -- without their indentation the lines do not depend on the width
  have hplain : ∀ width', ((lines table p).map (Line.chars width')).map unindented =
      (lines table p).map (·.text.toList) := by
    intro width'
    rw [List.map_map]
    exact List.map_congr_left fun l hl => l.dropWhile_chars width' (hlegible l hl)
  refine ⟨fun before line after hsplit => ?_, ?_, fun width' => ?_⟩
  · -- the lines of the text are those of the program, one by one
    rw [hls] at hsplit
    obtain ⟨front, back, hlines, rfl, hback⟩ := List.map_eq_append_iff.mp hsplit
    obtain ⟨l, rest, rfl, rfl, rfl⟩ := List.map_eq_cons_iff.mp hback
    rw [hlines] at hlegible hnested
    have hdepth := hnested.depth_eq
    obtain ⟨hfront, hl⟩ := List.forall_mem_append.mp hlegible
    obtain ⟨hl, -⟩ := List.forall_mem_cons.mp hl
    have hupto : ∀ m ∈ front ++ [l], Legible m.text :=
      List.forall_mem_append.mpr ⟨hfront, List.forall_mem_singleton.mpr hl⟩
    have hclosings : closings (front.map (Line.chars width) ++ [l.chars width]) =
        (front ++ [l]).countP (·.text = "\x7d") := by
      rw [← closings_chars width hupto, List.map_append, List.map_singleton]
    rw [takeWhile_chars width hl, hclosings, openings_chars width hfront]
    refine ⟨by omega, congrArg (width * ·) (by omega)⟩
  · -- the lines lead from depth zero back to it
    rw [hls, openings_chars width hlegible, closings_chars width hlegible]
    have hlast := hnested.last_eq
    omega
  · rw [linesOf_emit width' hlegible, hls, hplain, hplain]

/-- A loop around a conditional that has no branch but an `else`. -/
def strayProgram : Program :=
  branching [.loop (.operation ⟨false, .name "a", []⟩)
    [.choose [] (some [.giveBack none ⟨4, 13⟩]) ⟨3, 9⟩] ⟨2, 5⟩]

/-- With a width of three, the line that gives back stands nine spaces in: the three braces of the
function, of the loop and of the `else` are open there. -/
theorem emit_strayProgram :
    let ls := Diagnostic.linesOf (emit 3 branchingTable strayProgram).toList
    (∃ before after, ls = before ++ "         return;".toList :: after ∧ openings before = 3 ∧
        closings (before ++ ["         return;".toList]) = 0) ∧
      openings ls = closings ls := by
  intro ls
  -- the table has one symbol, so its names are checked there
  have hlog : ∀ entry ∈ [("f", (⟨"x", .int, ⟨2, 5⟩⟩ : Symbol))],
      isWord entry.2.name.toList = true := by decide
  have htable : ∀ scope, Identifiers ((branchingTable.symbols scope).map Symbol.name) := by
    intro scope
    refine List.forall_mem_map.mpr fun s hs => ?_
    exact hlog _ (SymbolTable.mem_symbols_ofLog.mp hs)
  obtain ⟨hlines, hbraces, -⟩ := emit_indentation (p := strayProgram) (by decide) htable 3
  have hsplit : ls = ls.take 9 ++ "         return;".toList :: ls.drop 10 := by decide +kernel
  obtain ⟨-, hspaces⟩ := hlines _ _ _ hsplit
  have hopen : openings (ls.take 9) = 3 := by decide +kernel
  refine ⟨⟨_, _, hsplit, hopen, ?_⟩, hbraces⟩
  rw [hopen] at hspaces
  have hnine : ("         return;".toList.takeWhile (· = ' ')).length = 9 := by decide
  omega

end Offside.Cpp
