import Offside.Program.Cpp
import Offside.Proofs.Binary64.ReadBack
import Offside.Proofs.Proper

/-!
# Reading emitted code

Emitted text read as C++ again, line by line and without looking at the program it came from. Each
line gives one or two **pieces**: a brace, the header of a loop or of a conditional, an `else`, or a
statement by itself. An `else if` is no piece: it is an `else`, and then an `if` that stands in it.

The pieces are put together from the last to the first. A header takes the statement that comes
after it, and an `if` takes an `else` too if there is one right behind that statement, which is how
an `else` belongs to the nearest `if` before it.

* `Code` — statements of C++, and `Code.read?` — the statements of a text;
* `Code.ofBlock` — the statements that a block stands for, where each `elif` is a conditional in the
  `else` of the one before it;
* `Code.read?_block` — the text of a block is read as the statements that the block stands for, at
  every depth and with every width of indentation.
-/

namespace Offside.Cpp

open Token Linewise

/-! ### Pieces -/

/-- A statement of C++ that stands on a line by itself. -/
inductive Action where
  | assign (target value : String)
  | giveBack (value : Option String)
  | print (text : String)
  | call (text : String)
  | declare (type name : String)
  deriving DecidableEq

/-- What a line of C++ is made of. -/
inductive Piece where
  | opening
  | closing
  | loop (condition : String)
  | branch (condition : String)
  | otherwise
  | action (a : Action)
  deriving DecidableEq

/-- What stands between a parenthesis and the one that ends the line. -/
def enclosed? : List Char → Option (List Char)
  | '(' :: cs => if cs.getLast? = some ')' then some cs.dropLast else none
  | _ => none

/-- What stands before the semicolon that ends the line. -/
def ended? (cs : List Char) : Option (List Char) :=
  if cs.getLast? = some ';' then some cs.dropLast else none

/-- The names of the types. -/
def typeWords : List (List Char) := ["int".toList, "float".toList, "bool".toList]

/-- A statement that begins with a word and goes on with other characters. A declaration is told by
the type it begins with, and a print statement by the stream that it writes to. -/
def Action.ofParts? (word rest : List Char) : Option Action :=
  if word = "return".toList then
    match ended? rest with
    | some [] => some (.giveBack none)
    | some (' ' :: value) => some (.giveBack (some (.ofList value)))
    | _ => none
  else if word = "std".toList ∧ "::cout << ".toList <+: rest then
    (ended? rest).map fun _ => .print (.ofList (word ++ rest))
  else if word ∈ typeWords then
    match rest with
    | ' ' :: cs => (ended? cs).map fun name => .declare (.ofList word) (.ofList name)
    | _ => none
  else if isWord word = false then none
  else
    match rest with
    | ' ' :: '=' :: ' ' :: cs => (ended? cs).map fun value => .assign (.ofList word) (.ofList value)
    | '(' :: cs =>
      ((ended? ('(' :: cs)).bind enclosed?).map fun args =>
        .call (.ofList (word ++ '(' :: (args ++ [')'])))
    | _ => none

/-- What a line begins with, if that is no `else`. -/
def Piece.ofStart? (line : List Char) : Option Piece :=
  let word := line.takeWhile isWordPart
  let rest := line.dropWhile isWordPart
  if line = ['\x7b'] then some .opening
  else if line = ['\x7d'] then some .closing
  else if word = "while".toList then (enclosed? rest).map fun c => .loop (.ofList c)
  else if word = "if".toList then (enclosed? rest).map fun c => .branch (.ofList c)
  else (Action.ofParts? word rest).map .action

/-- **The pieces of a line.** -/
def Piece.ofLine? (line : List Char) : Option (List Piece) :=
  if line.takeWhile isWordPart = "else".toList then
    match line.dropWhile isWordPart with
    | [] => some [.otherwise]
    | ' ' :: cs => (ofStart? cs).map fun p => [.otherwise, p]
    | _ => none
  else (ofStart? line).map fun p => [p]

/-! ### Statements -/

/-- A statement of C++. -/
inductive Code where
  | action (a : Action)
  | skip
  | compound (body : List Code)
  | loop (condition : String) (body : Code)
  | branch (condition : String) (yes no : Code)

/-- A statement that has been read, or one with an `else` before it that is still to be taken by an
`if`. -/
inductive Slot where
  | whole (c : Code)
  | otherwise (c : Code)

/-- The statements of a block, if each `else` in it was taken. -/
def wholes? : List Slot → Option (List Code)
  | [] => some []
  | .whole c :: slots => (wholes? slots).map (c :: ·)
  | .otherwise _ :: _ => none

/-- Put a piece before what has been read: the statements of the blocks that are open at this place,
the innermost first. -/
def Piece.put : Piece → List (List Slot) → Option (List (List Slot))
  | .action a, level :: outer => some ((.whole (.action a) :: level) :: outer)
  | .closing, levels => some ([] :: levels)
  | .opening, level :: next :: outer =>
    (wholes? level).map fun body => (.whole (.compound body) :: next) :: outer
  | .loop c, (.whole body :: level) :: outer => some ((.whole (.loop c body) :: level) :: outer)
  | .branch c, (.whole yes :: .otherwise no :: level) :: outer =>
    some ((.whole (.branch c yes no) :: level) :: outer)
  | .branch c, (.whole yes :: level) :: outer =>
    some ((.whole (.branch c yes .skip) :: level) :: outer)
  | .otherwise, (.whole c :: level) :: outer => some ((.otherwise c :: level) :: outer)
  | _, _ => none

/-- Put the pieces of a line before what has been read. -/
def putLine (line : List Char) (levels : List (List Slot)) : Option (List (List Slot)) := do
  let pieces ← Piece.ofLine? line
  pieces.foldrM Piece.put levels

/-- The lines of a text with something on them, without their indentation. -/
def codeLines (text : String) : List (List Char) :=
  ((text.toList.splitOn '\n').map (List.dropWhile (· = ' '))).filter (· ≠ [])

/-- **The statements of a text.** -/
def Code.read? (text : String) : Option (List Code) := do
  match ← (codeLines text).foldrM putLine [[]] with
  | [level] => wholes? level
  | _ => none

/-! ### What a block stands for -/

mutual

/-- The statements that a statement stands for; for a declaration there is none. -/
def Code.ofStmt : Stmt → List Code
  | .assign target _ value _ => [.action (.assign target (expression value))]
  | .declare _ _ _ => []
  | .giveBack value _ => [.action (.giveBack (value.map expression))]
  | .loop condition body _ => [.loop (expression condition) (.compound (ofBlock body))]
  | .choose bs none _ => [(ofBranches none bs).getD .skip]
  | .choose bs (some body) _ => [(ofBranches (some (.compound (ofBlock body))) bs).getD .skip]
  | .print args _ => [.action (.print (printText args))]
  | .call c => [.action (.call (c.spell .cpp))]

/-- **The statements that a block stands for.** -/
def Code.ofBlock : List Stmt → List Code
  | [] => []
  | s :: ss => ofStmt s ++ ofBlock ss

/-- The conditional that some branches and a last block stand for: each branch is in the `else` of
the one before it. -/
def Code.ofBranches (last : Option Code) : List Branch → Option Code
  | [] => last
  | .mk condition body _ :: bs =>
    some (.branch (expression condition) (.compound (ofBlock body))
      ((ofBranches last bs).getD .skip))

end

/-! ### Legible lines -/

/-- There is no line break in the text. -/
def Unbroken (s : String) : Prop := '\n' ∉ s.toList

instance (s : String) : Decidable (Unbroken s) := inferInstanceAs (Decidable (_ ∉ _))

/-- A line that can be found again in a text: it has no line break in it and no space before it. -/
def Legible (s : String) : Prop := Unbroken s ∧ s.toList.head? ≠ some ' '

/-- The characters of the lines that have any. -/
def written (ls : List Line) : List (List Char) := (ls.map (·.text.toList)).filter (· ≠ [])

/-- Lines one after the other are written one after the other. -/
theorem written_append (ls ls' : List Line) : written (ls ++ ls') = written ls ++ written ls' := by
  rw [written, List.map_append, List.filter_append]
  rfl

/-- A line with something on it is written. -/
theorem written_singleton {l : Line} (h : l.text.toList ≠ []) : written [l] = [l.text.toList] := by
  simp [written, h]

/-- The characters of a line, its indentation included. -/
def Line.chars (width : Nat) (l : Line) : List Char :=
  List.replicate (l.depth * width) ' ' ++ l.text.toList

/-- The lines of a text are found again where it is cut at its line breaks. -/
theorem splitOn_render (width : Nat) {ls : List Line} (h : ∀ l ∈ ls, Unbroken l.text) :
    (String.join (ls.map (Line.render width))).toList.splitOn '\n' =
      ls.map (Line.chars width) ++ [[]] := by
  induction ls with
  | nil => rfl
  | cons l ls ih =>
    obtain ⟨hline, hls⟩ := List.forall_mem_cons.mp h
    -- neither the indentation nor the text has a line break, so the first one is that at the end
    have hbreak : '\n' ∉ l.chars width := by
      rw [Line.chars, List.mem_append, not_or]
      exact ⟨fun hmem => absurd (List.eq_of_mem_replicate hmem) (by decide), hline⟩
    have htext : (l.render width).toList = l.chars width ++ ['\n'] := by
      rw [Line.render, String.toList_append, String.toList_append, String.toList_ofList, Line.chars]
      rfl
    rw [List.map_cons, String.join_cons, String.toList_append, htext, List.append_assoc,
      List.singleton_append, List.splitOn_append_cons_self_of_not_mem hbreak, ih hls]
    rfl

/-- The indentation of a line ends at its first character. -/
theorem Line.dropWhile_chars (width : Nat) {l : Line} (h : Legible l.text) :
    (l.chars width).dropWhile (· = ' ') = l.text.toList := by
  have hspaces : ∀ d ∈ List.replicate (l.depth * width) ' ', decide (d = ' ') = true := by
    intro d hd
    simpa using List.eq_of_mem_replicate hd
  rw [Line.chars, List.dropWhile_append_of_pos hspaces]
  cases htext : l.text.toList with
  | nil => rfl
  | cons c cs =>
    -- a legible text does not begin with a blank, so only the indentation is dropped
    have hc : c ≠ ' ' := by simpa [htext] using h.2
    exact List.dropWhile_cons_of_neg (by simpa using hc)

/-- Legible lines are found again in the text that they are written in. -/
theorem codeLines_render (width : Nat) {ls : List Line} (h : ∀ l ∈ ls, Legible l.text) :
    codeLines (String.join (ls.map (Line.render width))) = written ls := by
  have hdrop : ls.map (fun l => (l.chars width).dropWhile (· = ' ')) =
      ls.map (·.text.toList) :=
    List.map_congr_left fun l hl => l.dropWhile_chars width (h l hl)
  rw [codeLines, splitOn_render width fun l hl => (h l hl).1, List.map_append, List.filter_append,
    List.map_map, Function.comp_def, hdrop, written]
  simp

/-- Texts without line breaks, put together. -/
theorem unbroken_append {s t : String} (hs : Unbroken s) (ht : Unbroken t) : Unbroken (s ++ t) := by
  rw [Unbroken, String.toList_append, List.mem_append, not_or]
  exact ⟨hs, ht⟩

/-- Any number of them. -/
theorem unbroken_join {parts : List String} (h : ∀ s ∈ parts, Unbroken s) :
    Unbroken (String.join parts) := by
  induction parts with
  | nil => exact List.not_mem_nil
  | cons s parts ih =>
    obtain ⟨hs, hparts⟩ := List.forall_mem_cons.mp h
    rw [String.join_cons]
    exact unbroken_append hs (ih hparts)

/-- Any number of them with a separator. -/
theorem unbroken_intercalate {separator : String} {parts : List String}
    (hseparator : Unbroken separator) (h : ∀ s ∈ parts, Unbroken s) :
    Unbroken (String.intercalate separator parts) := by
  induction parts with
  | nil => exact List.not_mem_nil
  | cons s parts ih =>
    obtain ⟨hs, hparts⟩ := List.forall_mem_cons.mp h
    cases parts with
    | nil => rwa [String.intercalate_singleton]
    | cons t parts =>
      rw [String.intercalate_cons_cons]
      exact unbroken_append (unbroken_append hs hseparator) (ih hparts)

/-- What is read as one lexeme has no line break in it. -/
theorem unbroken_lexeme {s : String} {m : Meaning} (h : meaning? true s.toList = some m) :
    Unbroken s := by
  intro hmem
  exact absurd (not_isGap_of_meaning? h '\n' hmem) (by decide)

/-- A name is on one line. -/
theorem unbroken_name {s : String} (hs : IsName s) : Unbroken s :=
  unbroken_lexeme (meaning?_of_isWord hs.1)

/-- An operand is a name, a number as it is read, or a truth value. -/
theorem unbroken_operand {x : Operand} (hx : x.WellFormed) : Unbroken (x.spell .cpp) := by
  rcases x with text | n | v | b
  · exact unbroken_name hx
  · exact unbroken_lexeme (meaning?_int n)
  · exact unbroken_lexeme (meaning?_float hx)
  · cases b <;> decide

/-- The operands of an expression, the name of a call among them. -/
def operands : Expr → List Operand
  | .call c => .name c.name :: c.args
  | .operation o => o.first :: o.rest.map Prod.snd

/-- An expression is on one line if its operands are. -/
theorem unbroken_of_operands {e : Expr} (h : ∀ x ∈ operands e, Unbroken (x.spell .cpp)) :
    Unbroken (expression e) := by
  cases e with
  | call c =>
    obtain ⟨hname, hargs⟩ := List.forall_mem_cons.mp h
    exact unbroken_append (unbroken_append (unbroken_append hname (by decide))
      (unbroken_intercalate (by decide) (List.forall_mem_map.mpr hargs))) (by decide)
  | operation o =>
    obtain ⟨hfirst, hrest⟩ := List.forall_mem_cons.mp h
    refine unbroken_intercalate (by decide) fun s hs => ?_
    rcases List.mem_append.mp hs with hs | hs
    · split_ifs at hs with hnegated
      · cases List.mem_singleton.mp hs
        decide
      · cases hs
    · rcases List.mem_cons.mp hs with rfl | hs
      · exact hfirst
      · -- an operator, or the operand after it
        obtain ⟨⟨op, x⟩, hpair, hs⟩ := List.mem_flatMap.mp hs
        have hop : ∀ op : BinaryOp, Unbroken op.cpp := by
          intro op
          cases op <;> decide
        rcases List.mem_cons.mp hs with rfl | hs
        · exact hop op
        · cases List.mem_singleton.mp hs
          exact hrest x (List.mem_map.mpr ⟨_, hpair, rfl⟩)

/-- An expression of well-formed operands is on one line. -/
theorem unbroken_expression {e : Expr} (he : e.WellFormed) : Unbroken (expression e) := by
  refine unbroken_of_operands fun x hx => unbroken_operand ?_
  cases e with
  | call c =>
    have hname : (Operand.name c.name).WellFormed := he.1
    exact List.forall_mem_cons.mpr ⟨hname, he.2⟩ x hx
  | operation o => exact List.forall_mem_cons.mpr ⟨he.1, List.forall_mem_map.mpr he.2⟩ x hx

/-- So is a call by itself. -/
theorem unbroken_call {c : Call} (hc : c.WellFormed) : Unbroken (c.spell .cpp) := by
  have he : (Expr.call c).WellFormed := hc
  exact unbroken_expression he

/-- So is a print statement, however many values it has. -/
theorem unbroken_printText {args : List Expr} (h : ∀ e ∈ args, Unbroken (expression e)) :
    Unbroken (printText args) := by
  have hargs : ∀ s ∈ args.map (fun e => expression e ++ " << "), Unbroken s :=
    List.forall_mem_map.mpr fun e he => unbroken_append (h e he) (by decide)
  exact unbroken_append (unbroken_append (by decide) (unbroken_join hargs)) (by decide)

/-! ### Lines and their pieces -/

/-- A line that begins with a word is no brace. -/
theorem Piece.ofStart?_word {word rest : List Char} (hword : word.all isWordPart = true)
    (hne : word ≠ []) (hrest : ∀ c ∈ rest.head?, isWordPart c = false) :
    ofStart? (word ++ rest) =
      if word = "while".toList then (enclosed? rest).map fun c => .loop (.ofList c)
      else if word = "if".toList then (enclosed? rest).map fun c => .branch (.ofList c)
      else (Action.ofParts? word rest).map .action := by
  -- the two tests for a brace fail, since a word is no brace
  have hbrace : ∀ c, isWordPart c = false → word ++ rest ≠ [c] := by
    intro c hc h
    obtain ⟨d, ds, rfl⟩ := List.exists_cons_of_ne_nil hne
    rw [List.cons_append] at h
    injection h with hd
    rw [← hd, List.all_eq_true.mp hword d List.mem_cons_self] at hc
    cases hc
  obtain ⟨htake, hdrop⟩ := takeWhile_append_boundary hword hrest
  rw [ofStart?, htake, hdrop, if_neg (hbrace _ (by decide)), if_neg (hbrace _ (by decide))]

/-- A line that does not begin with `else` is one piece. -/
theorem Piece.ofLine?_word {word rest : List Char} (hword : word.all isWordPart = true)
    (hrest : ∀ c ∈ rest.head?, isWordPart c = false) (helse : word ≠ "else".toList) :
    ofLine? (word ++ rest) = (ofStart? (word ++ rest)).map fun p => [p] := by
  rw [ofLine?, (takeWhile_append_boundary hword hrest).1, if_neg helse]

/-- What was put in parentheses is found between them. The inner text may have parentheses of its
own, since only the first and the last character are looked at. -/
theorem enclosed?_parens (cs : List Char) : enclosed? ('(' :: (cs ++ [')'])) = some cs := by
  simp [enclosed?]

/-- What was ended by a semicolon is found before it. -/
theorem ended?_semicolon (cs : List Char) : ended? (cs ++ [';']) = some cs := by
  simp [ended?]

/-- The header of a loop. -/
theorem Piece.ofLine?_loop (c : String) :
    ofLine? ("while(" ++ c ++ ")").toList = some [.loop c] := by
  have htext : ("while(" ++ c ++ ")").toList = "while".toList ++ '(' :: (c.toList ++ [')']) := by
    simp
  have hrest : ∀ d ∈ ('(' :: (c.toList ++ [')'])).head?, isWordPart d = false :=
    boundary_cons (by decide)
  rw [htext, ofLine?_word (by decide) hrest (by decide),
    ofStart?_word (by decide) (by decide) hrest, if_pos rfl, enclosed?_parens, Option.map_some,
    Option.map_some, String.ofList_toList]

/-- The header of a conditional, at the beginning of a line or behind an `else`. -/
theorem Piece.ofStart?_branch (c : String) :
    ofStart? ("if".toList ++ '(' :: (c.toList ++ [')'])) = some (.branch c) := by
  have hrest : ∀ d ∈ ('(' :: (c.toList ++ [')'])).head?, isWordPart d = false :=
    boundary_cons (by decide)
  rw [ofStart?_word (by decide) (by decide) hrest, if_neg (by decide), if_pos rfl,
    enclosed?_parens, Option.map_some, String.ofList_toList]

/-- The line that begins a conditional. -/
theorem Piece.ofLine?_branch (c : String) :
    ofLine? ("if" ++ "(" ++ c ++ ")").toList = some [.branch c] := by
  have htext : ("if" ++ "(" ++ c ++ ")").toList = "if".toList ++ '(' :: (c.toList ++ [')']) := by
    simp
  have hrest : ∀ d ∈ ('(' :: (c.toList ++ [')'])).head?, isWordPart d = false :=
    boundary_cons (by decide)
  rw [htext, ofLine?_word (by decide) hrest (by decide), ofStart?_branch, Option.map_some]

/-- The line of a further branch is two pieces. -/
theorem Piece.ofLine?_otherwise_branch (c : String) :
    ofLine? ("else if" ++ "(" ++ c ++ ")").toList = some [.otherwise, .branch c] := by
  -- `else` is cut off as a word of its own, and the rest is read as a line that starts anew
  have htext : ("else if" ++ "(" ++ c ++ ")").toList =
      "else".toList ++ ' ' :: ("if".toList ++ '(' :: (c.toList ++ [')'])) := by
    simp
  have hrest : ∀ d ∈ (' ' :: ("if".toList ++ '(' :: (c.toList ++ [')']))).head?,
      isWordPart d = false := boundary_cons (by decide)
  have hword : "else".toList.all isWordPart = true := by decide
  obtain ⟨htake, hdrop⟩ := takeWhile_append_boundary hword hrest
  rw [htext, ofLine?, htake, hdrop, if_pos rfl]
  show (ofStart? _).map (fun p => [.otherwise, p]) = _
  rw [ofStart?_branch, Option.map_some]

/-- A statement that gives back a value. -/
theorem Piece.ofLine?_giveBack (c : String) :
    ofLine? ("return " ++ c ++ ";").toList = some [.action (.giveBack (some c))] := by
  have htext : ("return " ++ c ++ ";").toList = "return".toList ++ (' ' :: c.toList ++ [';']) := by
    simp
  have hrest : ∀ d ∈ (' ' :: c.toList ++ [';']).head?, isWordPart d = false :=
    boundary_cons (by decide)
  rw [htext, ofLine?_word (by decide) hrest (by decide),
    ofStart?_word (by decide) (by decide) hrest, if_neg (by decide), if_neg (by decide)]
  unfold Action.ofParts?
  rw [if_pos rfl, ended?_semicolon]
  simp

/-- A print statement, told by the stream it writes to. A name could begin like the word `std`, but
is not followed by a colon. -/
theorem Piece.ofLine?_print (args : List Expr) :
    ofLine? (printText args).toList = some [.action (.print (printText args))] := by
  obtain ⟨cs, hcs⟩ : ∃ cs, (printText args).toList =
      "std".toList ++ ("::cout << ".toList ++ cs ++ [';']) :=
    ⟨(String.join (args.map fun e => expression e ++ " << ")).toList ++ "std::endl".toList,
      by simp [printText]⟩
  have hrest : ∀ d ∈ ("::cout << ".toList ++ cs ++ [';']).head?, isWordPart d = false :=
    boundary_cons (by decide)
  -- the first word is `std`, and the stream is known from what follows it
  have hstream : "std".toList = "std".toList ∧
      "::cout << ".toList <+: "::cout << ".toList ++ cs ++ [';'] :=
    ⟨rfl, by rw [List.append_assoc]; exact List.prefix_append _ _⟩
  rw [hcs, ofLine?_word (by decide) hrest (by decide), ofStart?_word (by decide) (by decide) hrest,
    if_neg (by decide), if_neg (by decide)]
  unfold Action.ofParts?
  rw [if_neg (by decide), if_pos hstream, ended?_semicolon, ← hcs]
  simp

/-- A name is none of the words of the language. -/
theorem toList_ne_of_isName {s word : String} (hs : IsName s) (hword : Kind.ofWord? word ≠ none) :
    s.toList ≠ word.toList := by
  intro h
  rw [String.toList_inj] at h
  exact hword (h ▸ hs.2)

/-- A name is the name of no type. -/
theorem toList_not_mem_typeWords {s : String} (hs : IsName s) : s.toList ∉ typeWords := by
  intro hmem
  simp only [typeWords, List.mem_cons, List.not_mem_nil, or_false] at hmem
  rcases hmem with h | h | h
  all_goals exact absurd h (toList_ne_of_isName hs (by decide))

/-- A line that begins with a name is a statement by itself: the name is none of the words that the
other pieces begin with (`toList_ne_of_isName`). -/
theorem Piece.ofLine?_name {name : String} {rest : List Char} (hname : IsName name)
    (hrest : ∀ c ∈ rest.head?, isWordPart c = false) :
    ofLine? (name.toList ++ rest) =
      (Action.ofParts? name.toList rest).map fun a => [.action a] := by
  obtain ⟨c, cs, hcs, -, hparts⟩ := isWord_iff.mp hname.1
  rw [← List.all_eq_true] at hparts
  -- a name is neither a keyword that opens a line nor empty
  have hne : name.toList ≠ [] := by simp [hcs]
  rw [ofLine?_word hparts hrest (toList_ne_of_isName hname (by decide)),
    ofStart?_word hparts hne hrest, if_neg (toList_ne_of_isName hname (by decide)),
    if_neg (toList_ne_of_isName hname (by decide)), Option.map_map]
  rfl

/-- An assignment. -/
theorem Piece.ofLine?_assign {target : String} (htarget : IsName target) (value : String) :
    ofLine? (target ++ " = " ++ value ++ ";").toList = some [.action (.assign target value)] := by
  have htext : (target ++ " = " ++ value ++ ";").toList =
      target.toList ++ ' ' :: '=' :: ' ' :: (value.toList ++ [';']) := by
    simp
  rw [htext, ofLine?_name htarget (boundary_cons (by decide))]
  unfold Action.ofParts?
  -- a name is no keyword and no type, so the sign behind it decides
  rw [if_neg (toList_ne_of_isName htarget (by decide)), if_neg (by simp),
    if_neg (toList_not_mem_typeWords htarget), if_neg (by simp [htarget.1])]
  show ((ended? _).map fun value => Action.assign _ (.ofList value)).map _ = _
  rw [ended?_semicolon]
  simp

/-- A call. -/
theorem Piece.ofLine?_call {c : Call} (hc : c.WellFormed) :
    ofLine? (c.spell .cpp ++ ";").toList = some [.action (.call (c.spell .cpp))] := by
  obtain ⟨args, hargs⟩ : ∃ args, (c.spell .cpp).toList = c.name.toList ++ '(' :: (args ++ [')']) :=
    ⟨(String.intercalate ", " (c.args.map (Operand.spell .cpp))).toList, by simp [Call.spell]⟩
  have htext : (c.spell .cpp ++ ";").toList =
      c.name.toList ++ ('(' :: (args ++ [')']) ++ [';']) := by
    simp [hargs]
  have hrest : ∀ d ∈ ('(' :: (args ++ [')']) ++ [';']).head?, isWordPart d = false :=
    boundary_cons (by decide)
  rw [htext, ofLine?_name hc.1 hrest]
  unfold Action.ofParts?
  -- as for an assignment, but a parenthesis stands behind the name
  rw [if_neg (toList_ne_of_isName hc.1 (by decide)), if_neg (by simp),
    if_neg (toList_not_mem_typeWords hc.1), if_neg (by simp [hc.1.1])]
  show (((ended? ('(' :: (args ++ [')']) ++ [';'])).bind enclosed?).map fun args =>
    Action.call (.ofList (c.name.toList ++ '(' :: (args ++ [')'])))).map _ = _
  rw [ended?_semicolon, Option.bind_some, enclosed?_parens, Option.map_some, ← hargs]
  simp

/-- A declaration. Its name may be any text here, since the line is told by its type. -/
theorem Piece.ofLine?_declare (type : ValueType) (name : String) :
    ofLine? (type.text ++ " " ++ name ++ ";").toList =
      some [.action (.declare type.text name)] := by
  have htext : (type.text ++ " " ++ name ++ ";").toList =
      type.text.toList ++ ' ' :: (name.toList ++ [';']) := by
    simp
  have hrest : ∀ d ∈ (' ' :: (name.toList ++ [';'])).head?, isWordPart d = false :=
    boundary_cons (by decide)
  -- the types are few, and what the reader asks of their names is decided for all of them
  have hpiece : ∀ word ∈ typeWords, ofLine? (word ++ ' ' :: (name.toList ++ [';'])) =
      some [.action (.declare (.ofList word) name)] := by
    intro word hword
    have hplain : word.all isWordPart = true ∧ word ≠ [] ∧ word ≠ "else".toList ∧
        word ≠ "while".toList ∧ word ≠ "if".toList ∧ word ≠ "return".toList := by
      revert hword word
      decide
    obtain ⟨hparts, hne, helse, hwhile, hif, hreturn⟩ := hplain
    rw [ofLine?_word hparts hrest helse, ofStart?_word hparts hne hrest, if_neg hwhile, if_neg hif]
    unfold Action.ofParts?
    rw [if_neg hreturn, if_neg (by simp), if_pos hword]
    show (((ended? _).map fun name => Action.declare _ (.ofList name)).map _).map _ = _
    rw [ended?_semicolon]
    simp
  rw [htext, hpiece _ (by cases type <;> decide), String.ofList_toList]

/-! ### Putting lines before what has been read -/

/-- The lines are legible, and put before what has been read they give what is read then. -/
structure Puts (ls : List Line) (levels levels' : List (List Slot)) : Prop where
  legible : ∀ l ∈ ls, Legible l.text
  put : (written ls).foldrM putLine levels = some levels'

namespace Puts

variable {ls ls' : List Line} {levels levels' levels'' : List (List Slot)}

/-- No lines change nothing. -/
theorem nil : Puts [] levels levels := ⟨nofun, rfl⟩

/-- Lines are put from the last to the first, so the second lines are put before the first. -/
theorem append (h : Puts ls levels' levels'') (h' : Puts ls' levels levels') :
    Puts (ls ++ ls') levels levels'' := by
  refine ⟨fun l hl => (List.mem_append.mp hl).elim (h.legible l) (h'.legible l), ?_⟩
  rw [written_append, List.foldrM_append, h'.put]
  exact h.put

/-- A line is put by its pieces. -/
theorem line (depth : Nat) {text : String} {pieces : List Piece} (hunbroken : Unbroken text)
    (hpieces : Piece.ofLine? text.toList = some pieces)
    (hput : pieces.foldrM Piece.put levels = some levels') :
    Puts [⟨depth, text⟩] levels levels' := by
  have hline : putLine text.toList levels = some levels' := by
    rw [putLine, hpieces]
    exact hput
  have hne : text.toList ≠ [] := fun h => absurd (h ▸ hpieces) nofun
  refine ⟨?_, by rw [written_singleton hne, List.foldrM_cons, List.foldrM_nil, pure_bind, hline]⟩
  rw [List.forall_mem_singleton]
  refine ⟨hunbroken, fun hc => ?_⟩
  -- no piece begins with a space
  obtain ⟨cs, hcs⟩ := List.head?_eq_some_iff.mp hc
  have hspace : Piece.ofLine? (' ' :: cs) = some pieces := hcs ▸ hpieces
  cases hspace

/-- A line with a single piece. -/
theorem piece (depth : Nat) {text : String} {p : Piece} (hunbroken : Unbroken text)
    (hpiece : Piece.ofLine? text.toList = some [p]) (hput : p.put levels = some levels') :
    Puts [⟨depth, text⟩] levels levels' :=
  .line depth hunbroken hpiece (by simpa using hput)

end Puts

/-- Statements that are all read are the statements of a block. -/
theorem wholes?_map (codes : List Code) : wholes? (codes.map .whole) = some codes := by
  induction codes with
  | nil => rfl
  | cons c codes ih => rw [List.map_cons, wholes?, ih, Option.map_some]

/-- The lines of a block that is read as the codes, between braces. -/
theorem puts_braced (depth : Nat) {ls : List Line} {codes : List Code} {level : List Slot}
    {outer : List (List Slot)}
    (h : Puts ls ([] :: level :: outer) ((codes ++ []).map .whole :: level :: outer)) :
    Puts (braced depth ls) (level :: outer) ((.whole (.compound codes) :: level) :: outer) := by
  rw [List.append_nil] at h
  -- lines are put from the last to the first, so the closing brace comes before the body
  have hopening : Puts [⟨depth, "\x7b"⟩] (codes.map .whole :: level :: outer)
      ((.whole (.compound codes) :: level) :: outer) :=
    .piece depth (by decide) rfl (by rw [Piece.put, wholes?_map, Option.map_some])
  have hclosing : Puts [⟨depth, "\x7d"⟩] (level :: outer) ([] :: level :: outer) :=
    .piece depth (by decide) rfl rfl
  exact (hopening.append h).append hclosing

/-- What is read where a conditional can go on: the `else` it has, and the statements behind it. -/
def following (last : Option Code) (codes : List Code) : List Slot :=
  (last.map Slot.otherwise).toList ++ codes.map .whole

/-- An `if` takes the `else` behind its statement, if there is one. -/
theorem put_branch (c : String) (yes : Code) (last : Option Code) (codes : List Code)
    (outer : List (List Slot)) :
    Piece.put (.branch c) ((.whole yes :: following last codes) :: outer) =
      some ((.whole (.branch c yes (last.getD .skip)) :: codes.map .whole) :: outer) := by
  rcases last with _ | no
  · cases codes <;> rfl
  · rfl

/-- An expression between two texts. -/
theorem unbroken_around {before after : String} {e : Expr} (hbefore : Unbroken before)
    (he : e.WellFormed) (hafter : Unbroken after) : Unbroken (before ++ expression e ++ after) :=
  unbroken_append (unbroken_append hbefore (unbroken_expression he)) hafter

mutual

/-- The lines of a statement, put before the statements of a block. -/
theorem puts_statement (depth : Nat) {s : Stmt} (hs : s.Proper) (codes : List Code)
    (outer : List (List Slot)) :
    Puts (statement depth s) (codes.map .whole :: outer)
      ((Code.ofStmt s ++ codes).map .whole :: outer) := by
  match s, hs with
  | .assign target type value span, hs =>
    have hbefore := unbroken_append (unbroken_name hs.1) (by decide : Unbroken " = ")
    have htext := unbroken_around hbefore hs.2 (by decide : Unbroken ";")
    exact .piece depth htext (Piece.ofLine?_assign hs.1 _) rfl
  | .declare name type span, hs => exact .nil
  | .giveBack none span, hs => exact .piece depth (by decide) rfl rfl
  | .giveBack (some value) span, hs =>
    have htext := unbroken_around (by decide : Unbroken "return ") hs (by decide : Unbroken ";")
    exact .piece depth htext (Piece.ofLine?_giveBack _) rfl
  | .loop condition body span, hs =>
    -- the lines are put from the last to the first, so the header finds its body
    have hbody := puts_braced depth (puts_block (depth + 1) hs.2 [] (codes.map .whole :: outer))
    have htext := unbroken_around (by decide : Unbroken "while(") hs.1 (by decide : Unbroken ")")
    exact Puts.append (.piece depth htext (Piece.ofLine?_loop _) rfl) hbody
  | .choose bs none span, hs => exact puts_branches depth hs.2 hs.1 none codes outer
  | .choose bs (some body) span, hs =>
    have hbody := puts_braced depth (puts_block (depth + 1) hs.2.2 [] (codes.map .whole :: outer))
    have hlast : Puts (⟨depth, "else"⟩ :: braced depth (block (depth + 1) body))
        (codes.map .whole :: outer)
        (following (some (.compound (Code.ofBlock body))) codes :: outer) :=
      Puts.append (.piece depth (by decide) rfl rfl) hbody
    exact (puts_branches depth hs.2.1 hs.1 _ codes outer).append hlast
  | .print args span, hs =>
    have htext := unbroken_printText fun e he => unbroken_expression (hs e he)
    exact .piece depth htext (Piece.ofLine?_print args) rfl
  | .call c, hs =>
    exact .piece depth (unbroken_append (unbroken_call hs) (by decide)) (Piece.ofLine?_call hs) rfl

/-- The lines of a block, put before the other statements of it. -/
theorem puts_block (depth : Nat) {ss : List Stmt} (hss : Stmt.ProperBlock ss) (codes : List Code)
    (outer : List (List Slot)) :
    Puts (block depth ss) (codes.map .whole :: outer)
      ((Code.ofBlock ss ++ codes).map .whole :: outer) := by
  match ss, hss with
  | [], _ => exact .nil
  | s :: ss, hss =>
    have hmore := puts_block depth hss.2 codes outer
    have hfirst := puts_statement depth hss.1 (Code.ofBlock ss ++ codes) outer
    rw [← List.append_assoc] at hfirst
    exact hfirst.append hmore

/-- The lines of a conditional, put before the `else` it has. -/
theorem puts_branches (depth : Nat) {bs : List Branch} (hbs : Stmt.ProperBranches bs)
    (hne : bs ≠ []) (last : Option Code) (codes : List Code) (outer : List (List Slot)) :
    Puts (branches depth "if" bs) (following last codes :: outer)
      ((.whole ((Code.ofBranches last bs).getD .skip) :: codes.map .whole) :: outer) := by
  match bs, hbs, hne with
  | .mk condition body span :: bs, hbs, _ =>
    -- behind the body of the first branch stand the others, in one `else`
    have hmore := puts_moreBranches depth hbs.2 last codes outer
    have hbody := puts_braced depth
      (puts_block (depth + 1) hbs.1.2 [] (following (Code.ofBranches last bs) codes :: outer))
    have htext := unbroken_around (by decide : Unbroken ("if" ++ "(")) hbs.1.1
      (by decide : Unbroken ")")
    have hheader := Puts.piece depth htext (Piece.ofLine?_branch _)
      (put_branch _ (.compound (Code.ofBlock body)) (Code.ofBranches last bs) codes outer)
    exact (hheader.append hbody).append hmore

/-- The lines of the branches behind the first. -/
theorem puts_moreBranches (depth : Nat) {bs : List Branch} (hbs : Stmt.ProperBranches bs)
    (last : Option Code) (codes : List Code) (outer : List (List Slot)) :
    Puts (branches depth "else if" bs) (following last codes :: outer)
      (following (Code.ofBranches last bs) codes :: outer) := by
  match bs, hbs with
  | [], _ => exact .nil
  | .mk condition body span :: bs, hbs =>
    have hmore := puts_moreBranches depth hbs.2 last codes outer
    have hbody := puts_braced depth
      (puts_block (depth + 1) hbs.1.2 [] (following (Code.ofBranches last bs) codes :: outer))
    have htext := unbroken_around (by decide : Unbroken ("else if" ++ "(")) hbs.1.1
      (by decide : Unbroken ")")
    -- the `if` comes to stand in the `else` before it
    have hput : [Piece.otherwise, .branch (expression condition)].foldrM Piece.put
        ((.whole (.compound (Code.ofBlock body)) ::
          following (Code.ofBranches last bs) codes) :: outer) =
        some (following (Code.ofBranches last (.mk condition body span :: bs)) codes :: outer) := by
      rw [List.foldrM_cons, List.foldrM_cons, List.foldrM_nil, pure_bind, put_branch]
      rfl
    have hheader := Puts.line depth htext (Piece.ofLine?_otherwise_branch _) hput
    exact (hheader.append hbody).append hmore

end

/-- **The text of a block** is read as the statements that the block stands for: its lines are found
(`codeLines_render`), and put together they give these statements (`puts_block`). -/
theorem Code.read?_block (width depth : Nat) {ss : List Stmt} (hss : Stmt.ProperBlock ss) :
    read? (String.join ((block depth ss).map (Line.render width))) = some (ofBlock ss) := by
  have h := puts_block depth hss [] []
  rw [read?, codeLines_render width h.legible]
  rw [List.map_nil, List.append_nil] at h
  rw [h.put]
  exact wholes?_map _

end Offside.Cpp
