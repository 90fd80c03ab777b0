import Offside.Proofs.Cpp.Grouping
import Offside.Proofs.Cpp.Reading

/-!
# Reading expressions

The text of an expression, read as C++: first cut into lexemes, each as long as possible, and then
taken from left to right, where an operator gives each operand its place in the tree. Whether a
minus sign is an operator or the sign of a number is told by what stands before it.

A text `Reads` as a sequence if it can be read so wherever an operand has to come, and before
anything that does not lengthen its last lexeme. Two such texts with an operator between them read
as the two sequences with the operator between them (`Reads.append`), so the texts of expressions,
assignments and print statements are all read in one way.

* `readExpression?` — the tree of a text;
* `reads_expression` — the text of an expression reads as a sequence with its operators.
-/

namespace Offside.Cpp

open Token (isWordStart isWordPart)
open Linewise (isWord isWord_iff takeWhile_append_boundary boundary_cons)

/-! ### Lexemes -/

/-- A lexeme of C++. -/
inductive Lexeme where
  | word (text : String)
  | number (text : String)
  | mark (text : String)
  deriving DecidableEq

/-- The operators and punctuation marks. One that begins another comes after it. -/
def marks : List String :=
  ["<<=", ">>=", "<=>", "->*", "...", "::", "<<", ">>", "<=", ">=", "==", "!=", "&&", "||", "++",
    "--", "->", "+=", "-=", "*=", "/=", "%=", "&=", "|=", "^=", ".*", "##", "(", ")", "[", "]",
    "\x7b", "\x7d", ",", ";", ":", "?", "<", ">", "=", "!", "+", "-", "*", "/", "%", "&", "|", "^",
    "~", ".", "#"]

/-- Whether a character can go on a number. -/
def isNumberPart (c : Char) : Bool := isWordPart c || c = '.'

/-- The longest lexeme at the front, and how many characters it has. -/
def lexeme? : List Char → Option (Lexeme × Nat)
  | [] => none
  | c :: cs =>
    if isWordStart c then
      some (.word (.ofList (c :: cs.takeWhile isWordPart)), (cs.takeWhile isWordPart).length + 1)
    else if c.isDigit then
      some (.number (.ofList (c :: cs.takeWhile isNumberPart)),
        (cs.takeWhile isNumberPart).length + 1)
    else
      (marks.find? fun m => m.toList.isPrefixOf (c :: cs)).map fun m => (.mark m, m.toList.length)

/-- The lexemes of some characters, of which so many belong to a lexeme already. -/
def lexemes? (skip : Nat) : List Char → Option (List Lexeme)
  | [] => some []
  | c :: cs =>
    match skip with
    | skip + 1 => lexemes? skip cs
    | 0 =>
      if c = ' ' then lexemes? 0 cs
      else
        match lexeme? (c :: cs) with
        | some (l, length) => (lexemes? (length - 1) cs).map (l :: ·)
        | none => none

/-! ### Operands -/

/-- An operator before an operand. -/
inductive Sign where
  | negation
  | minus
  deriving DecidableEq

/-- The operators that can stand before an operand. -/
def Sign.ofMark? : String → Option Sign
  | "!" => some .negation
  | "-" => some .minus
  | _ => none

/-- A name, a number or a call. The arguments of a call are kept as they are written. -/
inductive Primary where
  | name (text : String)
  | number (text : String)
  | call (name : String) (args : List Lexeme)
  deriving DecidableEq

/-- An operand: the operators before it bind tighter than any between operands. -/
structure Leaf where
  signs : List Sign
  primary : Primary
  deriving DecidableEq

/-- How an operator between operands is written. -/
def Op.text : Op → String
  | .insert => "<<"
  | .assign => "="
  | .operation op => op.cpp

/-- All operators between operands. -/
def Op.all : List Op :=
  [.insert, .assign, .operation .add, .operation .sub, .operation .mul, .operation .div,
    .operation .mod, .operation .and, .operation .or, .operation .eq, .operation .ne,
    .operation .lt, .operation .le, .operation .gt, .operation .ge]

/-- The operators that can stand between operands. -/
def Op.ofMark? (m : String) : Option Op := Op.all.find? fun op => op.text = m

/-! ### Reading from left to right -/

/-- What can come next. -/
inductive Phase where
  /-- An operand, with some signs before it. -/
  | awaiting (signs : List Sign)
  /-- Behind a name, which may go on or be that of a call. -/
  | named (signs : List Sign) (name : String)
  /-- Behind a name and a double colon. -/
  | qualified (signs : List Sign) (name : String)
  /-- Among the arguments of a call. -/
  | called (signs : List Sign) (name : String) (args : List Lexeme)
  /-- Behind an operand. -/
  | complete (x : Leaf)

/-- The operand that was read last. -/
def Phase.leaf? : Phase → Option Leaf
  | .named signs name => some ⟨signs, .name name⟩
  | .complete x => some x
  | _ => none

/-- What was read before an operand: nothing, or a tree and an operator behind it. -/
abbrev Before := Option (Tree Leaf × Op)

/-- The tree that an operand gives with what was read before it. -/
def Before.grow : Before → Leaf → Tree Leaf
  | none, x => .leaf x
  | some (t, op), x => t.attach op x

/-- How far an expression was read. -/
structure Scan where
  before : Before
  phase : Phase

namespace Scan

/-- The tree of what was read, if it can end here. -/
def tree? (s : Scan) : Option (Tree Leaf) := s.phase.leaf?.map s.before.grow

/-- Go on behind an operand. -/
def operator (s : Scan) : Lexeme → Option Scan
  | .mark m => do
    let op ← Op.ofMark? m
    let t ← s.tree?
    some ⟨some (t, op), .awaiting []⟩
  | _ => none

/-- Read one more lexeme. -/
def step (s : Scan) (l : Lexeme) : Option Scan :=
  match s.phase with
  | .awaiting signs =>
    match l with
    | .word w => some ⟨s.before, .named signs w⟩
    | .number n => some ⟨s.before, .complete ⟨signs, .number n⟩⟩
    | .mark m => (Sign.ofMark? m).map fun sign => ⟨s.before, .awaiting (signs ++ [sign])⟩
  | .named signs name =>
    if l = .mark "::" then some ⟨s.before, .qualified signs name⟩
    else if l = .mark "(" then some ⟨s.before, .called signs name []⟩
    else s.operator l
  | .qualified signs name =>
    match l with
    | .word w => some ⟨s.before, .named signs (name ++ "::" ++ w)⟩
    | _ => none
  | .called signs name args =>
    if l = .mark ")" then some ⟨s.before, .complete ⟨signs, .call name args⟩⟩
    else if l = .mark "(" then none
    else some ⟨s.before, .called signs name (args ++ [l])⟩
  | .complete _ => s.operator l

end Scan

/-- **The tree of a text.** -/
def readExpression? (text : List Char) : Option (Tree Leaf) := do
  let ls ← lexemes? 0 text
  let s ← ls.foldlM Scan.step ⟨none, .awaiting []⟩
  s.tree?

/-! ### Cutting a text into lexemes -/

/-- What comes next does not go on a word or a number. -/
def Apart (cs : List Char) : Prop := ∀ c ∈ cs.head?, isNumberPart c = false

/-- Nothing goes on nothing. -/
theorem apart_nil : Apart [] := nofun

/-- A character that is no part of a number. -/
theorem apart_cons {c : Char} {cs : List Char} (h : isNumberPart c = false) : Apart (c :: cs) :=
  boundary_cons h

/-- Characters that belong to a lexeme already are passed over. -/
theorem lexemes?_append (p cs : List Char) : lexemes? p.length (p ++ cs) = lexemes? 0 cs := by
  induction p with
  | nil => rfl
  | cons c p ih => exact ih

/-- Spaces between lexemes are passed over too. -/
theorem lexemes?_blank (cs : List Char) : lexemes? 0 (' ' :: cs) = lexemes? 0 cs := rfl

/-- The longest lexeme at the front, and then the others. -/
theorem lexemes?_lexeme {c : Char} {p cs : List Char} {l : Lexeme} (hc : c ≠ ' ')
    (h : lexeme? (c :: (p ++ cs)) = some (l, p.length + 1)) :
    lexemes? 0 (c :: (p ++ cs)) = (lexemes? 0 cs).map (l :: ·) := by
  rw [lexemes?, if_neg hc, h]
  dsimp only
  rw [Nat.add_sub_cancel, lexemes?_append]

/-- A word at the front, if what comes next does not go on with it. -/
theorem lexemes?_word {s : String} (hs : isWord s.toList = true) {cs : List Char} (hcs : Apart cs) :
    lexemes? 0 (s.toList ++ cs) = (lexemes? 0 cs).map (.word s :: ·) := by
  obtain ⟨c, p, hchars, hstart, hparts⟩ := isWord_iff.mp hs
  rw [hchars] at hparts ⊢
  have hp : p.all isWordPart = true :=
    List.all_eq_true.mpr fun d hd => hparts d (List.mem_cons_of_mem c hd)
  -- the word ends where what follows it stands apart
  have hnext : ∀ d ∈ cs.head?, isWordPart d = false := by
    intro d hd
    exact (Bool.or_eq_false_iff.mp (hcs d hd)).1
  have hc : c ≠ ' ' := by
    rintro rfl
    exact absurd hstart (by decide)
  refine lexemes?_lexeme hc ?_
  rw [lexeme?, if_pos hstart, (takeWhile_append_boundary hp hnext).1, ← hchars,
    String.ofList_toList]

/-- A number at the front, likewise. -/
theorem lexemes?_number {c : Char} {p : List Char} (hc : c.isDigit = true)
    (hp : p.all isNumberPart = true) {cs : List Char} (hcs : Apart cs) :
    lexemes? 0 (c :: (p ++ cs)) = (lexemes? 0 cs).map (.number (.ofList (c :: p)) :: ·) := by
  have hblank : c ≠ ' ' := by
    rintro rfl
    exact absurd hc (by decide)
  -- a digit begins no word, which would be tried first
  have hstart : isWordStart c = false := by
    rw [Bool.eq_false_iff]
    intro hstart
    have := Linewise.not_isDigit_of_isWordStart hstart
    rw [this] at hc
    cases hc
  refine lexemes?_lexeme hblank ?_
  rw [lexeme?, if_neg (by simp [hstart]), if_pos hc, (takeWhile_append_boundary hp hcs).1]

/-- An operator with a space behind it. -/
theorem lexemes?_operator (op : Op) (cs : List Char) :
    lexemes? 0 (op.text.toList ++ ' ' :: cs) = (lexemes? 0 cs).map (.mark op.text :: ·) := by
  rcases op with _ | _ | op
  · rfl
  · rfl
  · cases op <;> rfl

theorem lexemes?_negation (cs : List Char) :
    lexemes? 0 ('!' :: ' ' :: cs) = (lexemes? 0 cs).map (.mark "!" :: ·) := rfl

theorem lexemes?_leftParen (cs : List Char) :
    lexemes? 0 ('(' :: cs) = (lexemes? 0 cs).map (.mark "(" :: ·) := rfl

theorem lexemes?_rightParen (cs : List Char) :
    lexemes? 0 (')' :: cs) = (lexemes? 0 cs).map (.mark ")" :: ·) := rfl

theorem lexemes?_comma (cs : List Char) :
    lexemes? 0 (',' :: cs) = (lexemes? 0 cs).map (.mark "," :: ·) := rfl

theorem lexemes?_colons (cs : List Char) :
    lexemes? 0 (':' :: ':' :: cs) = (lexemes? 0 cs).map (.mark "::" :: ·) := rfl

/-- A minus sign before a digit is a lexeme of its own. -/
theorem lexemes?_minus {c : Char} (hc : c.isDigit = true) (cs : List Char) :
    lexemes? 0 ('-' :: c :: cs) = (lexemes? 0 (c :: cs)).map (.mark "-" :: ·) := by
  -- the longer marks that begin with a minus go on with something that is no digit
  have hne : ∀ d : Char, d.isDigit = false → (d == c) = false := by
    intro d hd
    rw [beq_eq_false_iff_ne]
    rintro rfl
    rw [hc] at hd
    cases hd
  have hlexeme : lexeme? ('-' :: ([] ++ c :: cs)) = some (.mark "-", 1) := by
    simp [lexeme?, marks, List.isPrefixOf, hne '>' (by decide), hne '-' (by decide),
      hne '=' (by decide), isWordStart]
  exact lexemes?_lexeme (by decide) hlexeme

/-- The text is cut into the lexemes, before anything that does not lengthen the last one. -/
def Cut (text : List Char) (ls : List Lexeme) : Prop :=
  ∀ cs, Apart cs → lexemes? 0 (text ++ cs) = (lexemes? 0 cs).map (ls ++ ·)

/-! ### Operands -/

/-- What was read ends with an operand, so an operator can come next. -/
theorem Scan.step_operator {s : Scan} {t : Tree Leaf} (h : s.tree? = some t) (op : Op) :
    s.step (.mark op.text) = some ⟨some (t, op), .awaiting []⟩ := by
  have htext : op.text ≠ "::" ∧ op.text ≠ "(" ∧ Op.ofMark? op.text = some op := by
    rcases op with _ | _ | op
    · decide
    · decide
    · cases op <;> decide
  obtain ⟨hcolons, hparen, hmark⟩ := htext
  have hoperator : s.operator (.mark op.text) = some ⟨some (t, op), .awaiting []⟩ := by
    rw [operator, hmark, h]
    rfl
  -- there is a tree only behind a name and behind a complete operand
  rcases s with ⟨before, signs | ⟨signs, name⟩ | ⟨signs, name⟩ | ⟨signs, name, args⟩ | x⟩
  · cases h
  · rw [step]
    dsimp only
    rw [if_neg (by simpa using hcolons), if_neg (by simpa using hparen), hoperator]
  · cases h
  · cases h
  · exact hoperator

/-- The text is cut into the lexemes, and they are read as the operand. -/
structure ReadsLeaf (text : List Char) (ls : List Lexeme) (x : Leaf) : Prop where
  cut : Cut text ls
  plain : ∀ l ∈ ls, l ≠ .mark "(" ∧ l ≠ .mark ")"
  scan : ∀ before signs, ∃ s, ls.foldlM Scan.step ⟨before, .awaiting signs⟩ = some s ∧
    s.tree? = some (before.grow ⟨signs ++ x.signs, x.primary⟩)

/-- A word is read as a name. -/
theorem readsLeaf_word {s : String} (hs : isWord s.toList = true) :
    ReadsLeaf s.toList [.word s] ⟨[], .name s⟩ := by
  refine ⟨fun cs hcs => lexemes?_word hs hcs, by simp, fun before signs => ?_⟩
  exact ⟨⟨before, .named signs s⟩, rfl, by rw [List.append_nil]; rfl⟩

/-- The characters of a numeral, after its sign. -/
theorem magnitude_chars {n : Token.Numeral} (hwhole : Linewise.isDigits n.whole = true)
    (hfraction : ∀ c ∈ n.fraction, c.isDigit = true) :
    ∃ c p, Linewise.magnitude n = c :: p ∧ c.isDigit = true ∧ p.all isNumberPart = true := by
  obtain ⟨hne, hdigits⟩ := Linewise.isDigits_iff.mp hwhole
  obtain ⟨c, p, hcp⟩ := List.exists_cons_of_ne_nil hne
  have hpart : ∀ d : Char, d.isDigit = true → isNumberPart d = true := by
    intro d hd
    simp [isNumberPart, Linewise.isWordPart_of_isDigit hd]
  refine ⟨c, _, by rw [Linewise.magnitude, hcp, List.cons_append], hdigits c (by simp [hcp]), ?_⟩
  -- behind the other digits there is nothing more, or the point and the digits of the fraction
  rw [List.all_eq_true]
  refine List.forall_mem_append.mpr ⟨fun d hd => hpart d (hdigits d (by simp [hcp, hd])), ?_⟩
  split_ifs
  · exact List.forall_mem_nil _
  · exact List.forall_mem_cons.mpr ⟨by decide, fun d hd => hpart d (hfraction d hd)⟩

/-- A number is read as a number, and its sign as an operator before it. -/
theorem readsLeaf_number {n : Token.Numeral} (hwhole : Linewise.isDigits n.whole = true)
    (hfraction : ∀ c ∈ n.fraction, c.isDigit = true) : ∃ ls x, ReadsLeaf n.chars ls x := by
  obtain ⟨c, p, hcp, hc, hp⟩ := magnitude_chars hwhole hfraction
  rw [Linewise.chars_eq, hcp]
  cases n.negative with
  | false =>
    refine ⟨[.number (.ofList (c :: p))], ⟨[], .number (.ofList (c :: p))⟩, ?_, by simp, ?_⟩
    · exact fun cs hcs => lexemes?_number hc hp hcs
    · exact fun before signs => ⟨_, rfl, by rw [List.append_nil]; rfl⟩
  | true =>
    -- a negative number is read as a sign and a number
    refine ⟨[.mark "-", .number (.ofList (c :: p))], ⟨[.minus], .number (.ofList (c :: p))⟩, ?_,
      by simp, ?_⟩
    · intro cs hcs
      show lexemes? 0 ('-' :: c :: (p ++ cs)) = _
      rw [lexemes?_minus hc, lexemes?_number hc hp hcs, Option.map_map]
      rfl
    · exact fun before signs => ⟨_, rfl, rfl⟩

/-- The text of an operand is read as one: names and truth values by `readsLeaf_word`, numbers by
`readsLeaf_number`. -/
theorem readsLeaf_operand {x : Operand} (hx : x.WellFormed) :
    ∃ ls y, ReadsLeaf (x.spell .cpp).toList ls y := by
  -- a number is spelled by a numeral, and this is all that has to be known of its text
  rcases x with text | n | v | b
  · exact ⟨_, _, readsLeaf_word hx.1⟩
  · obtain ⟨numeral, hchars, hwhole, hfraction, -⟩ := int?_of_text n
    have htext : (Operand.spell .cpp (.literal (.int n))).toList = numeral.chars := hchars
    rw [htext]
    exact readsLeaf_number hwhole (by simp [hfraction])
  · obtain ⟨numeral, hchars, hwhole, hfraction, -⟩ := Binary64.float?_of_text hx
    have htext : (Operand.spell .cpp (.literal (.float v))).toList = numeral.chars := hchars
    rw [htext]
    exact readsLeaf_number hwhole (Linewise.isDigits_iff.mp hfraction).2
  · cases b with
    | false => exact ⟨_, _, readsLeaf_word (by decide : isWord "false".toList = true)⟩
    | true => exact ⟨_, _, readsLeaf_word (by decide : isWord "true".toList = true)⟩

/-! ### Sequences -/

/-- **The text reads as the sequence** wherever an operand has to come. -/
def Reads (text : List Char) (x : Leaf) (more : List (Op × Leaf)) : Prop :=
  ∃ ls, Cut text ls ∧ ∀ before, ∃ s, ls.foldlM Scan.step ⟨before, .awaiting []⟩ = some s ∧
    s.tree? = some ((before.grow x).extend more)

/-- A single operand is a sequence. -/
theorem ReadsLeaf.reads {text : List Char} {ls : List Lexeme} {x : Leaf}
    (h : ReadsLeaf text ls x) : Reads text x [] := ⟨ls, h.cut, fun before => h.scan before []⟩

/-- A text that reads as a sequence has the tree of the sequence. -/
theorem Reads.readExpression? {text : List Char} {x : Leaf} {more : List (Op × Leaf)}
    (h : Reads text x more) : readExpression? text = some (.ofSequence x more) := by
  obtain ⟨ls, hcut, hscan⟩ := h
  -- nothing stands before the text: the scan begins where an operand is expected
  obtain ⟨s, hs, htree⟩ := hscan none
  have hls := hcut [] apart_nil
  rw [List.append_nil] at hls
  rw [Cpp.readExpression?, hls]
  simp only [lexemes?, Option.map_some, List.append_nil]
  show (ls.foldlM Scan.step ⟨none, .awaiting []⟩ >>= fun s => s.tree?) = _
  rw [hs]
  exact htree

/-- **Two sequences with an operator between them.** -/
theorem Reads.append {text text' : List Char} {x y : Leaf} {more more' : List (Op × Leaf)}
    (h : Reads text x more) (op : Op) (h' : Reads text' y more') :
    Reads (text ++ ' ' :: (op.text.toList ++ ' ' :: text')) x (more ++ (op, y) :: more') := by
  obtain ⟨ls, hcut, hscan⟩ := h
  obtain ⟨ls', hcut', hscan'⟩ := h'
  refine ⟨ls ++ .mark op.text :: ls', fun cs hcs => ?_, fun before => ?_⟩
  · -- the operator stands between two spaces, so the first text is apart from it
    have htext : text ++ ' ' :: (op.text.toList ++ ' ' :: text') ++ cs =
        text ++ ' ' :: (op.text.toList ++ ' ' :: (text' ++ cs)) := by
      simp
    rw [htext, hcut _ (apart_cons (by decide)), lexemes?_blank, lexemes?_operator, hcut' cs hcs,
      Option.map_map, Option.map_map]
    congr 1
    funext more
    simp
  · -- the second sequence is read behind the tree of the first and the operator
    obtain ⟨s, hs, htree⟩ := hscan before
    obtain ⟨s', hs', htree'⟩ := hscan' (some ((before.grow x).extend more, op))
    refine ⟨s', ?_, ?_⟩
    · rw [List.foldlM_append, hs]
      show (Scan.step s (.mark op.text) >>= fun s => ls'.foldlM Scan.step s) = _
      rw [Scan.step_operator htree]
      exact hs'
    · rw [htree', Tree.extend_append]
      rfl

/-! ### Expressions -/

/-- The arguments of a call, up to the parenthesis behind them. -/
theorem cut_arguments {args : List Operand} (hargs : ∀ x ∈ args, x.WellFormed) :
    ∃ ls, (∀ l ∈ ls, l ≠ .mark "(" ∧ l ≠ .mark ")") ∧
      ∀ cs, lexemes? 0 ((String.intercalate ", " (args.map (Operand.spell .cpp))).toList ++
        ')' :: cs) = (lexemes? 0 (')' :: cs)).map (ls ++ ·) := by
  -- argument by argument; the comma keeps each from going on with the next
  induction args with
  | nil => exact ⟨[], nofun, fun cs => by simp⟩
  | cons x args ih =>
    obtain ⟨hx, hmore⟩ := List.forall_mem_cons.mp hargs
    obtain ⟨ls, y, hy⟩ := readsLeaf_operand hx
    cases args with
    | nil =>
      refine ⟨ls, hy.plain, fun cs => ?_⟩
      rw [List.map_cons, List.map_nil, String.intercalate_singleton]
      exact hy.cut _ (apart_cons (by decide))
    | cons z args =>
      obtain ⟨ls', hplain, hcut⟩ := ih hmore
      refine ⟨ls ++ .mark "," :: ls', ?_, fun cs => ?_⟩
      · refine List.forall_mem_append.mpr ⟨hy.plain, List.forall_mem_cons.mpr ⟨by decide, hplain⟩⟩
      · have htext : (String.intercalate ", " ((x :: z :: args).map (Operand.spell .cpp))).toList =
            (x.spell .cpp).toList ++ ',' :: ' ' ::
              (String.intercalate ", " ((z :: args).map (Operand.spell .cpp))).toList := by
          rw [List.map_cons, List.map_cons, String.intercalate_cons_cons, String.toList_append,
            String.toList_append, List.append_assoc]
          rfl
        rw [htext, List.append_assoc, List.cons_append, List.cons_append,
          hy.cut _ (apart_cons (by decide)), lexemes?_comma, lexemes?_blank, hcut, Option.map_map,
          Option.map_map]
        congr 1
        funext more
        simp

/-- Among the arguments of a call every lexeme is taken as it is. -/
theorem scan_arguments {ls : List Lexeme} (hls : ∀ l ∈ ls, l ≠ .mark "(" ∧ l ≠ .mark ")")
    (before : Before) (signs : List Sign) (name : String) (args : List Lexeme) :
    ls.foldlM Scan.step ⟨before, .called signs name args⟩ =
      some ⟨before, .called signs name (args ++ ls)⟩ := by
  -- lexeme by lexeme; a parenthesis would end the arguments or be refused
  induction ls generalizing args with
  | nil => rw [List.append_nil]; rfl
  | cons l ls ih =>
    obtain ⟨⟨hleft, hright⟩, hmore⟩ := List.forall_mem_cons.mp hls
    have hstep : Scan.step ⟨before, .called signs name args⟩ l =
        some ⟨before, .called signs name (args ++ [l])⟩ := by
      rw [Scan.step]
      dsimp only
      rw [if_neg hright, if_neg hleft]
    rw [List.foldlM_cons, hstep]
    show ls.foldlM Scan.step _ = _
    rw [ih hmore, List.append_assoc, List.singleton_append]

/-- A call is read as one operand: its name, and its arguments as they are (`cut_arguments`,
`scan_arguments`). -/
theorem reads_call {c : Call} (hc : c.WellFormed) : ∃ x, Reads (c.spell .cpp).toList x [] := by
  obtain ⟨args, hplain, hargs⟩ := cut_arguments hc.2
  refine ⟨⟨[], .call c.name args⟩, .word c.name :: .mark "(" :: (args ++ [.mark ")"]), ?_, ?_⟩
  · intro cs hcs
    -- the name, the parenthesis, the arguments up to the other parenthesis
    have htext : (c.spell .cpp).toList ++ cs = c.name.toList ++ '(' ::
        ((String.intercalate ", " (c.args.map (Operand.spell .cpp))).toList ++ ')' :: cs) := by
      simp [Call.spell]
    rw [htext, lexemes?_word hc.1.1 (apart_cons (by decide)), lexemes?_leftParen, hargs,
      lexemes?_rightParen, Option.map_map, Option.map_map, Option.map_map]
    congr 1
    funext more
    simp
  · intro before
    refine ⟨⟨before, .complete ⟨[], .call c.name args⟩⟩, ?_, rfl⟩
    -- the arguments are collected until the parenthesis ends the call
    show (args ++ [Lexeme.mark ")"]).foldlM Scan.step ⟨before, .called [] c.name []⟩ = _
    rw [List.foldlM_append, scan_arguments hplain]
    rfl

/-- The first operand of an operation, negated or not. -/
theorem reads_first (negated : Bool) {x : Operand} (hx : x.WellFormed) :
    ∃ y, Reads ((if negated then ['!', ' '] else []) ++ (x.spell .cpp).toList) y [] := by
  obtain ⟨ls, y, hy⟩ := readsLeaf_operand hx
  cases negated with
  | false => exact ⟨y, hy.reads⟩
  | true =>
    -- the negation is one more sign before the operand
    refine ⟨⟨.negation :: y.signs, y.primary⟩, .mark "!" :: ls, ?_, ?_⟩
    · intro cs hcs
      show lexemes? 0 ('!' :: ' ' :: ((x.spell .cpp).toList ++ cs)) = _
      rw [lexemes?_negation, hy.cut cs hcs, Option.map_map]
      rfl
    · exact fun before => hy.scan before [.negation]

/-- Operators behind a sequence, each with the operand after it. -/
theorem reads_operations {text : List Char} {x : Leaf} {more : List (Op × Leaf)}
    (h : Reads text x more) {rest : List (BinaryOp × Operand)}
    (hrest : ∀ pair ∈ rest, pair.2.WellFormed) :
    ∃ more', more'.map Prod.fst = rest.map (Op.operation ∘ Prod.fst) ∧
      Reads (text ++ rest.flatMap fun pair =>
        ' ' :: (pair.1.cpp.toList ++ ' ' :: (pair.2.spell .cpp).toList)) x (more ++ more') := by
  -- one operator and operand at a time, put behind the sequence by `Reads.append`
  induction rest generalizing text more with
  | nil => exact ⟨[], rfl, by simpa using h⟩
  | cons pair rest ih =>
    obtain ⟨hpair, hrest⟩ := List.forall_mem_cons.mp hrest
    obtain ⟨ls, y, hy⟩ := readsLeaf_operand hpair
    obtain ⟨more', hops, hmore⟩ := ih (h.append (.operation pair.1) hy.reads) hrest
    refine ⟨(.operation pair.1, y) :: more', by rw [List.map_cons, hops]; rfl, ?_⟩
    rw [List.append_assoc, List.append_assoc] at hmore
    exact hmore

/-- The operators of an expression, in order. -/
def operators : Expr → List BinaryOp
  | .call _ => []
  | .operation o => o.rest.map Prod.fst

/-- The characters of an operation: the first part, and then each operator and operand after a
space. -/
theorem toList_operation (text : String) (rest : List (BinaryOp × Operand)) :
    (String.intercalate " " (text :: rest.flatMap fun pair =>
      [Spelling.cpp.operator pair.1, pair.2.spell .cpp])).toList =
      text.toList ++ rest.flatMap fun pair =>
        ' ' :: (pair.1.cpp.toList ++ ' ' :: (pair.2.spell .cpp).toList) := by
  induction rest generalizing text with
  | nil => simp
  | cons pair rest ih =>
    -- each operator and operand bring their own blank, so the first text may be any text
    have hparts := ih (pair.2.spell .cpp)
    simp only [List.flatMap_cons, List.cons_append, List.nil_append,
      String.intercalate_cons_cons, String.toList_append] at hparts ⊢
    rw [hparts]
    simp [Spelling.cpp]

/-- **The text of an expression** reads as a sequence with the operators of the expression: a call
is one operand (`reads_call`), and an operation is its first operand (`reads_first`) and what comes
behind it (`reads_operations`). -/
theorem reads_expression {e : Expr} (he : e.WellFormed) :
    ∃ x more, more.map Prod.fst = (operators e).map .operation ∧
      Reads (expression e).toList x more := by
  rcases e with c | o
  · obtain ⟨x, hx⟩ := reads_call he
    exact ⟨x, [], rfl, hx⟩
  · obtain ⟨x, hx⟩ := reads_first o.negated he.1
    obtain ⟨more, hops, hmore⟩ := reads_operations hx he.2
    refine ⟨x, more, by rw [hops, operators, List.map_map], ?_⟩
    -- the text is joined with spaces from its parts
    have htext : (expression (.operation o)).toList =
        (if o.negated then ['!', ' '] else []) ++ (o.first.spell .cpp).toList ++
          o.rest.flatMap fun pair =>
            ' ' :: (pair.1.cpp.toList ++ ' ' :: (pair.2.spell .cpp).toList) := by
      rw [List.append_assoc, ← toList_operation]
      rcases o with ⟨_ | _, first, rest⟩
      · rfl
      · simp [expression, Expr.spell, Operation.parts, Spelling.cpp, String.intercalate_cons_cons]
    rw [htext]
    exact hmore

end Offside.Cpp
