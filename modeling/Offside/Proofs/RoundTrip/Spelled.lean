import Offside.Proofs.Binary64.ReadBack
import Offside.Proofs.Linewise.OnLine
import Offside.Proofs.RoundTrip.Words

/-!
# Spelled lines

A line is `Spelled` with some words if it is made of their lexemes, with spaces between them, and no
two lexemes touch but where one of them is a parenthesis, a comma or a colon. No lexeme goes on past
such a character or begins before it, so reading by longest match finds exactly those lexemes
(`Spelled.tokens_ok`). Every clause of a well-formed program is spelled with its words
(`Clause.spelled_text`).

Whether a minus sign can belong to a number depends on the word before it, so the relation carries
it along. Operands are only ever written where it can.
-/

namespace Offside.Linewise

open Token

/-! ### Delimiters -/

/-- The space, and the characters that are lexemes of their own wherever they stand. -/
def isDelimiter (c : Char) : Bool := c = ' ' || c = '(' || c = ')' || c = ',' || c = ':'

/-- No delimiter is part of a word. -/
theorem not_isDelimiter_of_isWordPart {c : Char} (h : isWordPart c = true) :
    isDelimiter c = false := by
  rw [Bool.eq_false_iff]
  intro hd
  simp only [isDelimiter, Bool.or_eq_true, decide_eq_true_eq] at hd
  rcases hd with (((rfl | rfl) | rfl) | rfl) | rfl <;> exact absurd h (by decide)

/-- A lexeme with a delimiter in it is that delimiter. -/
theorem eq_singleton_of_isDelimiter {signed : Bool} {cs : List Char} {m : Meaning} {c : Char}
    (h : meaning? signed cs = some m) (hc : c ∈ cs) (hd : isDelimiter c = true) : cs = [c] := by
  rcases chars_of_meaning? h with hall | ⟨op, hop, rfl⟩
  · -- a number or a word has no delimiter in it
    rcases hall c hc with hpart | rfl | rfl
    · rw [not_isDelimiter_of_isWordPart hpart] at hd
      cases hd
    · exact absurd hd (by decide)
    · exact absurd hd (by decide)
  · -- among the operators a delimiter is one by itself and in no other
    have hops : (operators.all fun op =>
        op.1.all fun c => !isDelimiter c || op.1 == [c]) = true := by
      decide
    have hchar := List.all_eq_true.mp (List.all_eq_true.mp hops op hop) c hc
    simpa [hd] using hchar

/-- What comes next is nothing or a delimiter. -/
def Delimited (cs : List Char) : Prop := ∀ c ∈ cs.head?, isDelimiter c = true

/-- A delimiter comes next. -/
theorem delimited_cons {c : Char} {cs : List Char} (h : isDelimiter c = true) :
    Delimited (c :: cs) := by
  intro d hd
  cases hd
  exact h

/-- **A lexeme before a delimiter is the longest**, and so is a delimiter. -/
theorem longest?_of_delimited {signed : Bool} {p cs : List Char} {m : Meaning}
    (h : meaning? signed p = some m)
    (hd : Delimited cs ∨ ∃ c, isDelimiter c = true ∧ p = [c]) :
    longest? signed (p ++ cs) = some (p, m) := by
  have hne : p ≠ [] := by
    rintro rfl
    rw [meaning?_nil] at h
    cases h
  refine longest?_eq_some h fun more hmore hmore_ne => ?_
  obtain ⟨d, more', rfl⟩ := List.exists_cons_of_ne_nil hmore_ne
  -- a longer lexeme would have the delimiter in it and another character
  have hlong : ∀ c, p ++ d :: more' ≠ [c] := by
    intro c hc
    have hlength := congrArg List.length hc
    have hpos := List.length_pos_iff.mpr hne
    simp only [List.length_append, List.length_cons, List.length_nil] at hlength
    omega
  rw [← Option.not_isSome_iff_eq_none, Option.isSome_iff_exists]
  rintro ⟨m', hm'⟩
  rcases hd with hd | ⟨c, hc, rfl⟩
  · have hhead : d ∈ cs.head? := by
      obtain ⟨tail, rfl⟩ := hmore
      rfl
    exact hlong d (eq_singleton_of_isDelimiter hm' (by simp) (hd d hhead))
  · exact hlong c (eq_singleton_of_isDelimiter hm' (by simp) hc)

/-! ### Spelled lines -/

/-- **The characters spell the words.** A minus sign before a number belongs to it if `signed`. -/
inductive Spelled : Bool → List Char → List Word → Prop
  | nil {signed : Bool} : Spelled signed [] []
  | blank {signed : Bool} {cs : List Char} {ws : List Word} :
    Spelled signed cs ws → Spelled signed (' ' :: cs) ws
  | lexeme {signed : Bool} {p cs : List Char} {w : Word} {ws : List Word} :
    meaning? signed p = some (.ok w) → (Delimited cs ∨ ∃ c, isDelimiter c = true ∧ p = [c]) →
      Spelled (!w.1.endsOperand) cs ws → Spelled signed (p ++ cs) (w :: ws)

namespace Spelled

/-- There is nothing on the line that ends it. -/
theorem not_isGap {signed : Bool} {cs : List Char} {ws : List Word} (h : Spelled signed cs ws) :
    ∀ c ∈ cs, c = ' ' ∨ isGap c = false := by
  induction h with
  | nil => simp
  | blank _ ih => simpa using ih
  | lexeme hm _ _ ih =>
    intro c hc
    -- a lexeme has no gap in it; behind it stands a rest with the same property
    rcases List.mem_append.mp hc with hc | hc
    · exact .inr (not_isGap_of_meaning? hm c hc)
    · exact ih c hc

/-- **The tokens of a spelled line** are its words. -/
theorem tokens_ok {signed : Bool} {cs : List Char} {ws : List Word} (h : Spelled signed cs ws)
    (number column : Nat) {last : Option Kind} (hlast : signed = !last.any Kind.endsOperand) :
    ∃ ts, tokens number column last 0 cs = .ok ts ∧ ts.map word = ws := by
  induction h generalizing column last with
  | nil => exact ⟨[], rfl, rfl⟩
  | blank _ ih =>
    rw [tokens, if_pos (by decide)]
    exact ih (column + 1) hlast
  | @lexeme signed p cs w ws hm hd _ ih =>
    obtain ⟨kind, value⟩ := w
    obtain ⟨c, p', rfl⟩ : ∃ c p', p = c :: p' := by
      refine List.exists_cons_of_ne_nil ?_
      rintro rfl
      rw [meaning?_nil] at hm
      cases hm
    have hblank : Layout.isBlank c = false :=
      (not_isGap_iff.mp (not_isGap_of_meaning? hm c (by simp))).1
    -- the lexeme is found, and the characters behind it are spelled with the other words
    have hlongest := longest?_of_delimited hm hd
    have hnext : (!kind.endsOperand) = !(some kind).any Kind.endsOperand := rfl
    obtain ⟨ts, hts, hwords⟩ := ih (column + (c :: p').length) hnext
    refine ⟨⟨kind, value, ⟨number, column⟩⟩ :: ts, ?_, by rw [List.map_cons, hwords]; rfl⟩
    rw [List.cons_append, tokens_lexeme number last column _ hblank, ← hlast, ← List.cons_append,
      hlongest]
    dsimp only
    rw [List.drop_left, hts]
    rfl

/-! ### Lexemes of a clause -/

variable {signed : Bool} {cs : List Char} {ws : List Word}

/-- A parenthesis, a comma or a colon. -/
theorem mark {c : Char} {kind : Kind} (h : Spelled (!kind.endsOperand) cs ws)
    (hop : ([c], kind) ∈ operators) (hc : isDelimiter c = true) :
    Spelled signed (c :: cs) (.plain kind :: ws) :=
  .lexeme ((operators_meaning _ hop).2.2 signed) (.inr ⟨c, hc, rfl⟩) h

/-- A minus sign behind an opening parenthesis belongs to a number. -/
theorem leftParen (h : Spelled true cs ws) : Spelled signed ('(' :: cs) (.plain .leftParen :: ws) :=
  mark h (by decide) (by decide)

/-- Behind a closing one it does not, as an operand ends there. -/
theorem rightParen (h : Spelled false cs ws) :
    Spelled signed (')' :: cs) (.plain .rightParen :: ws) :=
  mark h (by decide) (by decide)

/-- Behind a comma it does. -/
theorem comma (h : Spelled true cs ws) : Spelled signed (',' :: cs) (.plain .comma :: ws) :=
  mark h (by decide) (by decide)

/-- Behind a colon it does. -/
theorem colon (h : Spelled true cs ws) : Spelled signed (':' :: cs) (.plain .colon :: ws) :=
  mark h (by decide) (by decide)

/-- A word of the language that carries no value. -/
theorem keyword {text : String} {kind : Kind} (h : Spelled (!kind.endsOperand) cs ws)
    (hcs : Delimited cs) (hword : isWord text.toList = true)
    (hkind : ofWord text = Word.plain kind) :
    Spelled signed (text.toList ++ cs) (.plain kind :: ws) := by
  refine .lexeme ?_ (.inl hcs) h
  rw [meaning?_of_isWord hword, String.ofList_toList, hkind]

/-- A name. -/
theorem name {text : String} (h : Spelled false cs ws) (hcs : Delimited cs) (hname : IsName text) :
    Spelled signed (text.toList ++ cs) (.name text :: ws) := by
  refine .lexeme ?_ (.inl hcs) h
  rw [meaning?_of_isWord hname.1, String.ofList_toList, ofWord, hname.2]

end Spelled

/-! ### Expressions -/

/-- **The characters are read as the words** where a minus sign can belong to a number, before a
delimiter. Whether a minus sign can belong to a number behind them is said by `signed`. -/
def Reads (signed : Bool) (cs : List Char) (ws : List Word) : Prop :=
  ∀ cs' ws', Delimited cs' → Spelled signed cs' ws' → Spelled true (cs ++ cs') (ws ++ ws')

/-- An operand is one lexeme: a name, a number with its sign, or a truth value. -/
theorem reads_operand {x : Operand} (hx : x.WellFormed) :
    Reads false (x.spell .source).toList [x.word] := by
  intro cs ws hcs h
  rcases x with text | n | v | b
  · exact .name h hcs hx
  · exact .lexeme (meaning?_int n) (.inl hcs) h
  · exact .lexeme (meaning?_float hx) (.inl hcs) h
  · refine .lexeme ?_ (.inl hcs) h
    -- the two truth values are words of the language that carry a value
    cases b <;> decide

/-- Items with commas between them and a parenthesis behind them. Whether a minus sign can follow an
item does not matter, since none does. -/
theorem spelled_listed {α : Type} {text : α → String} {words : α → List Word} {items : List α}
    {b : Bool} (hitem : ∀ x ∈ items, Reads b (text x).toList (words x)) {cs : List Char}
    {ws : List Word} (h : Spelled false cs ws) :
    Spelled true ((String.intercalate ", " (items.map text)).toList ++ ')' :: cs)
      (separatedWords (items.map words) ++ .plain .rightParen :: ws) := by
  induction items with
  | nil => exact .rightParen h
  | cons x items ih =>
    have hx := hitem x List.mem_cons_self
    -- the comma and the space stand between two items, so two of them have to be seen
    cases items with
    | nil =>
      simpa [separatedWords] using hx _ _ (delimited_cons (by decide)) (.rightParen h)
    | cons y items =>
      have hmore := ih fun z hz => hitem z (List.mem_cons_of_mem x hz)
      have hline := hx _ _ (delimited_cons (by decide)) (.comma hmore.blank)
      simpa [separatedWords, String.intercalate_cons_cons, List.intercalate_cons_cons] using hline

/-- A call: its name, and its arguments between parentheses. -/
theorem reads_call {c : Call} (hc : c.WellFormed) :
    Reads false (c.spell .source).toList c.words := by
  intro cs ws hcs h
  have htext : (c.spell .source).toList ++ cs = c.name.toList ++ '(' ::
      ((String.intercalate ", " (c.args.map (Operand.spell .source))).toList ++ ')' :: cs) := by
    simp [Call.spell]
  have hwords : c.words ++ ws = .name c.name :: .plain .leftParen ::
      (separatedWords (c.args.map fun x => [x.word]) ++ .plain .rightParen :: ws) := by
    simp [Call.words]
  rw [htext, hwords]
  -- the parenthesis ends the name, and the arguments end at the other one
  refine .name (.leftParen ?_) (delimited_cons (by decide)) hc.1
  exact spelled_listed (fun x hx => reads_operand (hc.2 x hx)) h

/-- The characters of operators, each with the operand after it. -/
def operationChars (rest : List (BinaryOp × Operand)) : List Char :=
  rest.flatMap fun pair => ' ' :: (pair.1.text.toList ++ ' ' :: (pair.2.spell .source).toList)

/-- The text of an operation is joined with spaces, and its characters are those of the operands
with the operators between them. -/
theorem toList_operation (text : String) (rest : List (BinaryOp × Operand)) :
    (String.intercalate " " (text :: rest.flatMap fun pair =>
      [Spelling.source.operator pair.1, pair.2.spell .source])).toList =
      text.toList ++ operationChars rest := by
  induction rest generalizing text with
  | nil => simp [operationChars]
  | cons pair rest ih =>
    -- the operand of the first pair takes the place of the first text
    have hparts := ih (pair.2.spell .source)
    simp only [operationChars, List.flatMap_cons, List.cons_append, List.nil_append,
      String.intercalate_cons_cons, String.toList_append] at hparts ⊢
    rw [hparts]
    simp [Spelling.source]

/-- An operator is read, whether or not it is a word. -/
theorem meaning?_operator (signed : Bool) (op : BinaryOp) :
    meaning? signed op.text.toList = some (.ok (Word.plain op.kind)) := by
  cases signed <;> cases op <;> decide

/-- A minus sign behind an operator belongs to a number. -/
theorem endsOperand_kind (op : BinaryOp) : op.kind.endsOperand = false := by
  cases op <;> rfl

/-- Operators and operands in turn. What comes next is always a space or what follows the
expression, so the operand before is delimited. -/
theorem spelled_operations {rest : List (BinaryOp × Operand)}
    (hrest : ∀ pair ∈ rest, pair.2.WellFormed) {cs : List Char} {ws : List Word}
    (hcs : Delimited cs) (h : Spelled false cs ws) :
    Delimited (operationChars rest ++ cs) ∧
      Spelled false (operationChars rest ++ cs) (operationWords rest ++ ws) := by
  induction rest with
  | nil => exact ⟨hcs, h⟩
  | cons pair rest ih =>
    obtain ⟨hdelimited, hmore⟩ := ih fun q hq => hrest q (List.mem_cons_of_mem pair hq)
    have htext : operationChars (pair :: rest) ++ cs = ' ' :: (pair.1.text.toList ++ ' ' ::
        ((pair.2.spell .source).toList ++ (operationChars rest ++ cs))) := by
      simp [operationChars]
    have hwords : operationWords (pair :: rest) ++ ws =
        .plain pair.1.kind :: pair.2.word :: (operationWords rest ++ ws) := by
      simp [operationWords]
    -- the operand behind the operator is delimited by what the induction gives
    have hoperand := reads_operand (hrest pair List.mem_cons_self) _ _ hdelimited hmore
    rw [htext, hwords]
    refine ⟨delimited_cons (by decide), .blank (.lexeme (meaning?_operator false pair.1)
      (.inl (delimited_cons (by decide))) ?_)⟩
    rw [endsOperand_kind]
    exact hoperand.blank

/-- **An expression is read as its words.** -/
theorem reads_expression {e : Expr} (he : e.WellFormed) :
    Reads false (Outline.expression e).toList e.words := by
  rcases e with c | o
  · exact reads_call he
  · intro cs ws hcs h
    obtain ⟨hdelimited, hmore⟩ := spelled_operations he.2 hcs h
    have hoperand := reads_operand he.1 _ _ hdelimited hmore
    obtain ⟨negated, first, rest⟩ := o
    -- the operand and the operators behind it are as before; only the word for negation is added
    cases negated with
    | false =>
      have htext : (Outline.expression (.operation ⟨false, first, rest⟩)).toList ++ cs =
          (first.spell .source).toList ++ (operationChars rest ++ cs) := by
        rw [← List.append_assoc, ← toList_operation]
        rfl
      rw [htext]
      exact hoperand
    | true =>
      have htext : (Outline.expression (.operation ⟨true, first, rest⟩)).toList ++ cs =
          "not".toList ++ ' ' :: ((first.spell .source).toList ++ (operationChars rest ++ cs)) := by
        rw [← List.append_assoc, ← toList_operation]
        simp [Outline.expression, Expr.spell, Operation.parts, Spelling.source,
          String.intercalate_cons_cons]
      rw [htext]
      exact .keyword hoperand.blank (delimited_cons (by decide)) (by decide) (by decide)

/-! ### Clauses -/

/-- The word for a type. -/
theorem spelled_type {cs : List Char} {ws : List Word} (type : ValueType) (hcs : Delimited cs)
    (h : Spelled true cs ws) :
    Spelled true (type.text.toList ++ cs) (.plain type.kind :: ws) := by
  cases type <;> exact .keyword h hcs (by decide) (by decide)

/-- The word for a return type. -/
theorem spelled_returnType {cs : List Char} {ws : List Word} (type : ReturnType)
    (hcs : Delimited cs) (h : Spelled true cs ws) :
    Spelled true (type.text.toList ++ cs) (.plain type.kind :: ws) := by
  cases type with
  | value type => exact spelled_type type hcs h
  | nothing => exact .keyword h hcs (by decide) (by decide)

/-- A parameter: its name, a colon and its type. -/
theorem reads_param {p : Param} (hp : IsName p.name) : Reads true p.text.toList p.words := by
  intro cs ws hcs h
  have htext : p.text.toList ++ cs = p.name.toList ++ ':' :: ' ' :: (p.type.text.toList ++ cs) := by
    simp [Param.text]
  rw [htext]
  exact .name (.colon (spelled_type p.type hcs h).blank) (delimited_cons (by decide)) hp

/-- The header of a block: a word, a condition and a colon. -/
theorem spelled_header {word : String} {kind : Kind} {e : Expr} (he : e.WellFormed)
    (hkind : kind.endsOperand = false) (hword : isWord word.toList = true)
    (hof : ofWord word = Word.plain kind) :
    Spelled true (word.toList ++ ' ' :: ((Outline.expression e).toList ++ [':']))
      (.plain kind :: (e.words ++ [.plain .colon])) := by
  refine .keyword ?_ (delimited_cons (by decide)) hword hof
  rw [hkind]
  exact (reads_expression he _ _ (delimited_cons (by decide)) (.colon .nil)).blank

/-- The end of a line delimits as well. -/
theorem delimited_nil : Delimited [] := fun _ h => by cases h

/-- An expression up to the end of the line. -/
theorem spelled_expression {e : Expr} (he : e.WellFormed) :
    Spelled true (Outline.expression e).toList e.words := by
  have h := reads_expression he _ _ delimited_nil .nil
  rwa [List.append_nil, List.append_nil] at h

/-- The sign of an assignment, and the value behind it. -/
theorem spelled_assign {e : Expr} (he : e.WellFormed) (signed : Bool) :
    Spelled signed (' ' :: '=' :: ' ' :: (Outline.expression e).toList)
      (.plain .assign :: e.words) :=
  have hsign : meaning? signed ['='] = some (.ok (Word.plain .assign)) := by
    cases signed <;> decide
  .blank (.lexeme hsign (.inl (delimited_cons (by decide))) (spelled_expression he).blank)

end Offside.Linewise

namespace Offside

open Linewise

/-- A value for a variable, whose type may be declared with it. -/
theorem Clause.spelled_assignment {target : String} {value : Expr} (hname : IsName target)
    (type : Option ValueType) (hvalue : value.WellFormed) :
    Spelled true (text (.assign target type value)).toList (words (.assign target type value)) := by
  cases type with
  | none =>
    have htext : (text (.assign target none value)).toList =
        target.toList ++ ' ' :: '=' :: ' ' :: (Outline.expression value).toList := by
      simp [text]
    rw [htext]
    exact .name (spelled_assign hvalue _) (delimited_cons (by decide)) hname
  | some type =>
    have htext : (text (.assign target (some type) value)).toList =
        target.toList ++ ':' :: ' ' :: (type.text.toList ++
          ' ' :: '=' :: ' ' :: (Outline.expression value).toList) := by
      simp [text]
    -- with a type, the sign stands behind it and not behind the name
    have htype := spelled_type type (delimited_cons (by decide)) (spelled_assign hvalue true)
    rw [htext]
    exact .name (.colon htype.blank) (delimited_cons (by decide)) hname

/-- The header of a function. -/
theorem Clause.spelled_definition {name : String} {params : List Param} (hname : IsName name)
    (hparams : ∀ p ∈ params, IsName p.name) (returnType : ReturnType) :
    Spelled true (text (.define name params returnType)).toList
      (words (.define name params returnType)) := by
  have htext : (text (.define name params returnType)).toList =
      "def".toList ++ ' ' :: (name.toList ++ '(' ::
        ((String.intercalate ", " (params.map Param.text)).toList ++ ')' ::
          ' ' :: ("->".toList ++ ' ' :: (returnType.text.toList ++ [':'])))) := by
    simp [text]
  have hwords : words (.define name params returnType) =
      .plain .defWord :: .name name :: .plain .leftParen ::
        (separatedWords (params.map Param.words) ++ .plain .rightParen ::
          [.plain .arrow, .plain returnType.kind, .plain .colon]) := by
    simp [words]
  -- a minus sign after the parenthesis is no sign of a number, so the arrow is read whole
  have htype := spelled_returnType returnType (delimited_cons (by decide)) (.colon .nil)
  have harrow : Spelled false ("->".toList ++ ' ' :: (returnType.text.toList ++ [':']))
      [.plain .arrow, .plain returnType.kind, .plain .colon] :=
    .lexeme (by decide) (.inl (delimited_cons (by decide))) htype.blank
  rw [htext, hwords]
  refine .keyword (.blank (.name (.leftParen ?_) (delimited_cons (by decide)) hname))
    (delimited_cons (by decide)) (by decide) (by decide)
  exact spelled_listed (fun p hp => reads_param (hparams p hp)) harrow.blank

/-- **A clause is spelled with its words.** -/
theorem Clause.spelled_text {c : Clause} (hc : c.WellFormed) :
    Spelled true c.text.toList c.words := by
  cases c with
  | assign target type value => exact spelled_assignment hc.1 type hc.2
  -- in each case the text is first taken apart into lexemes, and then each lexeme is its rule
  | declare name type =>
    have htext : (text (.declare name type)).toList =
        name.toList ++ ':' :: ' ' :: (type.text.toList ++ []) := by
      simp [text]
    rw [htext]
    exact .name (.colon (spelled_type type delimited_nil .nil).blank)
      (delimited_cons (by decide)) hc
  | giveBack value =>
    cases value with
    | none =>
      have htext : (text (.giveBack none)).toList = "return".toList ++ [] := by simp [text]
      rw [htext]
      exact .keyword .nil delimited_nil (by decide) (by decide)
    | some value =>
      have htext : (text (.giveBack (some value))).toList =
          "return".toList ++ ' ' :: (Outline.expression value).toList := by
        simp [text]
      rw [htext]
      exact .keyword (spelled_expression hc).blank (delimited_cons (by decide)) (by decide)
        (by decide)
  | print args =>
    have htext : (text (.print args)).toList = "print".toList ++ '(' ::
        ((String.intercalate ", " (args.map Outline.expression)).toList ++ [')']) := by
      simp [text]
    rw [htext]
    refine .keyword (.leftParen ?_) (delimited_cons (by decide)) (by decide) (by decide)
    exact spelled_listed (fun e he => reads_expression (hc e he)) .nil
  | call c =>
    have h := reads_call hc _ _ delimited_nil .nil
    rwa [List.append_nil, List.append_nil] at h
  | loop condition =>
    have htext : (text (.loop condition)).toList =
        "while".toList ++ ' ' :: ((Outline.expression condition).toList ++ [':']) := by
      simp [text]
    rw [htext]
    exact spelled_header hc rfl (by decide) (by decide)
  | choose condition =>
    have htext : (text (.choose condition)).toList =
        "if".toList ++ ' ' :: ((Outline.expression condition).toList ++ [':']) := by
      simp [text]
    rw [htext]
    exact spelled_header hc rfl (by decide) (by decide)
  | chooseNext condition =>
    have htext : (text (.chooseNext condition)).toList =
        "elif".toList ++ ' ' :: ((Outline.expression condition).toList ++ [':']) := by
      simp [text]
    rw [htext]
    exact spelled_header hc rfl (by decide) (by decide)
  | otherwise =>
    have htext : (text .otherwise).toList = "else".toList ++ [':'] := by simp [text]
    rw [htext]
    exact .keyword (.colon .nil) (delimited_cons (by decide)) (by decide) (by decide)
  | define name params returnType => exact spelled_definition hc.1 hc.2 returnType

/-- A clause begins with a letter or an underscore. -/
theorem Clause.isWordStart_head {c : Clause} (hc : c.WellFormed) :
    c.text.toList.head?.any Token.isWordStart = true := by
  -- it begins with a name or with a word of the language
  have hname : ∀ {s : String}, IsName s →
      ∃ a cs, s.toList = a :: cs ∧ Token.isWordStart a = true := by
    intro s hs
    obtain ⟨a, cs, hcs, ha, -⟩ := isWord_iff.mp hs.1
    exact ⟨a, cs, hcs, ha⟩
  cases c with
  | assign target type value =>
    obtain ⟨a, cs, hcs, ha⟩ := hname hc.1
    cases type <;> simp [text, hcs, ha]
  | declare name type =>
    obtain ⟨a, cs, hcs, ha⟩ := hname hc
    simp [text, hcs, ha]
  | call c =>
    obtain ⟨a, cs, hcs, ha⟩ := hname hc.1
    simp [text, Call.spell, hcs, ha]
  | giveBack value => cases value <;> simp [text] <;> decide
  | print args => simp [text]; decide
  | loop condition => simp [text]; decide
  | choose condition => simp [text]; decide
  | chooseNext condition => simp [text]; decide
  | otherwise => decide
  | define name params returnType => simp [text]; decide

end Offside
