import Offside.Proofs.Lexing.Pieces
import Offside.Text.Blank

/-!
# Tokens at the beginning of a line

A **line head** is a token that is first of all, or comes directly behind a token of the layout. In
the tokens of a text these are the tokens at the beginnings of lines: each has nothing but blanks
before it on its line (`BeginsLine`), and each stands on a later line than all tokens before it.

* `lineHeads` — the line heads of a token sequence;
* `tokenize_lineHeads` — the line heads of a text begin lines, and their lines ascend.
-/

namespace Offside

open Token Linewise

/-! ### Lines -/

/-- Each line feed begins a line, and nothing else does. -/
theorem Span.line_after (here : Span) (cs : List Char) :
    (here.after cs).line = here.line + cs.count '\n' := by
  induction cs generalizing here with
  | nil => rfl
  | cons c cs ih =>
    rw [after, ih]
    -- only a line feed changes the line
    split_ifs with hc
    · rw [hc, List.count_cons_self, Nat.add_comm _ 1, ← Nat.add_assoc]
      rfl
    · rw [List.count_cons_of_ne hc]
      rfl

/-- What comes before a lexeme is blank from the last line feed on. -/
theorem Layout.Gap.exists_margin {gap : List Char} (h : Gap gap) :
    ∃ front margin, gap = front ++ margin ∧ (∀ c ∈ margin, isBlank c = true) ∧
      (front = [] ∧ '\n' ∉ gap ∨ ∃ lines, front = lines ++ ['\n']) := by
  induction h with
  | nil => exact ⟨[], [], rfl, nofun, .inl ⟨rfl, List.not_mem_nil⟩⟩
  | @blank c cs hc _ ih =>
    obtain ⟨front, margin, rfl, hmargin, ⟨rfl, hline⟩ | ⟨lines, rfl⟩⟩ := ih
    · -- one more blank before the margin, and still no line feed
      refine ⟨[], c :: margin, rfl, List.forall_mem_cons.mpr ⟨hc, hmargin⟩, .inl ⟨rfl, ?_⟩⟩
      rw [List.nil_append, List.mem_cons, not_or]
      refine ⟨?_, hline⟩
      rintro rfl
      exact absurd hc (by decide)
    · exact ⟨c :: (lines ++ ['\n']), margin, rfl, hmargin, .inr ⟨c :: lines, rfl⟩⟩
  | @newline cs _ ih =>
    obtain ⟨front, margin, rfl, hmargin, ⟨rfl, -⟩ | ⟨lines, rfl⟩⟩ := ih
    · -- the margin begins behind this line feed
      exact ⟨['\n'], margin, rfl, hmargin, .inr ⟨[], rfl⟩⟩
    · exact ⟨'\n' :: (lines ++ ['\n']), margin, rfl, hmargin, .inr ⟨'\n' :: lines, rfl⟩⟩
  | @comment text cs _ _ ih =>
    obtain ⟨front, margin, rfl, hmargin, ⟨rfl, -⟩ | ⟨lines, rfl⟩⟩ := ih
    · -- it begins behind the line feed that ends the comment
      exact ⟨'#' :: (text ++ ['\n']), margin, by simp, hmargin, .inr ⟨'#' :: text, by simp⟩⟩
    · exact ⟨'#' :: (text ++ '\n' :: (lines ++ ['\n'])), margin, by simp, hmargin,
        .inr ⟨'#' :: (text ++ '\n' :: lines), by simp⟩⟩

/-- No word has white space in it. -/
theorem Blank.not_isBlank_of_isWordPart {c : Char} (h : isWordPart c = true) :
    Blank.isBlank c = false :=
  Blank.not_isBlank_of (by decide) h

/-- **A lexeme has no white space in it.** -/
theorem Token.Written.not_isBlank {cs : List Char} {kind : Kind} {value : Option Value}
    (h : Written cs kind value) : ∀ c ∈ cs, Blank.isBlank c = false := by
  have hdigits : ∀ {ds : List Char}, isDigits ds = true → ∀ c ∈ ds, Blank.isBlank c = false := by
    intro ds hds c hc
    have hdigit := (isDigits_iff.mp hds).2 c hc
    exact Blank.not_isBlank_of_isWordPart (by simp [isWordPart, Char.isAlphanum, hdigit])
  have hsign : ∀ negative : Bool, ∀ c ∈ sign negative, Blank.isBlank c = false := by
    intro negative
    cases negative with
    | false => exact List.forall_mem_nil _
    | true => exact List.forall_mem_singleton.mpr (by decide)
  -- words and operators are finitely many; names and numbers are told by their characters
  cases h with
  | word hw _ =>
    have hwords : (Kind.words.all fun w => w.1.toList.all fun c => !Blank.isBlank c) = true := by
      decide
    intro c hc
    simpa using List.all_eq_true.mp (List.all_eq_true.mp hwords _ hw) c hc
  | truth b =>
    have hall : ((boolText b).toList.all fun c => !Blank.isBlank c) = true := by
      cases b <;> decide
    intro c hc
    simpa using List.all_eq_true.mp hall c hc
  | name hword _ =>
    obtain ⟨-, -, -, -, hpart⟩ := isWord_iff.mp hword
    exact fun c hc => Blank.not_isBlank_of_isWordPart (hpart c hc)
  | operator hop =>
    have hops : (operators.all fun op => op.1.all fun c => !Blank.isBlank c) = true := by decide
    intro c hc
    simpa using List.all_eq_true.mp (List.all_eq_true.mp hops _ hop) c hc
  | int hds _ => exact List.forall_mem_append.mpr ⟨hsign _, hdigits hds⟩
  | float hwhole hfraction _ _ =>
    refine List.forall_mem_append.mpr ⟨List.forall_mem_append.mpr ⟨hsign _, hdigits hwhole⟩, ?_⟩
    exact List.forall_mem_cons.mpr ⟨by decide, hdigits hfraction⟩

/-- A lexeme has a character. -/
theorem Token.Written.ne_nil {cs : List Char} {kind : Kind} {value : Option Value}
    (h : Written cs kind value) : cs ≠ [] := by
  cases h with
  | word hw _ =>
    -- the tables are looked through; the others begin with a letter or a digit
    have hwords : (Kind.words.all fun w => !w.1.toList.isEmpty) = true := by decide
    simpa using List.all_eq_true.mp hwords _ hw
  | truth b => cases b <;> decide
  | name hword _ =>
    obtain ⟨c, cs, hcs, -⟩ := isWord_iff.mp hword
    rw [hcs]
    exact List.cons_ne_nil c cs
  | operator hop =>
    have hops : (operators.all fun op => !op.1.isEmpty) = true := by decide
    simpa using List.all_eq_true.mp hops _ hop
  | int hds _ => exact List.append_ne_nil_of_right_ne_nil _ (isDigits_iff.mp hds).1
  | float _ _ _ _ => exact List.append_ne_nil_of_right_ne_nil _ (List.cons_ne_nil _ _)

/-- **The position is that of the first character of its line that is not blank.** What comes before
it ends with a line feed and a margin of blanks, or is such a margin. -/
def BeginsLine (text : List Char) (span : Span) : Prop :=
  ∃ before margin c rest, text = before ++ margin ++ c :: rest ∧
    (before = [] ∨ ∃ lines, before = lines ++ ['\n']) ∧
    (∀ d ∈ margin, Layout.isBlank d = true) ∧ Blank.isBlank c = false ∧
    span = Span.behind (before ++ margin)

/-! ### Line heads -/

/-- **The line heads of a token sequence**, which begins with one if `fresh`. -/
def lineHeads (fresh : Bool) : List Token → List Token
  | [] => []
  | t :: ts =>
    if t.kind.isLayout then lineHeads true ts
    else if fresh then t :: lineHeads false ts else lineHeads false ts

/-- Behind a token of the layout a line begins. -/
theorem lineHeads_layout {t : Token} (ht : t.kind.isLayout = true) (fresh : Bool)
    (ts : List Token) : lineHeads fresh (t :: ts) = lineHeads true ts := by
  rw [lineHeads, if_pos ht]

/-- At the beginning of a line, a token is a line head. -/
theorem lineHeads_fresh {t : Token} (ht : t.kind.isLayout = false) (ts : List Token) :
    lineHeads true (t :: ts) = t :: lineHeads false ts := by
  rw [lineHeads, ht, if_neg Bool.false_ne_true, if_pos rfl]

/-- What stands on one line has no line head behind its first token. -/
theorem lineHeads_inline {ts : List Token} (hts : ∀ t ∈ ts, t.kind.isLayout = false)
    (us : List Token) : lineHeads false (ts ++ us) = lineHeads false us := by
  induction ts with
  | nil => rfl
  | cons t ts ih =>
    obtain ⟨ht, hts⟩ := List.forall_mem_cons.mp hts
    rw [List.cons_append, lineHeads, ht, if_neg Bool.false_ne_true, if_neg Bool.false_ne_true,
      ih hts]

/-- Several tokens of the layout count as one. -/
theorem lineHeads_allLayout {ts : List Token} (hts : ∀ t ∈ ts, t.kind.isLayout = true)
    (fresh : Bool) (us : List Token) :
    lineHeads fresh (ts ++ us) = lineHeads (fresh || !ts.isEmpty) us := by
  induction ts generalizing fresh with
  | nil => simp
  | cons t ts ih =>
    obtain ⟨ht, hts⟩ := List.forall_mem_cons.mp hts
    rw [List.cons_append, lineHeads_layout ht, ih hts]
    simp

/-- The line heads of pieces: those with tokens of the layout before them. -/
theorem lineHeads_piece {p : Piece} {here : Span} (hp : p.Stands here) (fresh : Bool)
    (ts : List Token) :
    lineHeads fresh (p.tokens ++ ts) =
      if fresh || !p.layout.isEmpty then p.token :: lineHeads false ts else lineHeads false ts := by
  rw [Piece.tokens, List.append_assoc, lineHeads_allLayout (fun t ht => (hp.layout t ht).1),
    List.singleton_append, lineHeads, hp.written.isLayout, if_neg Bool.false_ne_true]

namespace Parted

variable {here : Span} {text last : List Char} {pieces : List Piece} {closing : List Token}

/-- **Each line head stands on a later line than what is before it.** -/
theorem ascending (h : Parted here text pieces last)
    (hclosing : ∀ t ∈ closing, t.kind.isLayout = true) :
    (here.line :: (lineHeads false (pieces.flatMap Piece.tokens ++ closing)).map
      (·.span.line)).Pairwise (· < ·) := by
  induction h with
  | nil _ =>
    have hnone : lineHeads false closing = [] := by
      have hall := lineHeads_allLayout hclosing false []
      rwa [List.append_nil] at hall
    rw [List.flatMap_nil, List.nil_append, hnone]
    exact List.pairwise_singleton _ _
  | @cons here p text pieces last hp _ ih =>
    -- the token is as many lines further down as the gap has line feeds
    have hgap : here.line + p.gap.count '\n' = p.token.span.line := by
      rw [hp.span, Span.line_after]
    have hbefore : (here.after p.text).line = p.token.span.line + p.lexeme.count '\n' := by
      rw [Span.line_after, Piece.text, List.count_append, ← hgap, Nat.add_assoc]
    obtain ⟨hlater, hmore⟩ := List.pairwise_cons.mp ih
    rw [List.flatMap_cons, List.append_assoc, lineHeads_piece hp]
    split_ifs with hhead
    · -- the head of a line has a line feed before it
      have hline : '\n' ∈ p.gap := by
        apply hp.newline
        simpa using hhead
      have hpos := List.count_pos_iff.mpr hline
      have hnext : ∀ n ∈ (lineHeads false (pieces.flatMap Piece.tokens ++ closing)).map
          (·.span.line), p.token.span.line < n := by
        intro n hn
        have hn := hlater n hn
        omega
      rw [List.map_cons, List.pairwise_cons, List.pairwise_cons, List.forall_mem_cons]
      refine ⟨⟨by omega, fun n hn => ?_⟩, hnext, hmore⟩
      have hn := hnext n hn
      omega
    · -- no head, so the heads behind it are all there are
      refine List.pairwise_cons.mpr ⟨fun n hn => ?_, hmore⟩
      have hn := hlater n hn
      omega

/-- The lines of all line heads ascend, that of the first token included. -/
theorem ascending_fresh (h : Parted here text pieces last)
    (hclosing : ∀ t ∈ closing, t.kind.isLayout = true) :
    ((lineHeads true (pieces.flatMap Piece.tokens ++ closing)).map (·.span.line)).Pairwise
      (· < ·) := by
  cases h with
  | nil _ =>
    have hnone := lineHeads_allLayout hclosing true []
    rw [List.append_nil] at hnone
    rw [List.flatMap_nil, List.nil_append, hnone]
    exact List.Pairwise.nil
  | @cons _ p text pieces last hp hmore =>
    -- the first token is a head whatever comes before it, and the others are on later lines
    obtain ⟨hlater, hpairwise⟩ := List.pairwise_cons.mp (hmore.ascending hclosing)
    rw [List.flatMap_cons, List.append_assoc, lineHeads_piece hp, Bool.true_or, if_pos rfl,
      List.map_cons, List.pairwise_cons]
    refine ⟨fun n hn => ?_, hpairwise⟩
    have hn := hlater n hn
    rw [Piece.text, Span.after_append, ← hp.span, Span.line_after] at hn
    omega

/-- Each line head is the token of a piece that is first, or has a line feed before it. -/
theorem exists_piece (h : Parted here text pieces last)
    (hclosing : ∀ t ∈ closing, t.kind.isLayout = true) {fresh : Bool} {t : Token}
    (ht : t ∈ lineHeads fresh (pieces.flatMap Piece.tokens ++ closing)) :
    ∃ before p after, pieces = before ++ p :: after ∧ t = p.token ∧
      (fresh = true ∧ before = [] ∨ '\n' ∈ p.gap) := by
  induction h generalizing fresh with
  | nil _ =>
    have hnone := lineHeads_allLayout hclosing fresh []
    rw [List.append_nil] at hnone
    rw [List.flatMap_nil, List.nil_append, hnone] at ht
    cases ht
  | @cons here p text pieces last hp _ ih =>
    -- a head of the later pieces has a line feed before it, as the first piece is in front
    have hmore : t ∈ lineHeads false (pieces.flatMap Piece.tokens ++ closing) →
        ∃ before q after, p :: pieces = before ++ q :: after ∧ t = q.token ∧
          (fresh = true ∧ before = [] ∨ '\n' ∈ q.gap) := by
      intro ht
      obtain ⟨before, q, after, rfl, rfl, ⟨hfalse, -⟩ | hq⟩ := ih ht
      · cases hfalse
      · exact ⟨p :: before, q, after, rfl, rfl, .inr hq⟩
    rw [List.flatMap_cons, List.append_assoc, lineHeads_piece hp] at ht
    -- the token of the first piece is a head if the text is new or the layout before it is
    split_ifs at ht with hhead
    · obtain rfl | ht := List.mem_cons.mp ht
      · refine ⟨[], p, pieces, rfl, rfl, ?_⟩
        cases fresh with
        | true => exact .inl ⟨rfl, rfl⟩
        | false => exact .inr (hp.newline (by simpa using hhead))
      · exact hmore ht
    · exact hmore ht

end Parted

/-- **The line heads of a text begin its lines**, each on a later line than those before it. -/
theorem tokenize_lineHeads {tabWidth : UInt64} {source : String} {ts : List Token}
    (h : tokenize tabWidth source = .ok ts) :
    (∀ t ∈ lineHeads true ts, BeginsLine source.toList t.span) ∧
      ((lineHeads true ts).map (·.span.line)).Pairwise (· < ·) := by
  obtain ⟨pieces, last, closing, hparted, rfl, hclosing⟩ :=
    (Lexer.givesPieces h).between rfl (by simp [Lexer.ofSource])
  have hlayout : ∀ t ∈ closing, t.kind.isLayout = true := by
    intro t ht
    rw [hclosing t ht]
    rfl
  refine ⟨fun t ht => ?_, hparted.ascending_fresh hlayout⟩
  obtain ⟨before, p, after, hsplit, rfl, hhead⟩ := hparted.exists_piece hlayout ht
  have hp := hparted.stands hsplit
  obtain ⟨c, cs, hlexeme⟩ := List.exists_cons_of_ne_nil hp.written.ne_nil
  have hc : Blank.isBlank c = false := hp.written.not_isBlank c (hlexeme ▸ List.mem_cons_self)
  have hspan : p.token.span = Span.behind (before.flatMap Piece.text ++ p.gap) := by
    rw [hp.span, ← Span.after_append]
    exact Span.after_start _
  -- the text around the first character of the lexeme
  have htext : source.toList = before.flatMap Piece.text ++ p.gap ++
      c :: (cs ++ after.flatMap Piece.text ++ last) := by
    have heq : source.toList = pieces.flatMap Piece.text ++ last := hparted.text_eq
    rw [heq, hsplit, List.flatMap_append, List.flatMap_cons, Piece.text, hlexeme]
    simp
  -- the margin begins behind the last line feed of the gap, or else with the text
  obtain ⟨front, margin, hgap, hmargin, ⟨rfl, hline⟩ | ⟨lines, rfl⟩⟩ := hp.gap.exists_margin
  · obtain ⟨-, rfl⟩ | hmem := hhead
    · rw [hgap] at htext hspan
      exact ⟨[], margin, c, _, htext, .inl rfl, hmargin, hc, hspan⟩
    · exact absurd hmem hline
  · rw [hgap, ← List.append_assoc] at htext hspan
    exact ⟨_, margin, c, _, htext, .inr ⟨before.flatMap Piece.text ++ lines, by simp⟩, hmargin, hc,
      hspan⟩

end Offside
