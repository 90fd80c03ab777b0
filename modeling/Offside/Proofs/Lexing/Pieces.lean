import Offside.Proofs.Lexing.Steps

/-!
# A text and its tokens

A text on which no fault is found is cut into **pieces**, one for each token that is written: the
gap before the lexeme, the lexeme, its token, and the tokens of the layout that the lexer puts
before it. Nothing of the text is left over but a gap at its end.

* `Span.behind` — the position behind a text, by counting;
* `Piece` and `Parted` — pieces, and a text that is cut into them;
* `Lexer.givesPieces` — the tokens of a lexer are those of the pieces of what it has to read;
* `tokenize_pieces` — nothing of a text is lost or invented, and all positions are exact.

The tokens of the layout are handed out before the token whose line asks for them, one in each step.
Between these steps the lexer stands before the lexeme, and the statement about it has to say so:
what it hands out next is what is due, and then the token of that lexeme.
-/

namespace Offside

open Token

/-! ### Positions -/

/-- **The position behind a text**: the line is counted by the line feeds, and the column by the
characters after the last of them. -/
def Span.behind (text : List Char) : Span :=
  ⟨1 + text.count '\n', 1 + (text.reverse.takeWhile (· ≠ '\n')).length⟩

theorem Span.after_start (text : List Char) : Span.start.after text = Span.behind text := by
  induction text using List.reverseRecOn with
  | nil => rfl
  | append_singleton text c ih =>
    rw [after_append, ih, behind, behind]
    by_cases hc : c = '\n'
    · rw [hc, after_newline]
      simp [after, nextLine, Nat.add_assoc]
    · rw [after_cons hc]
      simp [after, right, hc, Nat.add_comm]

/-! ### Pieces -/

/-- What belongs to one token that is written in a text. -/
structure Piece where
  /-- What stands before the lexeme. -/
  gap : List Char
  /-- The tokens of the layout that come before the token. -/
  layout : List Token
  lexeme : List Char
  token : Token

namespace Piece

/-- The part of the text that the piece is. -/
def text (p : Piece) : List Char := p.gap ++ p.lexeme

/-- The tokens that it gives. -/
def tokens (p : Piece) : List Token := p.layout ++ [p.token]

/-- **The piece stands at a position.** Only a new line has tokens of the layout before it. -/
structure Stands (p : Piece) (here : Span) : Prop where
  gap : Layout.Gap p.gap
  written : Written p.lexeme p.token.kind p.token.value
  span : p.token.span = here.after p.gap
  layout : ∀ t ∈ p.layout, t.kind.isLayout = true ∧ t.span = p.token.span
  newline : p.layout ≠ [] → '\n' ∈ p.gap

end Piece

/-- **A text at a position is cut into pieces**, and a gap at its end. -/
inductive Parted : Span → List Char → List Piece → List Char → Prop
  | nil {here : Span} {last : List Char} : Layout.LastGap last → Parted here last [] last
  | cons {here : Span} {p : Piece} {text : List Char} {pieces : List Piece} {last : List Char} :
    p.Stands here → Parted (here.after p.text) text pieces last →
    Parted here (p.text ++ text) (p :: pieces) last

namespace Parted

variable {here : Span} {text last : List Char} {pieces : List Piece}

theorem text_eq (h : Parted here text pieces last) :
    text = pieces.flatMap Piece.text ++ last := by
  induction h with
  | nil _ => rfl
  | cons _ _ ih => rw [List.flatMap_cons, List.append_assoc, ← ih]

theorem lastGap (h : Parted here text pieces last) : Layout.LastGap last := by
  induction h with
  | nil hlast => exact hlast
  | cons _ _ ih => exact ih

/-- Each piece stands behind those before it. -/
theorem stands (h : Parted here text pieces last) {before after : List Piece} {p : Piece}
    (hsplit : pieces = before ++ p :: after) :
    p.Stands (here.after (before.flatMap Piece.text)) := by
  induction h generalizing before with
  | nil _ => simp at hsplit
  | cons hp _ ih =>
    cases before with
    | nil =>
      cases hsplit
      exact hp
    | cons q before =>
      cases hsplit
      -- the position behind the pieces in front is reached one piece after another
      rw [List.flatMap_cons, Span.after_append]
      exact ih rfl

end Parted

/-! ### The pieces of a run -/

/-- Some tokens are those of the pieces of a text, and then those that close its open blocks. -/
def Gives (here : Span) (text : List Char) (ts : List Token) : Prop :=
  ∃ pieces last closing, Parted here text pieces last ∧
    ts = pieces.flatMap Piece.tokens ++ closing ∧
    ∀ t ∈ closing, t = .plain .dedent (here.after text)

/-- Some tokens are those of the layout that are due, and then those of a text that begins with a
lexeme. -/
def Begins (here : Span) (text : List Char) (layout ts : List Token) : Prop :=
  ∃ lexeme more t us, text = lexeme ++ more ∧ ts = layout ++ t :: us ∧
    Written lexeme t.kind t.value ∧ t.span = here ∧ Gives (here.after lexeme) more us

theorem Gives.nil {text : List Char} (h : Layout.LastGap text) (here : Span) {closing : List Token}
    (hclosing : ∀ t ∈ closing, t = .plain .dedent (here.after text)) : Gives here text closing :=
  ⟨[], text, closing, .nil h, rfl, hclosing⟩

/-- A text that begins with a lexeme behind a gap: all tokens of the layout belong to its piece. -/
theorem Begins.gives {here : Span} {gap text : List Char} {layout ts : List Token}
    (h : Begins (here.after gap) text layout ts) (hgap : Layout.Gap gap) (before : List Token)
    (hlayout : ∀ t ∈ before ++ layout, t.kind.isLayout = true ∧ t.span = here.after gap)
    (hline : before ++ layout ≠ [] → '\n' ∈ gap) : Gives here (gap ++ text) (before ++ ts) := by
  obtain ⟨lexeme, more, t, us, rfl, rfl, hwritten, hspan, pieces, last, closing, hparted, rfl,
    hclosing⟩ := h
  -- the gap and the layout are put before the lexeme as its piece
  let p : Piece := ⟨gap, before ++ layout, lexeme, t⟩
  have hp : p.Stands here := ⟨hgap, hwritten, hspan, fun u hu => hspan ▸ hlayout u hu, hline⟩
  have htext : p.text ++ more = gap ++ (lexeme ++ more) := List.append_assoc _ _ _
  rw [← Span.after_append] at hparted
  refine ⟨p :: pieces, last, closing, htext ▸ .cons hp hparted, ?_, fun u hu => ?_⟩
  · rw [List.flatMap_cons, Piece.tokens]
    simp [p]
  · rw [hclosing u hu, Span.after_append, Span.after_append]

namespace Lexer

/-- **What a lexer gives**, according to where it stands. Between tokens it gives the pieces of what
it has to read; before a lexeme it gives what is due, and then the token of the lexeme; and at the
end it gives what is due. -/
structure GivesPieces (l : Lexer) (ts : List Token) : Prop where
  between : l.pending = [] → l.phase ≠ .done → Gives l.here l.rest ts
  before : l.phase = .reading → Layout.Content l.rest → Begins l.here l.rest l.pending ts
  done : l.phase = .done → ts = l.pending

theorem GivesPieces.stop {l l' : Lexer} (h : Step l none l') : l.GivesPieces [] := by
  cases h with
  | exhausted hp hph =>
    refine ⟨fun _ hne => absurd hph hne, fun hreading _ => ?_, fun _ => hp.symm⟩
    rw [hph] at hreading
    cases hreading
  | finished hends _ =>
    -- there is no lexeme left, so the rest of the text is the last gap
    refine ⟨fun _ _ => .nil hends.gap _ (by simp), fun _ hcontent => ?_, fun hph => ?_⟩
    · exact absurd hcontent hends.gap.not_content
    · exact absurd hph hends.going

/-- A token of the layout is handed out before a lexeme, and the others wait. -/
theorem GivesPieces.layout {l : Lexer} {gap rest : List Char} {t : Token} {due ts : List Token}
    (hfinds : l.Finds gap rest) (hph : l.phase = .reading) (hline : '\n' ∈ gap)
    (hbegins : Begins (l.here.after gap) rest due ts)
    (hlayout : ∀ u ∈ t :: due, u.kind.isLayout = true ∧ u.span = l.here.after gap) :
    l.GivesPieces (t :: ts) := by
  refine ⟨fun _ _ => ?_, fun _ hcontent => ?_, fun hover => ?_⟩
  · rw [hfinds.split]
    exact hbegins.gives hfinds.gap [t] hlayout fun _ => hline
  · -- the lexer does not stand before the lexeme yet: there is a line feed between
    rw [hfinds.split] at hcontent
    rw [hfinds.gap.not_content hcontent] at hline
    cases hline
  · rw [hph] at hover
    cases hover

theorem GivesPieces.give {l l' : Lexer} {t : Token} {ts : List Token}
    (h : Step l (some (.ok t)) l') (hmore : l'.GivesPieces ts) : l.GivesPieces (t :: ts) := by
  cases h with
  | @due _ due hp =>
    refine ⟨fun hidle _ => ?_, fun hph hcontent => ?_, fun hph => ?_⟩
    · rw [hp] at hidle
      cases hidle
    · -- a token of the layout that was due is handed out before the same lexeme
      obtain ⟨lexeme, more, u, us, htext, hts, hrest⟩ := hmore.before hph hcontent
      exact ⟨lexeme, more, u, us, htext, by rw [hts, hp]; rfl, hrest⟩
    · rw [hmore.done hph, hp]
  | closing hends _ =>
    -- at the end of the text, everything that is left are ends of blocks
    have hts := hmore.done rfl
    refine ⟨fun _ _ => .nil hends.gap _ ?_, fun _ hcontent => ?_, fun hph => ?_⟩
    · intro u hu
      rw [hts, ← List.replicate_succ] at hu
      exact List.eq_of_mem_replicate hu
    · exact absurd hcontent hends.gap.not_content
    · exact absurd hph hends.going
  | @token gap lexeme rest kind value hfinds hph _ hm =>
    have hbegins : Begins (l.here.after gap) (lexeme ++ rest) []
        (⟨kind, value, l.here.after gap⟩ :: ts) := by
      refine ⟨lexeme, rest, _, ts, rfl, rfl, Linewise.written_of_meaning? hm, rfl, ?_⟩
      rw [← Span.after_append]
      exact hmore.between hfinds.idle (by simp [moved])
    refine ⟨fun _ _ => ?_, fun _ hcontent => ?_, fun hover => absurd hover hph⟩
    · rw [hfinds.split]
      exact hbegins.gives hfinds.gap [] (by simp) (absurd rfl)
    · -- the lexer stands before the lexeme already
      rw [hfinds.split] at hcontent
      obtain rfl := hfinds.gap.not_content hcontent
      rw [hfinds.split, hfinds.idle]
      exact hbegins
  | opened hfinds hph hline _ =>
    refine .layout hfinds hph hline (hmore.before rfl hfinds.content) ?_
    simp [moved, hfinds.idle, plain, Kind.isLayout]
  | continued hfinds hph hline =>
    refine .layout hfinds hph hline (hmore.before rfl hfinds.content) ?_
    simp [moved, hfinds.idle, plain, Kind.isLayout]
  | closed hfinds hph hline _ _ =>
    refine .layout hfinds hph hline (hmore.before rfl hfinds.content) ?_
    simp [plain, Kind.isLayout]

theorem givesPieces {l : Lexer} {ts : List Token} (h : l.tokens = .ok ts) : l.GivesPieces ts :=
  tokens_induction (motive := GivesPieces) .stop (fun hstep _ => .give hstep) h

end Lexer

/-- **Nothing of a text is lost or invented, and all positions are exact.** A text on which no fault
is found is made of pieces and a gap at its end. Each piece is a gap and the lexeme of a token that
is not of the layout; the position of the token is counted out in the text before the lexeme, and
the tokens of the layout before the token have the same position. The tokens behind those of the
pieces close the blocks that are open, at the end of the text. -/
theorem tokenize_pieces {tabWidth : UInt64} {source : String} {ts : List Token}
    (h : tokenize tabWidth source = .ok ts) :
    ∃ (pieces : List Piece) (last : List Char) (closing : List Token),
      source.toList = pieces.flatMap Piece.text ++ last ∧
        ts = pieces.flatMap Piece.tokens ++ closing ∧
        (∀ before p after, pieces = before ++ p :: after →
          Layout.Gap p.gap ∧
            Written p.lexeme p.token.kind p.token.value ∧
            p.token.kind.isLayout = false ∧
            p.token.span = Span.behind (before.flatMap Piece.text ++ p.gap) ∧
            ∀ t ∈ p.layout, t.kind.isLayout = true ∧ t.span = p.token.span) ∧
        Layout.LastGap last ∧
        ∀ t ∈ closing, t = .plain .dedent (Span.behind source.toList) := by
  obtain ⟨pieces, last, closing, hparted, hts, hclosing⟩ :=
    (Lexer.givesPieces h).between rfl (by simp [Lexer.ofSource])
  refine ⟨pieces, last, closing, hparted.text_eq, hts, ?_, hparted.lastGap, ?_⟩
  · intro before p after hsplit
    have hp := hparted.stands hsplit
    refine ⟨hp.gap, hp.written, hp.written.isLayout, ?_, hp.layout⟩
    -- where a piece stands is counted from the beginning of the text
    rw [hp.span, ← Span.after_append]
    exact Span.after_start _
  · intro t ht
    rw [hclosing t ht, ← Span.after_start]
    rfl

/-- A text with comments, an empty line, a tab, a carriage return, and characters outside ASCII. -/
def commentedText : String := "if a: # é\n\n\tb = -1.50\r\n  # ü"

/-- Its tokens. -/
def commentedTokens : List Token :=
  [.plain .ifWord ⟨1, 1⟩, ⟨.identifier, some (.name "a"), ⟨1, 4⟩⟩, .plain .colon ⟨1, 5⟩,
    .plain .indent ⟨3, 2⟩, ⟨.identifier, some (.name "b"), ⟨3, 2⟩⟩, .plain .assign ⟨3, 4⟩,
    ⟨.floatLiteral, some (.float (.ofDecimal true 150 (-2))), ⟨3, 6⟩⟩, .plain .dedent ⟨4, 6⟩]

theorem tokenize_commentedText :
    tokenize 8 commentedText = .ok commentedTokens ∧
      ∃ (pieces : List Piece) (last : List Char) (closing : List Token),
        commentedText.toList = pieces.flatMap Piece.text ++ last ∧
          commentedTokens = pieces.flatMap Piece.tokens ++ closing ∧
          (∀ p ∈ pieces, Written p.lexeme p.token.kind p.token.value) ∧
          ∀ t ∈ closing, t = .plain .dedent ⟨4, 6⟩ := by
  have htokens : tokenize 8 commentedText = .ok commentedTokens := by decide +kernel
  obtain ⟨pieces, last, closing, htext, hts, hpieces, -, hclosing⟩ := tokenize_pieces htokens
  have hend : Span.behind commentedText.toList = ⟨4, 6⟩ := by decide +kernel
  refine ⟨htokens, pieces, last, closing, htext, hts, fun p hp => ?_, hend ▸ hclosing⟩
  -- the pieces are described by what stands before and after each
  obtain ⟨before, after, hsplit⟩ := List.append_of_mem hp
  exact (hpieces before p after hsplit).2.1

end Offside
