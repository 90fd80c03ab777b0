import Offside.Proofs.Lexing.Spelling
import Offside.Proofs.Linewise.Progress

/-!
# What a step of a lexer can do

A step of a lexer passes over what separates tokens and then does one thing: it hands out a token,
reports a fault, runs into a trap, or finds the text at its end. All that can happen is listed once,
with the answer and the lexer after it, so that what holds along a run is shown by going through
this list and never by taking the step itself apart again.

* `Layout.Gap` and `Layout.LastGap` — what separates tokens, and what follows the last one;
* `Span.after` — the position behind some characters;
* `Lexer.Step` — the things that a step can do, and `Lexer.step_next` — there are no others;
* `Lexer.tokens_induction` — induction over the tokens of a lexer, one step after another.
-/

namespace Offside

/-! ### Positions -/

namespace Span

/-- The position behind some characters that begin at a position. -/
def after (here : Span) : List Char → Span
  | [] => here
  | c :: cs => after (if c = '\n' then here.nextLine else here.right 1) cs

/-- Positions are counted on from character to character, so a text may be split anywhere. -/
theorem after_append (here : Span) (cs ds : List Char) :
    here.after (cs ++ ds) = (here.after cs).after ds := by
  induction cs generalizing here with
  | nil => rfl
  | cons c cs ih => exact ih _

/-- A line feed begins a new line. -/
theorem after_newline (here : Span) (cs : List Char) :
    here.after ('\n' :: cs) = here.nextLine.after cs := by
  rw [after, if_pos rfl]

/-- Any other character takes one column. -/
theorem after_cons {c : Char} (hc : c ≠ '\n') (here : Span) (cs : List Char) :
    here.after (c :: cs) = (here.right 1).after cs := by
  rw [after, if_neg hc]

/-- The form in which a search hands back its position: a gap, the line feed that ends it, and what
was found behind. -/
theorem after_line (here : Span) (cs ds : List Char) :
    (here.after cs).nextLine.after ds = here.after (cs ++ '\n' :: ds) := by
  rw [after_append, after_newline]

/-- On one line only the column changes. -/
theorem after_of_not_mem {cs : List Char} (h : '\n' ∉ cs) (here : Span) :
    here.after cs = here.right cs.length := by
  induction cs generalizing here with
  | nil => rfl
  | cons c cs ih =>
    rw [List.mem_cons, not_or] at h
    rw [after_cons (Ne.symm h.1), ih h.2, List.length_cons]
    simp only [right, Nat.add_assoc, Nat.add_comm 1]

end Span

/-! ### Gaps -/

namespace Layout

/-- **A gap between two lexemes**: blanks, line feeds, and comments, each up to a line feed. -/
inductive Gap : List Char → Prop
  | nil : Gap []
  | blank {c : Char} {cs : List Char} : isBlank c = true → Gap cs → Gap (c :: cs)
  | newline {cs : List Char} : Gap cs → Gap ('\n' :: cs)
  | comment {text cs : List Char} : '\n' ∉ text → Gap cs → Gap ('#' :: (text ++ '\n' :: cs))

/-- **What follows the last lexeme**: a gap, and then nothing or a comment up to the end. -/
inductive LastGap : List Char → Prop
  | gap {cs : List Char} : Gap cs → LastGap cs
  | comment {cs text : List Char} : Gap cs → '\n' ∉ text → LastGap (cs ++ '#' :: text)

/-- Something other than a gap comes first. -/
def Content (cs : List Char) : Prop := ∃ c rest, cs = c :: rest ∧ Linewise.isGap c = false

/-- A comment without text. -/
theorem Gap.comment_empty {cs : List Char} (h : Gap cs) : Gap ('#' :: '\n' :: cs) :=
  @Gap.comment [] cs List.not_mem_nil h

/-- A comment up to the end and nothing before it. -/
theorem LastGap.comment_alone {text : List Char} (h : '\n' ∉ text) : LastGap ('#' :: text) :=
  @LastGap.comment [] text .nil h

/-- Two gaps in a row are a gap. A comment ends within its gap, so it does not run into the next. -/
theorem Gap.append {cs ds : List Char} (h : Gap cs) (h' : Gap ds) : Gap (cs ++ ds) := by
  induction h with
  | nil => exact h'
  | blank hc _ ih => exact .blank hc ih
  | newline _ ih => exact .newline ih
  | comment htext _ ih =>
    rw [List.cons_append, List.append_assoc]
    exact .comment htext ih

/-- Only the last part of a gap may end in an open comment. -/
theorem LastGap.append {cs ds : List Char} (h : Gap cs) (h' : LastGap ds) : LastGap (cs ++ ds) := by
  cases h' with
  | gap h' => exact .gap (h.append h')
  | comment h' htext =>
    rw [← List.append_assoc]
    exact .comment (h.append h') htext

/-- A blank before the last gap. -/
theorem LastGap.blank {c : Char} {cs : List Char} (hc : isBlank c = true) (h : LastGap cs) :
    LastGap (c :: cs) :=
  @LastGap.append [c] cs (.blank hc .nil) h

/-- A gap begins with a character that can only stand in a gap. -/
theorem Gap.not_content {gap cs : List Char} (h : Gap gap) (hc : Content (gap ++ cs)) :
    gap = [] := by
  obtain ⟨c, rest, heq, hgap⟩ := hc
  -- each kind of gap begins with a character that begins no content
  cases h with
  | nil => rfl
  | blank hblank _ =>
    cases heq
    rw [(Linewise.not_isGap_iff.mp hgap).1] at hblank
    cases hblank
  | newline _ =>
    cases heq
    exact absurd hgap (by decide)
  | comment _ _ =>
    cases heq
    exact absurd hgap (by decide)

/-- Nothing is read from the last gap: its gap is empty by `Gap.not_content`, and a comment is no
content. -/
theorem LastGap.not_content {cs : List Char} (h : LastGap cs) : ¬ Content cs := by
  intro hc
  cases h with
  | gap h =>
    rw [← List.append_nil cs] at hc
    have hnil := h.not_content hc
    obtain ⟨c, rest, heq, -⟩ := hc
    rw [hnil] at heq
    cases heq
  | comment h htext =>
    -- the comment itself is no content either
    obtain rfl := h.not_content hc
    obtain ⟨c, rest, heq, hgap⟩ := hc
    cases heq
    exact absurd hgap (by decide)

/-! ### Searching through gaps -/

/-- The sign of the comment that a search starts in, if it does. -/
def openComment (comment : Bool) : List Char := if comment then ['#'] else []

/-- One more character of a comment, before the line feed that ends it. -/
theorem Gap.comment_cons {c : Char} {cs : List Char} (hc : c ≠ '\n') (h : Gap ('#' :: cs)) :
    Gap ('#' :: c :: cs) := by
  -- the gap is generalized so that the cases can be told apart by their first character
  generalize hds : '#' :: cs = ds at h
  cases h with
  | nil => cases hds
  | blank hblank _ =>
    cases hds
    exact absurd hblank (by decide)
  | newline _ => cases hds
  | @comment text rest htext hrest =>
    cases hds
    rw [← List.cons_append]
    refine .comment ?_ hrest
    rw [List.mem_cons, not_or]
    exact ⟨Ne.symm hc, htext⟩

/-- The same where the comment may run to the end of the text. -/
theorem LastGap.comment_cons {c : Char} {cs : List Char} (hc : c ≠ '\n') (h : LastGap ('#' :: cs)) :
    LastGap ('#' :: c :: cs) := by
  generalize hds : '#' :: cs = ds at h
  cases h with
  | gap h =>
    rw [← hds] at h
    exact .gap (h.comment_cons hc)
  | @comment gap text h htext =>
    -- the comment is the last one, or the first of several
    cases gap with
    | nil =>
      cases hds
      refine .comment_alone ?_
      rw [List.mem_cons, not_or]
      exact ⟨Ne.symm hc, htext⟩
    | cons d gap =>
      cases hds
      exact @LastGap.comment ('#' :: c :: gap) text (h.comment_cons hc) htext

/-- A line feed ends the comment that a search starts in, if it does. -/
theorem Gap.openComment_newline {cs : List Char} (comment : Bool) (h : Gap cs) :
    Gap (openComment comment ++ '\n' :: cs) := by
  cases comment with
  | false => exact .newline h
  | true => exact h.comment_empty

/-- A character of a comment, whether the comment begins with it or before it. -/
theorem Gap.openComment_cons {comment : Bool} {c : Char} {cs : List Char} (hline : c ≠ '\n')
    (hc : (comment || c = '#') = true) (h : Gap ('#' :: cs)) :
    Gap (openComment comment ++ c :: cs) := by
  cases comment with
  | true => exact h.comment_cons hline
  | false =>
    obtain rfl : c = '#' := by simpa using hc
    exact h

/-- At the end of the text the comment that a search starts in is the last one. -/
theorem LastGap.openComment_nil (comment : Bool) : LastGap (openComment comment ++ []) := by
  cases comment with
  | false => exact .gap .nil
  | true => exact .comment_alone List.not_mem_nil

/-- The line feed is a gap of its own, before the last one. -/
theorem LastGap.openComment_newline {cs : List Char} (comment : Bool) (h : LastGap cs) :
    LastGap (openComment comment ++ '\n' :: cs) := by
  rw [List.append_cons]
  exact h.append (Gap.nil.openComment_newline comment)

/-- The same as `Gap.openComment_cons`, for a comment that may be the last. -/
theorem LastGap.openComment_cons {comment : Bool} {c : Char} {cs : List Char} (hline : c ≠ '\n')
    (hc : (comment || c = '#') = true) (h : LastGap ('#' :: cs)) :
    LastGap (openComment comment ++ c :: cs) := by
  cases comment with
  | true => exact h.comment_cons hline
  | false =>
    obtain rfl : c = '#' := by simpa using hc
    exact h

section Search

variable {tabWidth width w : UInt64} {comment : Bool} {here h : Span} {cs rest : List Char}

/-- A search through the lines passes over a gap and stops before something else. -/
theorem seek_eq_content (heq : seek tabWidth comment width here cs = .content w h rest) :
    ∃ gap, cs = gap ++ rest ∧ Gap (openComment comment ++ gap) ∧ Content rest ∧
      h = here.after gap := by
  induction cs generalizing comment width here with
  | nil => cases heq
  | cons c cs ih =>
    unfold seek at heq
    split_ifs at heq with hline hcomment hblank
    · -- a line feed ends the comment, if there is one
      -- inside a comment, or at its first character
      obtain ⟨gap, rfl, hgap, hcontent, rfl⟩ := ih heq
      refine ⟨c :: gap, rfl, ?_, hcontent, by rw [hline, Span.after_newline]⟩
      exact hline ▸ hgap.openComment_newline comment
    · obtain ⟨gap, rfl, hgap, hcontent, rfl⟩ := ih heq
      exact ⟨c :: gap, rfl, hgap.openComment_cons hline hcomment, hcontent,
        by rw [Span.after_cons hline]⟩
    · -- a blank that can be measured
      obtain ⟨rfl, -⟩ : comment = false ∧ c ≠ '#' := by simpa using hcomment
      split at heq
      · obtain ⟨gap, rfl, hgap, hcontent, rfl⟩ := ih heq
        exact ⟨c :: gap, rfl, .blank hblank hgap, hcontent, by rw [Span.after_cons hline]⟩
      · cases heq
    · cases heq
      -- neither of them: the search stops here, with an empty gap
      obtain ⟨rfl, hhash⟩ : comment = false ∧ c ≠ '#' := by simpa using hcomment
      have hc : Linewise.isGap c = false :=
        Linewise.not_isGap_iff.mpr ⟨by simpa using hblank, hline, hhash⟩
      exact ⟨[], rfl, .nil, ⟨c, cs, rfl, hc⟩, rfl⟩

/-- A search that reaches the end of the text has passed over the last gap. -/
theorem seek_eq_endOfText (heq : seek tabWidth comment width here cs = .endOfText h) :
    LastGap (openComment comment ++ cs) ∧ h = here.after cs := by
  induction cs generalizing comment width here with
  | nil =>
    cases heq
    exact ⟨.openComment_nil comment, rfl⟩
  | cons c cs ih =>
    -- each character that is passed over extends the gap from the left, as the induction gives it
    unfold seek at heq
    split_ifs at heq with hline hcomment hblank
    · obtain ⟨hgap, rfl⟩ := ih heq
      exact ⟨hline ▸ hgap.openComment_newline comment, by rw [hline, Span.after_newline]⟩
    · obtain ⟨hgap, rfl⟩ := ih heq
      exact ⟨hgap.openComment_cons hline hcomment, by rw [Span.after_cons hline]⟩
    · obtain ⟨rfl, -⟩ : comment = false ∧ c ≠ '#' := by simpa using hcomment
      split at heq
      · obtain ⟨hgap, rfl⟩ := ih heq
        exact ⟨hgap.blank hblank, by rw [Span.after_cons hline]⟩
      · cases heq

/-- Passing over the blanks of a line, and a comment, comes to the end of the text, to a line feed,
or to something else. -/
theorem skip_eq (heq : skip comment here cs = (h, rest)) :
    ∃ gap, cs = gap ++ rest ∧ '\n' ∉ gap ∧ h = here.after gap ∧
      ((rest = [] ∧ LastGap (openComment comment ++ gap)) ∨
        (∃ more, rest = '\n' :: more ∧ Gap (openComment comment ++ gap ++ ['\n'])) ∨
        (Content rest ∧ comment = false ∧ Gap gap)) := by
  induction cs generalizing comment here with
  | nil =>
    cases heq
    exact ⟨[], rfl, by simp, rfl, .inl ⟨rfl, .openComment_nil comment⟩⟩
  | cons c cs ih =>
    unfold skip at heq
    split_ifs at heq with hline hcomment hblank
    · cases heq
      -- a line feed stops the search, in a comment or not
      refine ⟨[], rfl, by simp, rfl, .inr (.inl ⟨cs, by rw [hline], ?_⟩)⟩
      rw [List.append_nil]
      exact Gap.nil.openComment_newline comment
    · obtain ⟨gap, rfl, hnot, rfl, hcases⟩ := ih heq
      refine ⟨c :: gap, rfl, ?_, by rw [Span.after_cons hline], ?_⟩
      · rw [List.mem_cons, not_or]
        exact ⟨Ne.symm hline, hnot⟩
      -- from inside a comment the search does not stop before the end of the line
      rcases hcases with ⟨hrest, hgap⟩ | ⟨more, hrest, hgap⟩ | ⟨-, hfalse, -⟩
      · exact .inl ⟨hrest, hgap.openComment_cons hline hcomment⟩
      · refine .inr (.inl ⟨more, hrest, ?_⟩)
        rw [List.append_assoc, List.cons_append]
        exact hgap.openComment_cons hline hcomment
      · cases hfalse
    · obtain ⟨rfl, -⟩ : comment = false ∧ c ≠ '#' := by simpa using hcomment
      obtain ⟨gap, rfl, hnot, rfl, hcases⟩ := ih heq
      refine ⟨c :: gap, rfl, ?_, by rw [Span.after_cons hline], ?_⟩
      · rw [List.mem_cons, not_or]
        exact ⟨Ne.symm hline, hnot⟩
      rcases hcases with ⟨hrest, hgap⟩ | ⟨more, hrest, hgap⟩ | ⟨hcontent, -, hgap⟩
      · exact .inl ⟨hrest, hgap.blank hblank⟩
      · exact .inr (.inl ⟨more, hrest, .blank hblank hgap⟩)
      · exact .inr (.inr ⟨hcontent, rfl, .blank hblank hgap⟩)
    · cases heq
      -- the first character of something else
      obtain ⟨rfl, hhash⟩ : comment = false ∧ c ≠ '#' := by simpa using hcomment
      have hc : Linewise.isGap c = false :=
        Linewise.not_isGap_iff.mpr ⟨by simpa using hblank, hline, hhash⟩
      exact ⟨[], rfl, by simp, rfl, .inr (.inr ⟨⟨c, cs, rfl, hc⟩, rfl, .nil⟩)⟩

/-- The three cases of `skip_eq` told apart by what is left: here nothing. -/
theorem skip_eq_nil (heq : skip false here cs = (h, [])) : LastGap cs ∧ h = here.after cs := by
  obtain ⟨gap, rfl, -, rfl, hcases⟩ := skip_eq heq
  rw [List.append_nil]
  rcases hcases with ⟨-, hgap⟩ | ⟨more, hmore, -⟩ | ⟨⟨c, more, hmore, -⟩, -⟩
  · exact ⟨hgap, rfl⟩
  · cases hmore
  · cases hmore

/-- Here a line feed, which ends the gap. -/
theorem skip_eq_newline (heq : skip false here cs = (h, '\n' :: rest)) :
    ∃ gap, cs = gap ++ '\n' :: rest ∧ Gap (gap ++ ['\n']) ∧ h = here.after gap := by
  obtain ⟨gap, hsplit, -, hhere, hcases⟩ := skip_eq heq
  refine ⟨gap, hsplit, ?_, hhere⟩
  rcases hcases with ⟨hmore, -⟩ | ⟨more, -, hgap⟩ | ⟨⟨c, more, hmore, hc⟩, -⟩
  · cases hmore
  · exact hgap
  · cases hmore
    exact absurd hc (by decide)

/-- Here something else, and the gap before it has no line feed in it. -/
theorem skip_eq_content (heq : skip false here cs = (h, rest)) (hend : rest ≠ [])
    (hline : ∀ more, rest ≠ '\n' :: more) :
    ∃ gap, cs = gap ++ rest ∧ '\n' ∉ gap ∧ Gap gap ∧ Content rest ∧ h = here.after gap := by
  obtain ⟨gap, hsplit, hnot, hhere, hcases⟩ := skip_eq heq
  rcases hcases with ⟨hrest, -⟩ | ⟨more, hrest, -⟩ | ⟨hcontent, -, hgap⟩
  · exact absurd hrest hend
  · exact absurd hrest (hline more)
  · exact ⟨gap, hsplit, hnot, hgap, hcontent, hhere⟩

end Search

end Layout

/-! ### Steps -/

namespace Lexer

open Linewise

/-- Nothing is due, and behind a gap there is something to read. -/
structure Finds (l : Lexer) (gap rest : List Char) : Prop where
  idle : l.pending = []
  split : l.rest = gap ++ rest
  gap : Layout.Gap gap
  content : Layout.Content rest

/-- Nothing is due, and there is nothing more to read. -/
structure Ends (l : Lexer) : Prop where
  idle : l.pending = []
  going : l.phase ≠ .done
  gap : Layout.LastGap l.rest

/-- The lexer behind some characters. -/
def moved (l : Lexer) (passed rest : List Char) : Lexer :=
  { l with phase := .reading, here := l.here.after passed, rest := rest }

/-- The number of blocks that are open, the text itself not counted. -/
def opened (l : Lexer) : Nat := l.levels.length - 1

/-- The lexer at the end of the text. -/
def ended (l : Lexer) : Lexer :=
  { l with
    phase := .done, here := l.here.after l.rest, rest := [], levels := l.levels.drop l.opened }

/-- **What a step of a lexer can do.** The gap before a token that is read has a line feed in it
only before the first token; the gap before a token of the layout always has. -/
inductive Step (l : Lexer) : Answer → Lexer → Prop
  /-- A token that was due is handed out. -/
  | due {t : Token} {ts : List Token} : l.pending = t :: ts →
    Step l (some (.ok t)) { l with pending := ts, signed := !t.kind.endsOperand }
  /-- Nothing comes after the end. -/
  | exhausted : l.pending = [] → l.phase = .done → Step l none l
  /-- The text ends with no open block. -/
  | finished : l.Ends → l.opened = 0 → Step l none l.ended
  /-- The text ends, and its open blocks are closed. -/
  | closing {n : Nat} : l.Ends → l.opened = n + 1 →
    Step l (some (.ok (.plain .dedent (l.here.after l.rest))))
      { l.ended with
        pending := List.replicate n (.plain .dedent (l.here.after l.rest))
        signed := true }
  /-- A lexeme is read. -/
  | token {gap lexeme rest : List Char} {kind : Token.Kind} {value : Option Token.Value} :
    l.Finds gap (lexeme ++ rest) → l.phase ≠ .done → (l.phase = .reading → '\n' ∉ gap) →
    meaning? l.signed lexeme = some (.ok (kind, value)) →
    Step l (some (.ok ⟨kind, value, l.here.after gap⟩))
      { l.moved (gap ++ lexeme) rest with signed := !kind.endsOperand }
  /-- A number is out of range, and passed over. -/
  | outOfRange {gap lexeme rest : List Char} :
    l.Finds gap (lexeme ++ rest) → l.phase ≠ .done → (l.phase = .reading → '\n' ∉ gap) →
    longest? l.signed (lexeme ++ rest) = some (lexeme, .error .numberOutOfRange) →
    Step l (some (.error (.fault ⟨.numberOutOfRange, l.here.after gap⟩)))
      (l.moved (gap ++ lexeme) rest)
  /-- A character begins no lexeme. -/
  | unexpected {gap rest : List Char} {c : Char} :
    l.Finds gap (c :: rest) → l.phase ≠ .done → (l.phase = .reading → '\n' ∉ gap) →
    longest? l.signed (c :: rest) = none →
    Step l (some (.error (.fault ⟨.unexpectedChar c, l.here.after gap⟩))) (l.moved gap (c :: rest))
  /-- The first line is indented. -/
  | indented {gap rest : List Char} : l.Finds gap rest → l.phase = .fresh →
    Step l (some (.error (.fault ⟨.unexpectedIndent, l.here.after gap⟩))) (l.moved gap rest)
  /-- A deeper line opens a block. -/
  | opened {gap rest : List Char} {width : UInt64} : l.Finds gap rest → l.phase = .reading →
    '\n' ∈ gap → l.level < width →
    Step l (some (.ok (.plain .indent (l.here.after gap))))
      { l.moved gap rest with levels := width :: l.levels, signed := true }
  /-- A line that is equally deep goes on. -/
  | continued {gap rest : List Char} : l.Finds gap rest → l.phase = .reading → '\n' ∈ gap →
    Step l (some (.ok (.plain .newline (l.here.after gap))))
      { l.moved gap rest with signed := true }
  /-- A line that is less deep closes blocks, at least one. -/
  | closed {gap rest : List Char} {n : Nat} {inner outer : List UInt64} :
    l.Finds gap rest → l.phase = .reading → '\n' ∈ gap →
    l.levels = inner ++ outer → (∀ level ∈ inner, level ≠ 0) → inner.length = n + 1 →
    Step l (some (.ok (.plain .dedent (l.here.after gap))))
      { l.moved gap rest with
        levels := outer
        pending := List.replicate n (.plain .dedent (l.here.after gap))
        signed := true }
  /-- A line is less deep, but like none of the blocks around it. -/
  | inconsistent {gap rest : List Char} {inner outer : List UInt64} :
    l.Finds gap rest → l.phase = .reading → '\n' ∈ gap →
    l.levels = inner ++ outer → (∀ level ∈ inner, level ≠ 0) →
    Step l (some (.error (.fault ⟨.inconsistentDedent, l.here.after gap⟩)))
      { l.moved gap rest with levels := outer, phase := .done }
  /-- The indentation of a line cannot be measured, and nothing changes. -/
  | trapped {trap : Trap} : l.pending = [] → l.phase ≠ .done →
    Step l (some (.error (.trap trap))) l

variable {l : Lexer}

/-- At the end of the text a lexer closes its blocks, if any are open. -/
theorem step_close (h : l.Ends) :
    Step l (l.close (l.here.after l.rest)).1 (l.close (l.here.after l.rest)).2 := by
  have hclose : l.close (l.here.after l.rest) =
      l.ended.giveDue (List.replicate l.opened (.plain .dedent (l.here.after l.rest))) := rfl
  rw [hclose]
  cases hopened : l.opened with
  | zero =>
    have hstep := Step.finished h hopened
    rwa [show l.ended = { l.ended with pending := [] } by rw [ended, h.idle]] at hstep
  -- the first closing token is handed out, the others are due
  | succ n => exact .closing h hopened

/-- A lexeme has no line feed in it, so that behind it only the column has changed. -/
theorem moved_append {gap lexeme : List Char} {m : Meaning}
    (h : meaning? l.signed lexeme = some m) (rest : List Char) :
    l.moved (gap ++ lexeme) rest =
      { l.moved gap (lexeme ++ rest) with
        rest := (lexeme ++ rest).drop lexeme.length
        here := (l.here.after gap).right lexeme.length } := by
  have hline : '\n' ∉ lexeme := fun hmem => absurd (not_isGap_of_meaning? h _ hmem) (by decide)
  rw [List.drop_left, ← Span.after_of_not_mem hline, ← Span.after_append]
  rfl

/-- Behind a gap a lexer reads the longest lexeme (`longest?_eq_read`), or faults. -/
theorem step_scan {gap rest : List Char} (h : l.Finds gap rest) (hph : l.phase ≠ .done)
    (hgap : l.phase = .reading → '\n' ∉ gap) :
    Step l (l.moved gap rest).scan.1 (l.moved gap rest).scan.2 := by
  have hrest : (l.moved gap rest).rest = rest := rfl
  have hsigned : (l.moved gap rest).signed = l.signed := rfl
  have hread := longest?_eq_read l.signed rest
  unfold scan
  rw [hrest, hsigned]
  cases hlex : Token.Lexeme.read l.signed rest with
  | token chars kind value =>
    rw [hlex] at hread
    -- what is read is a lexeme, and a prefix of what was left
    obtain ⟨⟨more, rfl⟩, -, hm⟩ := longest?_spec hread
    have hstep := Step.token h hph hgap hm
    rw [moved_append hm] at hstep
    exact hstep
  | outOfRange chars =>
    rw [hlex] at hread
    obtain ⟨⟨more, rfl⟩, -, hm⟩ := longest?_spec hread
    have hstep := Step.outOfRange h hph hgap hread
    rw [moved_append hm] at hstep
    exact hstep
  | unexpected =>
    rw [hlex] at hread
    -- nothing is read though there is a character
    obtain ⟨c, more, rfl, -⟩ := h.content
    exact .unexpected h hph hgap hread

/-- A line that is less deep than the innermost block closes that one at least. -/
theorem exists_closed {width : UInt64} (h : width < l.level) :
    ∃ n, (l.levels.takeWhile (width < ·)).length = n + 1 ∧
      l.levels.length - (l.levels.dropWhile (width < ·)).length = n + 1 := by
  obtain ⟨n, hn⟩ : ∃ n, (l.levels.takeWhile (width < ·)).length = n + 1 := by
    unfold level at h
    cases hlevels : l.levels with
    | nil =>
      rw [hlevels] at h
      exact absurd (UInt64.lt_iff_toNat_lt.mp h) (by simp)
    | cons w ws =>
      rw [hlevels] at h
      exact ⟨_, by rw [List.takeWhile_cons_of_pos (by simpa using h), List.length_cons]⟩
  -- what is not dropped is kept, so the two counts are one
  have hsplit := congrArg List.length
    (List.takeWhile_append_dropWhile : l.levels.takeWhile (width < ·) ++ _ = l.levels)
  rw [List.length_append] at hsplit
  exact ⟨n, hn, by omega⟩

/-- At the beginning of a line a lexer compares widths. The cases are the branches of `layOut`. -/
theorem step_layOut {gap rest : List Char} (h : l.Finds gap rest) (hph : l.phase = .reading)
    (hgap : '\n' ∈ gap) (width : UInt64) :
    Step l ((l.moved gap rest).layOut width).1 ((l.moved gap rest).layOut width).2 := by
  have hsplit : l.levels = l.levels.takeWhile (width < ·) ++ l.levels.dropWhile (width < ·) :=
    List.takeWhile_append_dropWhile.symm
  have hlevel : (l.moved gap rest).level = l.level := rfl
  -- a block that is closed is deeper than the line, so it is not the text itself
  have hinner : ∀ level ∈ l.levels.takeWhile (width < ·), level ≠ 0 := by
    rintro level hmem rfl
    have hlt : width < 0 := by simpa using List.mem_takeWhile_imp hmem
    exact absurd (UInt64.lt_iff_toNat_lt.mp hlt) (Nat.not_lt_zero _)
  unfold layOut
  rw [hlevel]
  dsimp only
  split_ifs with hin hout heq
  · exact .opened h hph hgap hin
  · obtain ⟨n, hn, hcount⟩ := exists_closed hout
    exact hcount ▸ .closed h hph hgap hsplit hinner hn
  · exact .inconsistent h hph hgap hsplit hinner
  · exact .continued h hph hgap

/-- A lexer on some line is still on a line when it has moved. -/
theorem moved_of_reading (hph : l.phase = .reading) (passed rest : List Char) :
    { l with here := l.here.after passed, rest := rest } = l.moved passed rest := by
  rw [moved, ← hph]

/-- **A step does one of these things.** -/
theorem step_next (l : Lexer) : Step l l.next.1 l.next.2 := by
  unfold next
  split
  next t ts _ hp => exact .due hp
  next hp hph => exact .exhausted hp hph
  next hp hph =>
    -- before the first line
    have hne : l.phase ≠ .done := by simp [hph]
    split
    next here hseek =>
      obtain ⟨hgap, rfl⟩ := Layout.seek_eq_endOfText hseek
      exact step_close ⟨hp, hne, hgap⟩
    next => exact .trapped hp hne
    next width here rest hseek =>
      obtain ⟨gap, hsplit, hgap, hcontent, rfl⟩ := Layout.seek_eq_content hseek
      have hfinds : l.Finds gap rest := ⟨hp, hsplit, hgap, hcontent⟩
      dsimp only
      split_ifs
      · exact step_scan hfinds hne fun hreading => by simp [hph] at hreading
      · exact .indented hfinds hph
  next hp hph =>
    -- on some line
    have hne : l.phase ≠ .done := by simp [hph]
    split
    next here hskip =>
      obtain ⟨hgap, rfl⟩ := Layout.skip_eq_nil hskip
      exact step_close ⟨hp, hne, hgap⟩
    next here more hskip =>
      -- the line feed and what is found behind it belong to one gap
      obtain ⟨gap, hsplit, hgap, rfl⟩ := Layout.skip_eq_newline hskip
      split
      next here' hseek =>
        obtain ⟨hlast, rfl⟩ := Layout.seek_eq_endOfText hseek
        rw [Span.after_line, ← hsplit]
        refine step_close ⟨hp, hne, ?_⟩
        rw [hsplit, List.append_cons]
        exact hlast.append hgap
      next => exact .trapped hp hne
      next width here' rest hseek =>
        obtain ⟨gap', rfl, hgap', hcontent, rfl⟩ := Layout.seek_eq_content hseek
        have hfinds : l.Finds (gap ++ '\n' :: gap') rest := by
          refine ⟨hp, by simp [hsplit], ?_, hcontent⟩
          rw [List.append_cons]
          exact hgap.append hgap'
        rw [Span.after_line, moved_of_reading hph]
        exact step_layOut hfinds hph (by simp) width
    next here rest hend hline hskip =>
      obtain ⟨gap, hsplit, hnot, hgap, hcontent, rfl⟩ :=
        Layout.skip_eq_content hskip hend hline
      rw [moved_of_reading hph]
      exact step_scan ⟨hp, hsplit, hgap, hcontent⟩ hne fun _ => hnot

/-- **Induction over the tokens of a lexer**, one step after another. -/
theorem tokens_induction {motive : Lexer → List Token → Prop}
    (stop : ∀ {l l'}, Step l none l' → motive l [])
    (give : ∀ {l t l' ts}, Step l (some (.ok t)) l' → l'.tokens = .ok ts → motive l' ts →
      motive l (t :: ts))
    {l : Lexer} {ts : List Token} (h : l.tokens = .ok ts) : motive l ts := by
  induction ts generalizing l with
  | nil =>
    -- no tokens: the first step stops, for a fault would be handed on and a token counted
    have hstep := l.step_next
    rw [tokens_eq] at h
    rcases hnext : l.next with ⟨_ | ⟨e | t⟩, l'⟩ <;> rw [hnext] at h hstep
    · exact stop hstep
    · cases h
    · rw [outcome] at h
      cases hmore : l'.tokens <;> rw [hmore] at h <;> cases h
  | cons t ts ih =>
    -- the first token: it is what the first step gave, and the rest is the induction's
    have hstep := l.step_next
    rw [tokens_eq] at h
    rcases hnext : l.next with ⟨_ | ⟨e | u⟩, l'⟩ <;> rw [hnext] at h hstep
    · cases h
    · cases h
    · rw [outcome] at h
      cases hmore : l'.tokens with
      | error e =>
        rw [hmore] at h
        cases h
      | ok us =>
        rw [hmore] at h
        cases h
        exact give hstep hmore (ih hmore)

end Lexer

end Offside
