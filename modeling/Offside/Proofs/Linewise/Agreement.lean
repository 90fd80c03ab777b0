import Offside.Proofs.Linewise.OnLine
import Offside.Proofs.Linewise.Widths

/-!
# The lexer reads line by line

The lexer keeps one place in the text and decides from there. That comes to the same as reading the
text line by line: while it is on a line, nothing but that line matters (`tokens_line`), and between
two lines nothing is left of the first one but the widths that are open (`tokens_lines`). So the
tokens of a text are those of `Linewise.readChecked`, for every text and every tab width
(`tokenize_eq_readChecked`).

As long as the widths of all lines are words, that is the reading with natural widths. A line that
is wider, also one with nothing on it, is a trap when the lexer comes to it; a fault on an earlier
line is reported before that.
-/

namespace Offside.Linewise

open Token

/-! ### From line to line -/

section Seek

variable (tabWidth : UInt64) (here : Span)

/-- At the end of a line neither the comment nor the width of the line matters any more. -/
theorem seek_lineEnd {tail : List Char} (htail : LineEnd tail) (comment : Bool) (width : UInt64) :
    Layout.seek tabWidth comment width here tail = Layout.seek tabWidth false 0 here tail := by
  rcases lineEnd_cases htail with rfl | ⟨more, rfl⟩
  · rfl
  · simp [Layout.seek]

/-- In an indentation, the search comes to its end or to a trap as the measurement does. -/
theorem seek_blanks {blanks : List Char} (h : ∀ c ∈ blanks, Layout.isBlank c = true)
    (width : UInt64) (cs : List Char) :
    Layout.seek tabWidth false width here (blanks ++ cs) =
      match blanks.foldlM (Layout.advance tabWidth) width with
      | .ok width => Layout.seek tabWidth false width (here.right blanks.length) cs
      | .error trap => .trapped trap := by
  induction blanks generalizing here width with
  | nil => rfl
  | cons c blanks ih =>
    have hblank : Layout.isBlank c = true := h c (by simp)
    obtain ⟨hline, hhash⟩ := ne_of_isBlank hblank
    -- a blank is neither a line break nor the start of a comment, so the search measures it
    rw [List.cons_append, Layout.seek, if_neg hline, if_neg (by simp [hhash]), if_pos hblank,
      List.foldlM_cons, List.length_cons, Nat.add_comm blanks.length, ← right_right]
    cases Layout.advance tabWidth width c with
    | error trap => rfl
    | ok width => exact ih (here.right 1) (fun d hd => h d (by simp [hd])) width

variable (htab : 0 < tabWidth.toNat)

include htab

/-- An indentation whose width is a word is passed, by `Layout.foldlM_advance`: the trapping measure
is the natural one until the first overflow. -/
theorem seek_fits {blanks : List Char} (h : ∀ c ∈ blanks, Layout.isBlank c = true)
    (hfits : naturalWidth tabWidth.toNat blanks < 2 ^ 64) (cs : List Char) :
    Layout.seek tabWidth false 0 here (blanks ++ cs) =
      Layout.seek tabWidth false (UInt64.ofNat (naturalWidth tabWidth.toNat blanks))
        (here.right blanks.length) cs := by
  have hwidth : blanks.foldlM (Layout.advance tabWidth) 0 =
      .ok (UInt64.ofNat (naturalWidth tabWidth.toNat blanks)) := by
    rw [Layout.foldlM_advance htab]
    exact Word.check_of_lt hfits
  rw [seek_blanks tabWidth here h, hwidth]

/-- A line whose width is no word is a trap, whatever is on it. -/
theorem seek_trapped {cs : List Char} (tail : List Char)
    (hfits : 2 ^ 64 ≤ naturalWidth tabWidth.toNat (cs.takeWhile Layout.isBlank)) :
    Layout.seek tabWidth false 0 here (cs ++ tail) = .trapped .overflow := by
  -- the blanks alone trap; what stands behind them is not looked at
  have hcs : cs ++ tail =
      cs.takeWhile Layout.isBlank ++ (cs.dropWhile Layout.isBlank ++ tail) := by
    rw [← List.append_assoc, List.takeWhile_append_dropWhile]
  have hwidth : (cs.takeWhile Layout.isBlank).foldlM (Layout.advance tabWidth) 0 =
      .error .overflow := by
    rw [Layout.foldlM_advance htab]
    exact Word.check_of_le hfits
  rw [hcs, seek_blanks tabWidth here fun d hd => List.mem_takeWhile_imp hd, hwidth]

omit htab

/-- A comment is passed over up to the end of its line; the width from before it is lost there. -/
theorem seek_comment {cs tail : List Char} (h : '\n' ∉ cs) (htail : LineEnd tail)
    (width : UInt64) :
    Layout.seek tabWidth true width here (cs ++ tail) =
      Layout.seek tabWidth false 0 (here.right cs.length) tail := by
  induction cs generalizing here with
  | nil => exact seek_lineEnd tabWidth here htail true width
  | cons c cs ih =>
    rw [List.mem_cons, not_or] at h
    rw [List.cons_append, Layout.seek, if_neg (Ne.symm h.1), if_pos (by simp),
      ih (here.right 1) h.2, right_right, List.length_cons, Nat.add_comm 1]

/-- A line with nothing on it is passed over, once it is measured. -/
theorem seek_silent (htab : 0 < tabWidth.toNat) {cs tail : List Char} (h : Silent cs)
    (hline : '\n' ∉ cs) (htail : LineEnd tail)
    (hfits : naturalWidth tabWidth.toNat (cs.takeWhile Layout.isBlank) < 2 ^ 64) :
    Layout.seek tabWidth false 0 here (cs ++ tail) =
      Layout.seek tabWidth false 0 (here.right cs.length) tail := by
  obtain ⟨blanks, rest, rfl, hblanks, hrest⟩ := silent_cases h
  -- what is measured are the blanks, not the comment behind them
  have hmargin : (blanks ++ rest).takeWhile Layout.isBlank = blanks := by
    rw [List.takeWhile_append_of_pos hblanks]
    rcases hrest with rfl | ⟨comment, rfl⟩
    · exact List.append_nil blanks
    · exact List.append_nil blanks
  rw [hmargin] at hfits
  rw [List.append_assoc, seek_fits tabWidth here htab hblanks hfits]
  rcases hrest with rfl | ⟨comment, rfl⟩
  · rw [List.nil_append, List.append_nil, seek_lineEnd tabWidth _ htail]
  · have hcomment : '\n' ∉ comment := fun hmem => hline (by simp [hmem])
    rw [List.cons_append, Layout.seek, if_neg (by decide), if_pos (by simp),
      seek_comment tabWidth _ hcomment htail, right_right, right_right, List.length_append,
      List.length_cons, Nat.add_comm 1]

/-- A line with something on it is found, and its indentation measured. -/
theorem seek_content (htab : 0 < tabWidth.toNat) {cs rest : List Char} {c : Char}
    (tail : List Char) (hrest : cs.dropWhile Layout.isBlank = c :: rest) (hc : isGap c = false)
    (hfits : naturalWidth tabWidth.toNat (cs.takeWhile Layout.isBlank) < 2 ^ 64) :
    Layout.seek tabWidth false 0 here (cs ++ tail) =
      .content (UInt64.ofNat (naturalWidth tabWidth.toNat (cs.takeWhile Layout.isBlank)))
        (here.right (cs.takeWhile Layout.isBlank).length) (c :: rest ++ tail) := by
  -- the margin is passed over first, and what follows it is no gap
  have hcs : cs ++ tail = cs.takeWhile Layout.isBlank ++ (c :: rest ++ tail) := by
    rw [← hrest, ← List.append_assoc, List.takeWhile_append_dropWhile]
  obtain ⟨hblank, hnew, hhash⟩ := not_isGap_iff.mp hc
  rw [hcs, seek_fits tabWidth here htab (fun d hd => List.mem_takeWhile_imp hd) hfits,
    List.cons_append, Layout.seek, if_neg hnew, if_neg (by simp [hhash]),
    if_neg (by simp [hblank])]

end Seek

section Due

variable {l : Lexer}

/-- Tokens of the layout that are due come first. -/
theorem tokens_due (hsigned : l.signed = true) {ts : List Token}
    (hts : ∀ t ∈ ts, t.kind.endsOperand = false) :
    ({ l with pending := ts } : Lexer).tokens =
      ({ l with pending := [] } : Lexer).tokens.map (ts ++ ·) := by
  induction ts with
  | nil =>
    cases ({ l with pending := [] } : Lexer).tokens <;> rfl
  | cons t ts ih =>
    -- handing out a token of the layout leaves the sign as it was
    have hstep : ({ l with pending := t :: ts } : Lexer).next =
        (some (.ok t), { l with pending := ts }) := by
      change (some (Except.ok t),
        ({ l with pending := ts, signed := !t.kind.endsOperand } : Lexer)) = _
      rw [hts t (by simp), hsigned]
      rfl
    rw [Lexer.tokens_eq, hstep, Lexer.outcome, ih fun u hu => hts u (by simp [hu])]
    cases ({ l with pending := [] } : Lexer).tokens <;> rfl

/-- The first of some equal tokens is handed out at once, and `tokens_due` gives the others. -/
theorem outcome_giveDue {t : Token} (ht : t.kind.endsOperand = false) (n : Nat) :
    Lexer.outcome (l.giveDue (List.replicate (n + 1) t)) =
      ({ l with pending := [], signed := true } : Lexer).tokens.map
        (List.replicate (n + 1) t ++ ·) := by
  -- behind an end of a block or a line break a sign may stand, for all of them alike
  have hdue : ({ l with pending := List.replicate n t, signed := true } : Lexer).tokens =
      ({ l with pending := [], signed := true } : Lexer).tokens.map (List.replicate n t ++ ·) :=
    tokens_due (l := { l with signed := true }) rfl fun u hu => by
      rw [List.eq_of_mem_replicate hu, ht]
  -- the first one is handed out at once, and the others stay in the queue
  have hstep : l.giveDue (List.replicate (n + 1) t) =
      (some (.ok t), { l with pending := List.replicate n t, signed := true }) := by
    rw [List.replicate_succ]
    change (some (Except.ok t), ({ l with
      pending := List.replicate n t, signed := !t.kind.endsOperand } : Lexer)) = _
    rw [ht]
    rfl
  rw [hstep, Lexer.outcome, hdue]
  cases ({ l with pending := [], signed := true } : Lexer).tokens <;> rfl

/-- **At the end of the text** every open block is closed. -/
theorem outcome_close (here : Span) :
    Lexer.outcome (l.close here) =
      .ok (List.replicate (l.levels.length - 1) (.plain .dedent here)) := by
  unfold Lexer.close
  cases l.levels.length - 1 with
  | zero => rfl
  -- the first of the closing tokens comes with the step, the others from the queue
  | succ n =>
    dsimp only
    rw [outcome_giveDue rfl, Lexer.tokens_eq]
    simp [Lexer.next, Lexer.outcome, Except.map]

end Due

/-! ### The widths that are open

A lexer keeps words, the last of which is the width of the text itself. What is open are the numbers
that the others stand for. -/

/-- The widths that are open in a lexer. -/
def Opens (stack : List UInt64) (levels : List Nat) : Prop :=
  stack.map UInt64.toNat = levels ++ [0]

section Opens

variable {stack : List UInt64} {levels : List Nat}

/-- The stack has one width more than is open. -/
theorem Opens.length_eq (h : Opens stack levels) : stack.length = levels.length + 1 := by
  have := congrArg List.length h
  simpa using this

/-- The innermost open width, or the text's own if none is open. -/
theorem Opens.headD_eq (h : Opens stack levels) : (stack.headD 0).toNat = levels.headD 0 := by
  have hmap : (stack.map UInt64.toNat).headD 0 = (stack.headD 0).toNat := by
    cases stack <;> rfl
  rw [← hmap, h]
  cases levels <;> rfl

/-- A step in opens the width of the line. -/
theorem Opens.cons (h : Opens stack levels) (width : UInt64) :
    Opens (width :: stack) (width.toNat :: levels) := congrArg (width.toNat :: ·) h

/-- The width of the text itself is never closed: nothing is less deep. -/
theorem dropWhile_append_zero (width : Nat) (levels : List Nat) :
    (levels ++ [0]).dropWhile (width < ·) = levels.dropWhile (width < ·) ++ [0] := by
  induction levels with
  | nil => simp
  | cons level levels ih =>
    by_cases h : width < level
    · rw [List.cons_append, List.dropWhile_cons_of_pos (by simpa using h),
        List.dropWhile_cons_of_pos (by simpa using h), ih]
    · rw [List.cons_append, List.dropWhile_cons_of_neg (by simpa using h),
        List.dropWhile_cons_of_neg (by simpa using h), List.cons_append]

/-- A step out closes the same widths among the words as among the numbers. -/
theorem Opens.dropWhile (h : Opens stack levels) (width : UInt64) :
    Opens (stack.dropWhile (width < ·)) (levels.dropWhile (width.toNat < ·)) := by
  have hmap : (stack.map UInt64.toNat).dropWhile (width.toNat < ·) =
      (stack.dropWhile (width < ·)).map UInt64.toNat := by
    -- words are compared as the numbers they stand for
    rw [List.dropWhile_map]
    rfl
  unfold Opens
  rw [← hmap, h, dropWhile_append_zero]

end Opens

section LayOut

variable {l : Lexer} {levels : List Nat}

/-- A line that is less deep closes at least one block. -/
theorem length_dropWhile_lt {width : Nat} (h : width < levels.headD 0) :
    ∃ n, levels.length - (levels.dropWhile (width < ·)).length = n + 1 := by
  cases levels with
  | nil => exact absurd h (Nat.not_lt_zero width)
  | cons level levels =>
    have hle : (levels.dropWhile (width < ·)).length ≤ levels.length :=
      (List.dropWhile_suffix _).length_le
    -- the innermost block is deeper than the line, so at least that one is closed
    have hdrop : (level :: levels).dropWhile (width < ·) = levels.dropWhile (width < ·) :=
      List.dropWhile_cons_of_pos (by simpa using h)
    rw [hdrop, List.length_cons]
    exact ⟨levels.length - (levels.dropWhile (width < ·)).length, by omega⟩

/-- **Between two lines** the lexer does what `layOut` says, and then goes on with the widths that
are open. -/
theorem outcome_layOut (hp : l.pending = []) (hopen : Opens l.levels levels) (width : UInt64) :
    (∃ layout stack inner,
      layOut levels width.toNat l.here = .ok (layout, inner) ∧ Opens stack inner ∧
      Lexer.outcome (l.layOut width) =
        ({ l with levels := stack, signed := true } : Lexer).tokens.map (layout ++ ·)) ∨
    ∃ e, layOut levels width.toNat l.here = .error e ∧
      Lexer.outcome (l.layOut width) = .error (.fault e) := by
  have hinner := hopen.dropWhile width
  have hclosed : l.levels.length - (l.levels.dropWhile (width < ·)).length =
      levels.length - (levels.dropWhile (width.toNat < ·)).length := by
    rw [hopen.length_eq, hinner.length_eq, Nat.add_sub_add_right]
  unfold Lexer.layOut layOut Lexer.level
  dsimp only
  -- the comparisons of words are those of the numbers they stand for
  simp only [← UInt64.toNat_inj, UInt64.lt_iff_toNat_lt, hopen.headD_eq] at *
  by_cases hin : levels.headD 0 < width.toNat
  · rw [if_pos hin, if_pos hin]
    exact .inl ⟨_, width :: l.levels, _, rfl, hopen.cons width, rfl⟩
  rw [if_neg hin, if_neg hin]
  by_cases hout : width.toNat < levels.headD 0
  · rw [if_pos hout, if_pos hout, hinner.headD_eq, hclosed]
    -- at least one block is closed, so the first dedent is handed out at once
    obtain ⟨n, hn⟩ := length_dropWhile_lt hout
    by_cases heq : (levels.dropWhile (width.toNat < ·)).headD 0 = width.toNat
    · rw [if_pos heq, if_pos heq, hn]
      refine .inl ⟨_, _, _, rfl, hinner, ?_⟩
      rw [outcome_giveDue rfl]
      simp only [hp]
    · rw [if_neg heq, if_neg heq]
      exact .inr ⟨_, rfl, rfl⟩
  · rw [if_neg hout, if_neg hout]
    exact .inl ⟨_, l.levels, _, rfl, hopen, rfl⟩

end LayOut

/-! ### The lines of a text -/

section Lines

variable {l : Lexer}

/-- What follows a line is nothing, or begins with a line break. -/
theorem lineEnd_flatMap (ls : List (List Char)) : LineEnd (ls.flatMap ('\n' :: ·)) := by
  cases ls with
  | nil => exact fun c hc => absurd hc (by simp)
  | cons line ls => exact fun c hc => by simpa using hc.symm

/-- Lines are numbered from the first on. -/
theorem numbered_cons (first : Nat) (line : List Char) (ls : List (List Char)) :
    numbered first (line :: ls) = ⟨first, line⟩ :: numbered (first + 1) ls := rfl

/-- A line is left out exactly if there is nothing on it. -/
theorem isKept_eq_false {line : Line} : line.isKept = false ↔ Silent line.chars := Iff.rfl

/-- The other direction, in the form in which the case split of `tokens_lines` gives it. -/
theorem isKept_of_not_silent {line : Line} (h : ¬ Silent line.chars) : line.isKept = true := by
  rw [← Bool.not_eq_false, isKept_eq_false]
  exact h

/-- The test of a width as a proposition. -/
theorem fits_eq_true {width : List Char → Nat} {line : Line} :
    line.fits width = true ↔ width line.margin < 2 ^ 64 := decide_eq_true_iff

/-- The test fails exactly for a width that is no word. -/
theorem fits_eq_false {width : List Char → Nat} {line : Line} :
    line.fits width = false ↔ 2 ^ 64 ≤ width line.margin := by
  rw [← Bool.not_eq_true, fits_eq_true, Nat.not_lt]

/-- Behind its indentation, a line starts. -/
theorem right_margin (here : Span) (line : List Char) :
    here.nextLine.right (line.takeWhile Layout.isBlank).length =
      Line.start ⟨here.line + 1, line⟩ := by
  simp [Span.right, Span.nextLine, Line.start, Line.margin, Nat.add_comm]

/-- Behind all its characters, a line stops. -/
theorem right_length (here : Span) (line : List Char) :
    here.nextLine.right line.length = Line.stop ⟨here.line + 1, line⟩ := by
  simp [Span.right, Span.nextLine, Line.stop, Nat.add_comm]

/-- The characters from the start to the stop are those that are not indentation. -/
theorem start_right_body (line : Line) : line.start.right line.body.length = line.stop := by
  have hlen : line.margin.length + line.body.length = line.chars.length := by
    rw [Line.margin, Line.body, ← List.length_append, List.takeWhile_append_dropWhile]
  simp only [Span.right, Line.start, Line.stop]
  rw [← hlen, Nat.add_right_comm]

/-- Behind its indentation, the tokens of a line come first. -/
theorem tokens_kept {line : Line} {tail : List Char} (htail : LineEnd tail)
    (hline : '\n' ∉ line.chars) (hrest : l.rest = line.body ++ tail) (hhere : l.here = line.start)
    (hsigned : l.signed = true) (hp : l.pending = []) (hph : l.phase = .reading) :
    ∃ b, l.tokens = line.tokens.mapError .fault >>= fun ts =>
      ({ l with rest := tail, here := line.stop, signed := b } : Lexer).tokens.map (ts ++ ·) := by
  have hbody : '\n' ∉ line.body := fun hmem =>
    hline ((List.dropWhile_suffix _).subset hmem)
  -- at the beginning of a line there is no token before
  have hsigned' : l.signed = !(none : Option Kind).any Kind.endsOperand := hsigned
  obtain ⟨b, hb⟩ := tokens_line htail hbody hrest hp hph hsigned'
  refine ⟨b, hb.trans ?_⟩
  rw [hhere]
  unfold endOfLine
  rw [hhere, start_right_body]
  rfl

/-- A line with something on it gives the layout before it, its tokens, and then whatever comes from
its end on with the widths that are open there. -/
theorem outcome_kept {line : Line} {tail : List Char} {levels : List Nat} (htail : LineEnd tail)
    (hline : '\n' ∉ line.chars) (hrest : l.rest = line.body ++ tail) (hhere : l.here = line.start)
    (hp : l.pending = []) (hph : l.phase = .reading) (hopen : Opens l.levels levels) (w : UInt64)
    (after : List Nat → Except (Halt LexicalError) (List Token))
    (hafter : ∀ stack inner b, Opens stack inner → ({ l with
      levels := stack, rest := tail, here := line.stop, signed := b } : Lexer).tokens =
        after inner) :
    Lexer.outcome (l.layOut w) = (do
      let (layout, levels) ← (layOut levels w.toNat line.start).mapError .fault
      let ts ← line.tokens.mapError .fault
      let more ← after levels
      .ok (layout ++ ts ++ more)) := by
  rw [← hhere]
  rcases outcome_layOut hp hopen w with
    ⟨layout, stack, inner, hlayout, hinner, hout⟩ | ⟨e, hlayout, hout⟩
  · -- the lexer behind the layout, where `tokens_kept` applies
    let inside : Lexer := { l with levels := stack, signed := true }
    have hinside : inside.here = line.start := hhere
    obtain ⟨b, hb⟩ := tokens_kept htail hline (show inside.rest = _ from hrest) hinside rfl hp hph
    rw [hout, hlayout]
    change inside.tokens.map _ = _
    rw [hb, map_append_bind]
    -- the two binds are nested the other way round than in the statement
    change (do
      let ts ← line.tokens.mapError Halt.fault
      let more ← ({ l with
        levels := stack, rest := tail, here := line.stop, signed := b } : Lexer).tokens
      Except.ok (layout ++ ts ++ more)) = _
    rw [hafter stack inner b hinner]
    rfl
  · rw [hout, hlayout]
    rfl

/-- At the end of a line, the first step depends on what is found after it. -/
theorem outcome_endOfLine (hp : l.pending = []) (hph : l.phase = .reading) (hend : LineEnd l.rest) :
    l.tokens =
      match Layout.seek l.tabWidth false 0 l.here l.rest with
      | .endOfText here => .ok (List.replicate (l.levels.length - 1) (.plain .dedent here))
      | .trapped trap => .error (.trap trap)
      | .content w here rest =>
        Lexer.outcome (({ l with here := here, rest := rest } : Lexer).layOut w) := by
  rw [Lexer.tokens_eq]
  unfold Lexer.next
  simp only [hp, hph, skip_lineEnd _ hend]
  rcases lineEnd_cases hend with hnil | ⟨more, hmore⟩
  · simp only [hnil, Layout.seek]
    exact outcome_close l.here
  · -- the newline is passed over by the search and by the step alike
    simp only [hmore, Layout.seek, if_true]
    cases Layout.seek l.tabWidth false 0 l.here.nextLine more with
    | endOfText here => exact outcome_close here
    | trapped trap => rfl
    | content w here rest => rfl

/-- **From the end of a line on** the tokens are those of the lines that follow. -/
theorem tokens_lines {ls : List (List Char)} {levels : List Nat}
    (hls : ∀ line ∈ ls, '\n' ∉ line) (hrest : l.rest = ls.flatMap ('\n' :: ·))
    (hp : l.pending = []) (hph : l.phase = .reading) (htab : 0 < l.tabWidth.toNat)
    (hopen : Opens l.levels levels) :
    l.tokens = readOn (naturalWidth l.tabWidth.toNat) l.here levels
      (numbered (l.here.line + 1) ls) := by
  induction ls generalizing l levels with
  -- no line is left: the blocks are closed
  | nil =>
    have hlength : l.levels.length - 1 = levels.length := by rw [hopen.length_eq]; rfl
    rw [outcome_endOfLine hp hph (hrest ▸ lineEnd_flatMap []), hrest]
    exact congrArg (fun n => Except.ok (List.replicate n (Token.plain .dedent l.here))) hlength
  | cons line ls ih =>
    have hline : '\n' ∉ line := hls line (by simp)
    have hls' : ∀ line ∈ ls, '\n' ∉ line := fun line h => hls line (by simp [h])
    -- the step passes over the line break and searches from the next line on
    have hseek : Layout.seek l.tabWidth false 0 l.here l.rest =
        Layout.seek l.tabWidth false 0 l.here.nextLine (line ++ ls.flatMap ('\n' :: ·)) := by
      rw [hrest]
      rfl
    rw [outcome_endOfLine hp hph (hrest ▸ lineEnd_flatMap _), hseek, numbered_cons]
    let k : Line := ⟨l.here.line + 1, line⟩
    change _ = readOn _ _ _ (k :: _)
    cases hfits : k.fits (naturalWidth l.tabWidth.toNat) with
    | false =>
      rw [seek_trapped _ _ htab _ (fits_eq_false.mp hfits), readOn_of_not_fits _ _ _ hfits]
    | true =>
      by_cases hs : Silent line
      · -- nothing on the line: as if the lexer were at its end
        let after : Lexer := { l with here := k.stop, rest := ls.flatMap ('\n' :: ·) }
        have hafter := outcome_endOfLine (l := after) hp hph (lineEnd_flatMap ls)
        rw [seek_silent _ _ htab hs hline (lineEnd_flatMap ls) (fits_eq_true.mp hfits),
          right_length, readOn_of_silent _ _ _ hfits (isKept_eq_false.mpr hs)]
        exact hafter.symm.trans (ih hls' rfl hp hph htab hopen)
      · -- something on the line: the search stops there with its width, which is a word
        obtain ⟨c, rest, hcontent, hgap⟩ := not_silent_cases hs hline
        have hwidth := UInt64.toNat_ofNat_of_lt' (fits_eq_true.mp hfits)
        rw [seek_content _ _ htab _ hcontent hgap (fits_eq_true.mp hfits), right_margin,
          readOn_of_kept _ _ _ hfits (isKept_of_not_silent hs), ← hwidth]
        let before : Lexer := { l with
          here := k.start, rest := c :: rest ++ ls.flatMap ('\n' :: ·) }
        have hbefore : before.rest = k.body ++ ls.flatMap ('\n' :: ·) := by
          rw [show k.body = c :: rest from hcontent]
        have hhere : before.here = k.start := rfl
        -- behind the line there are fewer lines
        exact outcome_kept (lineEnd_flatMap ls) hline hbefore hhere hp hph hopen _
          (fun inner => readOn _ k.stop inner (numbered (l.here.line + 1 + 1) ls))
          fun stack inner b hinner => ih (l := { before with
            levels := stack, rest := ls.flatMap ('\n' :: ·), here := k.stop, signed := b })
            hls' rfl hp hph htab hinner

/-- Before the first line, only what is found next matters. -/
theorem tokens_of_seek (hp : l.pending = []) (hph : l.phase = .fresh) {here : Span}
    {rest : List Char}
    (h : Layout.seek l.tabWidth false 0 l.here l.rest =
      Layout.seek l.tabWidth false 0 here rest) :
    ({ l with here := here, rest := rest } : Lexer).tokens = l.tokens := by
  rw [Lexer.tokens_eq, Lexer.tokens_eq]
  unfold Lexer.next
  simp only [hp, hph, h]
  split <;> rfl

/-- At the first character of a lexeme, a step reads it. -/
theorem tokens_of_scan {c : Char} {rest : List Char} (hrest : l.rest = c :: rest)
    (hc : isGap c = false) (hp : l.pending = []) (hph : l.phase = .reading) :
    l.tokens = Lexer.outcome l.scan := by
  obtain ⟨hblank, hnew, hhash⟩ := not_isGap_iff.mp hc
  have hskip : Layout.skip false l.here l.rest = (l.here, c :: rest) := by
    rw [hrest, Layout.skip, if_neg hnew, if_neg (by simp [hhash]), if_neg (by simp [hblank])]
  rw [Lexer.tokens_eq, next_scan hp hph hskip hnew, ← hrest]

/-- The lexer is at the beginning of a line, and nothing but such lines came before. -/
structure Fresh (l : Lexer) : Prop where
  pending : l.pending = []
  phase : l.phase = .fresh
  levels : l.levels = [0]
  signed : l.signed = true
  column : l.here.column = 1
  tabWidth : 0 < l.tabWidth.toNat

/-- A first line whose width is no word. -/
theorem tokens_first_trapped {line : List Char} {ls : List (List Char)}
    (hrest : l.rest = line ++ ls.flatMap ('\n' :: ·)) (hfresh : Fresh l)
    (hfits : Line.fits (naturalWidth l.tabWidth.toNat) ⟨l.here.line, line⟩ = false) :
    l.tokens = readFrom (naturalWidth l.tabWidth.toNat) l.here
      (numbered l.here.line (line :: ls)) := by
  have hwide : 2 ^ 64 ≤ naturalWidth l.tabWidth.toNat (line.takeWhile Layout.isBlank) :=
    fits_eq_false.mp hfits
  rw [Lexer.tokens_eq, numbered_cons, readFrom_of_not_fits _ _ hfits]
  unfold Lexer.next
  simp only [hfresh.pending, hfresh.phase, hrest, seek_trapped _ _ hfresh.tabWidth _ hwide]
  rfl

/-- The first line with something on it. -/
theorem tokens_first_kept {line : List Char} {ls : List (List Char)} (hs : ¬ Silent line)
    (hls : ∀ line' ∈ line :: ls, '\n' ∉ line')
    (hrest : l.rest = line ++ ls.flatMap ('\n' :: ·)) (hfresh : Fresh l)
    (hfits : Line.fits (naturalWidth l.tabWidth.toNat) ⟨l.here.line, line⟩ = true) :
    l.tokens = readFrom (naturalWidth l.tabWidth.toNat) l.here
      (numbered l.here.line (line :: ls)) := by
  let k : Line := ⟨l.here.line, line⟩
  have hline : '\n' ∉ k.chars := hls line (by simp)
  obtain ⟨c, rest, hcontent, hgap⟩ := not_silent_cases hs hline
  let w := UInt64.ofNat (naturalWidth l.tabWidth.toNat k.margin)
  have hwidth : w.toNat = naturalWidth l.tabWidth.toNat k.margin :=
    UInt64.toNat_ofNat_of_lt' (fits_eq_true.mp hfits)
  have hstart : l.here.right k.margin.length = k.start := by
    simp only [Span.right, Line.start, hfresh.column, k, Nat.add_comm]
  -- the search stops on this very line
  have hseek : Layout.seek l.tabWidth false 0 l.here l.rest =
      .content w k.start (c :: rest ++ ls.flatMap ('\n' :: ·)) := by
    rw [hrest, seek_content _ _ hfresh.tabWidth _ hcontent hgap (fits_eq_true.mp hfits), ← hstart]
    rfl
  rw [Lexer.tokens_eq, numbered_cons,
    readFrom_of_kept _ _ hfits (isKept_of_not_silent hs), ← hwidth]
  unfold Lexer.next
  simp only [hfresh.pending, hfresh.phase, hseek]
  by_cases hzero : w = 0
  · -- the lexer reads a lexeme at once here, which is what it does on any line
    rw [if_pos hzero, if_pos (show w.toNat = 0 from congrArg UInt64.toNat hzero)]
    let inside : Lexer := { l with
      pending := [], phase := .reading, here := k.start
      rest := c :: rest ++ ls.flatMap ('\n' :: ·) }
    have hinside : inside.rest = k.body ++ ls.flatMap ('\n' :: ·) := by
      rw [show k.body = c :: rest from hcontent]
    have hhere : inside.here = k.start := rfl
    have hreading : inside.phase = .reading := rfl
    have hp : inside.pending = [] := rfl
    have hopen : Opens inside.levels [] := congrArg (List.map UInt64.toNat) hfresh.levels
    have hscan : inside.tokens = Lexer.outcome inside.scan := tokens_of_scan rfl hgap hp hreading
    obtain ⟨b, hb⟩ := tokens_kept (lineEnd_flatMap ls) hline hinside hhere hfresh.signed hp hreading
    have hafter := tokens_lines (l := { inside with
      rest := ls.flatMap ('\n' :: ·), here := k.stop, signed := b })
      (fun line' h => hls line' (by simp [h])) rfl hp hreading hfresh.tabWidth hopen
    change Lexer.outcome inside.scan = _
    rw [← hscan, hb, hafter, bind_map_append]
    rfl
  · -- an indented first line is a fault in both
    have hne : ¬ w.toNat = 0 := fun h => hzero (UInt64.toNat_inj.mp h)
    rw [if_neg hzero, if_neg hne]
    rfl

/-- **From the beginning of a text on** the tokens are those of its lines. -/
theorem tokens_first {line : List Char} {ls : List (List Char)}
    (hls : ∀ line' ∈ line :: ls, '\n' ∉ line')
    (hrest : l.rest = line ++ ls.flatMap ('\n' :: ·)) (hfresh : Fresh l) :
    l.tokens = readFrom (naturalWidth l.tabWidth.toNat) l.here
      (numbered l.here.line (line :: ls)) := by
  induction ls generalizing l line with
  | nil =>
    cases hfits : Line.fits (naturalWidth l.tabWidth.toNat) ⟨l.here.line, line⟩ with
    | false => exact tokens_first_trapped hrest hfresh hfits
    | true =>
      by_cases hs : Silent line
      · -- nothing on the last line either: there are no tokens
        have hseek := seek_silent l.tabWidth l.here hfresh.tabWidth hs (hls line (by simp))
          (lineEnd_flatMap []) (fits_eq_true.mp hfits)
        rw [← hrest] at hseek
        rw [Lexer.tokens_eq, numbered_cons, readFrom_of_silent _ _ hfits (isKept_eq_false.mpr hs)]
        unfold Lexer.next
        simp only [hfresh.pending, hfresh.phase, hseek]
        change Lexer.outcome (l.close _) = .ok []
        rw [outcome_close, hfresh.levels]
        rfl
      · exact tokens_first_kept hs hls hrest hfresh hfits
  | cons line' ls ih =>
    cases hfits : Line.fits (naturalWidth l.tabWidth.toNat) ⟨l.here.line, line⟩ with
    | false => exact tokens_first_trapped hrest hfresh hfits
    | true =>
      by_cases hs : Silent line
      · -- a line with nothing on it leaves the lexer at the beginning of the next one
        let after : Lexer := { l with
          here := l.here.nextLine, rest := line' ++ ls.flatMap ('\n' :: ·) }
        have hafter : Fresh after := ⟨hfresh.pending, hfresh.phase, hfresh.levels, hfresh.signed,
          rfl, hfresh.tabWidth⟩
        have hseek : Layout.seek l.tabWidth false 0 l.here l.rest =
            Layout.seek l.tabWidth false 0 after.here after.rest := by
          rw [hrest, seek_silent _ _ hfresh.tabWidth hs (hls line (by simp)) (lineEnd_flatMap _)
            (fits_eq_true.mp hfits)]
          rfl
        have hih := ih (l := after) (fun line'' h => hls line'' (by simp at h ⊢; tauto)) rfl hafter
        rw [← tokens_of_seek hfresh.pending hfresh.phase hseek, numbered_cons,
          readFrom_of_silent _ _ hfits (isKept_eq_false.mpr hs)]
        -- where the reading starts does not matter if there is a line
        exact hih
      · exact tokens_first_kept hs hls hrest hfresh hfits

end Lines

/-! ### Whole texts -/

/-- A text is its lines with line breaks between them. -/
theorem splitOn_cases (text : List Char) :
    ∃ line ls, text.splitOn '\n' = line :: ls ∧ text = line ++ ls.flatMap ('\n' :: ·) ∧
      ∀ line' ∈ line :: ls, '\n' ∉ line' := by
  induction text with
  | nil => exact ⟨[], [], rfl, rfl, by simp⟩
  | cons c text ih =>
    obtain ⟨line, ls, hsplit, htext, hlines⟩ := ih
    rw [List.splitOn_cons_eq_if_modifyHead, hsplit]
    -- a newline ends an empty line, and any other character is put before the first line
    by_cases hc : c = '\n'
    · refine ⟨[], line :: ls, by simp [hc], by rw [hc, htext]; rfl, ?_⟩
      intro line' h
      rcases List.mem_cons.mp h with rfl | h
      · simp
      · exact hlines line' h
    · refine ⟨c :: line, ls, by simp [hc], by rw [htext]; rfl, ?_⟩
      intro line' h
      rcases List.mem_cons.mp h with rfl | h
      · have := hlines line (by simp)
        simp [this, Ne.symm hc]
      · exact hlines line' (by simp [h])

/-- A tab width of zero counts as one. -/
theorem toNat_tabWidth_ofSource (tabWidth : UInt64) (source : String) :
    (Lexer.ofSource tabWidth source).tabWidth.toNat = max 1 tabWidth.toNat := by
  change (if tabWidth = 0 then 1 else tabWidth).toNat = _
  by_cases h : tabWidth = 0
  · rw [if_pos h, h]
    rfl
  · have hpos : tabWidth.toNat ≠ 0 := fun hzero => h (UInt64.toNat_inj.mp hzero)
    rw [if_neg h]
    omega

/-- **The lexer reads line by line**, whatever the tab width is. -/
theorem tokenize_eq_readChecked (tabWidth : UInt64) (source : String) :
    tokenize tabWidth source =
      readChecked (naturalWidth (max 1 tabWidth.toNat)) source.toList := by
  obtain ⟨line, ls, hsplit, htext, hlines⟩ := splitOn_cases source.toList
  have htab := toNat_tabWidth_ofSource tabWidth source
  -- a new lexer, whose tab width is one at least
  have hfresh : Fresh (Lexer.ofSource tabWidth source) := by
    refine ⟨rfl, rfl, rfl, rfl, rfl, ?_⟩
    rw [htab]
    omega
  rw [tokenize_eq, tokens_first hlines htext hfresh, htab]
  unfold readChecked lines
  rw [hsplit]
  rfl

/-- A text has tokens if its widths are words and reading it line by line gives them. -/
theorem tokenize_eq_ok_iff {tabWidth : UInt64} {source : String} {ts : List Token} :
    tokenize tabWidth source = .ok ts ↔
      (∀ line ∈ lines source.toList,
        line.fits (naturalWidth (max 1 tabWidth.toNat)) = true) ∧
      read (naturalWidth (max 1 tabWidth.toNat)) source.toList = .ok ts := by
  rw [tokenize_eq_readChecked]
  exact readChecked_eq_ok_iff

/-- **A trap is an overflow, and there is a line whose width is no word.** -/
theorem exists_line_of_trap {tabWidth : UInt64} {source : String} {kind : Trap}
    (h : tokenize tabWidth source = .error (.trap kind)) :
    kind = .overflow ∧ ∃ line ∈ lines source.toList,
      2 ^ 64 ≤ naturalWidth (max 1 tabWidth.toNat) line.margin := by
  rw [tokenize_eq_readChecked] at h
  by_cases hfits : ∀ line ∈ lines source.toList,
      line.fits (naturalWidth (max 1 tabWidth.toNat)) = true
  · -- without such a line there are only faults
    rw [readChecked_of_fits hfits] at h
    cases hread : read (naturalWidth (max 1 tabWidth.toNat)) source.toList <;>
      rw [hread] at h <;> cases h
  · obtain ⟨line, hmem, hline⟩ : ∃ line ∈ lines source.toList,
        line.fits (naturalWidth (max 1 tabWidth.toNat)) = false := by simpa using hfits
    refine ⟨?_, line, hmem, fits_eq_false.mp hline⟩
    rcases readChecked_of_not_fits hmem hline with htrap | ⟨e, hfault, -⟩
    · rw [htrap] at h
      cases h
      rfl
    · rw [hfault] at h
      cases h

/-- **The tokens of a text are those of its lines.** For every text and every tab width of at least
one:

* if the indentation of every line, also of one with nothing on it, has a width below `2 ^ 64`, then
  the tokens, or the fault, are those of the reading with natural widths;
* otherwise the lines before the first one that is too wide decide: the fault among them is
  reported, and if there is none, then that line is a trap;
* so the reading with natural widths is right whenever there is no trap. -/
theorem tokenize_eq_read (tabWidth : UInt64) (htab : 0 < tabWidth) (source : String) :
    ((∀ line ∈ lines source.toList, naturalWidth tabWidth.toNat line.margin < 2 ^ 64) →
      tokenize tabWidth source =
        (read (naturalWidth tabWidth.toNat) source.toList).mapError .fault) ∧
    (∀ before line after, lines source.toList = before ++ line :: after →
      (∀ earlier ∈ before, naturalWidth tabWidth.toNat earlier.margin < 2 ^ 64) →
      2 ^ 64 ≤ naturalWidth tabWidth.toNat line.margin →
      tokenize tabWidth source =
        match readFirst (naturalWidth tabWidth.toNat) (stopAfter Span.start (lines source.toList))
            (before.filter Line.isKept) with
        | .error e => .error (.fault e)
        | .ok _ => .error (.trap .overflow)) ∧
    (tokenize tabWidth source ≠ .error (.trap .overflow) →
      tokenize tabWidth source =
        (read (naturalWidth tabWidth.toNat) source.toList).mapError .fault) := by
  have hpos : 0 < tabWidth.toNat := UInt64.lt_iff_toNat_lt.mp htab
  rw [tokenize_eq_readChecked, Nat.max_eq_right hpos]
  refine ⟨fun hfits => ?_, fun before line after hlines hbefore hline => ?_, fun htrap => ?_⟩
  · exact readChecked_of_fits fun line hmem => fits_eq_true.mpr (hfits line hmem)
  · rw [readChecked_eq_of_lines hlines (fun l hl => fits_eq_true.mpr (hbefore l hl))
      (fits_eq_false.mpr hline)]
    cases readFirst (naturalWidth tabWidth.toNat) (stopAfter Span.start (lines source.toList))
      (before.filter Line.isKept) <;> rfl
  · -- no trap: every line fits, or a fault comes before the one that does not
    by_cases hfits : ∀ line ∈ lines source.toList,
        line.fits (naturalWidth tabWidth.toNat) = true
    · exact readChecked_of_fits hfits
    · obtain ⟨line, hmem, hline⟩ : ∃ line ∈ lines source.toList,
          line.fits (naturalWidth tabWidth.toNat) = false := by simpa using hfits
      rcases readChecked_of_not_fits hmem hline with h | ⟨e, h, hread⟩
      · exact absurd h htrap
      · rw [h, hread]
        rfl

/-- A line that is indented with a tab, and a minus sign of each kind. -/
def indentedText : List Char :=
  ['i', 'f', ' ', 'x', ':', '\n', '\t', 'y', ' ', '=', ' ', '-', '1', '\n', '#', '\n', 'y', '-',
    '1']

/-- On a text with a tab, a comment line and both kinds of minus sign the first part applies: all
widths are words. -/
theorem tokenize_indentedText :
    0 < (8 : UInt64) ∧
      tokenize 8 (String.ofList indentedText) =
        (read (naturalWidth 8) indentedText).mapError .fault := by
  refine ⟨by decide, ?_⟩
  have h := (tokenize_eq_read 8 (by decide) (String.ofList indentedText)).1
  rw [String.toList_ofList] at h
  exact h (by decide)

/-- Two tabs that are half of all words wide reach beyond them. -/
def overwideText : List Char := ['x', '\n', '\t', '\t', 'y']

/-- The second line traps the lexer, while the reading with natural widths has tokens for it. -/
theorem tokenize_overwideText :
    tokenize 9223372036854775808 (String.ofList overwideText) = .error (.trap .overflow) ∧
      read (naturalWidth 9223372036854775808) overwideText =
        .ok [⟨.identifier, some (.name "x"), ⟨1, 1⟩⟩, .plain .indent ⟨2, 3⟩,
          ⟨.identifier, some (.name "y"), ⟨2, 3⟩⟩, .plain .dedent ⟨2, 4⟩] := by
  refine ⟨?_, by rfl⟩
  rw [tokenize_eq_readChecked, String.toList_ofList]
  rfl

end Offside.Linewise
