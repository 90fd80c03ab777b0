import Offside.Proofs.Linewise.Progress

/-!
# On a line

While a lexer is on a line, it reads the longest lexemes of that line one after another and passes
over blanks and a comment; nothing outside the line matters (`tokens_line`). At the end of the line
it stands where it would stand if it had come there in any other way, but for the sign that might
have followed.
-/

namespace Offside.Linewise

open Token

/-! ### The characters of a line -/

/-- The rest of a text behind a line: nothing, or the next line. -/
def LineEnd (tail : List Char) : Prop := ∀ c ∈ tail.head?, c = '\n'

/-- The two ways in which a line can end. -/
theorem lineEnd_cases {tail : List Char} (h : LineEnd tail) :
    tail = [] ∨ ∃ more, tail = '\n' :: more := by
  cases tail with
  | nil => exact .inl rfl
  | cons c more =>
    obtain rfl : c = '\n' := h c rfl
    exact .inr ⟨more, rfl⟩

section Scan

variable (number : Nat) (last : Option Kind)

/-- The characters that still belong to a token are passed over. -/
theorem tokens_skip (column : Nat) {skip : Nat} {cs : List Char} (h : skip ≤ cs.length) :
    tokens number column last skip cs = tokens number (column + skip) last 0 (cs.drop skip) := by
  induction skip generalizing column cs with
  | zero => rfl
  | succ skip ih =>
    cases cs with
    | nil => simp at h
    | cons c cs =>
      rw [tokens, ih (column + 1) (by simpa using h), List.drop_succ_cons]
      -- the columns are the same, summed in another order
      congr 1
      omega

/-- Blanks between lexemes only count for the column. -/
theorem tokens_blanks (column : Nat) {blanks : List Char}
    (h : ∀ c ∈ blanks, Layout.isBlank c = true) (cs : List Char) :
    tokens number column last 0 (blanks ++ cs) =
      tokens number (column + blanks.length) last 0 cs := by
  induction blanks generalizing column with
  | nil => rfl
  | cons c blanks ih =>
    have hblanks : ∀ d ∈ blanks, Layout.isBlank d = true := fun d hd => h d (by simp [hd])
    rw [List.cons_append, tokens, if_pos (h c (by simp)), ih (column + 1) hblanks, List.length_cons]
    congr 1
    omega

/-- At a character that is not blank the longest lexeme is read. -/
theorem tokens_lexeme (column : Nat) {c : Char} (cs : List Char)
    (hc : Layout.isBlank c = false) :
    tokens number column last 0 (c :: cs) =
      match longest? (!last.any Kind.endsOperand) (c :: cs) with
      | none => .error ⟨.unexpectedChar c, ⟨number, column⟩⟩
      | some (_, .error fault) => .error ⟨fault, ⟨number, column⟩⟩
      | some (lexeme, .ok (kind, value)) =>
        (tokens number (column + lexeme.length) (some kind) 0 ((c :: cs).drop lexeme.length)).map
          (⟨kind, value, ⟨number, column⟩⟩ :: ·) := by
  rw [tokens, if_neg (by simp [hc])]
  rcases hl : longest? (!last.any Kind.endsOperand) (c :: cs) with
    _ | ⟨lexeme, fault | ⟨kind, value⟩⟩
  · rfl
  · rfl
  · -- the lexeme has a character, which is the one that has been looked at
    obtain ⟨hpre, hpos, -⟩ := longest?_spec hl
    have hlen : lexeme.length ≤ cs.length + 1 := hpre.length_le
    obtain ⟨n, hn⟩ : ∃ n, lexeme.length = n + 1 := ⟨lexeme.length - 1, by omega⟩
    dsimp only
    rw [hn, Nat.add_sub_cancel, tokens_skip number (some kind) (column + 1) (by omega),
      List.drop_succ_cons, Nat.add_right_comm, Nat.add_assoc]

end Scan

/-! ### Passing over blanks and comments -/

section Blanks

variable (here : Span)

/-- Columns to the right add up. -/
theorem right_right (n m : Nat) : (here.right n).right m = here.right (n + m) := by
  simp [Span.right, Nat.add_assoc]

/-- Blanks are passed over, each taking one column. -/
theorem skip_blanks {blanks : List Char} (h : ∀ c ∈ blanks, Layout.isBlank c = true)
    (cs : List Char) :
    Layout.skip false here (blanks ++ cs) = Layout.skip false (here.right blanks.length) cs := by
  induction blanks generalizing here with
  | nil => rfl
  | cons c blanks ih =>
    have hblank : Layout.isBlank c = true := h c (by simp)
    obtain ⟨hline, hhash⟩ := ne_of_isBlank hblank
    rw [List.cons_append, Layout.skip, if_neg hline, if_neg (by simp [hhash]), if_pos hblank,
      ih (here.right 1) fun d hd => h d (by simp [hd]), right_right, List.length_cons,
      Nat.add_comm 1]

/-- A comment is passed over up to the end of its line. -/
theorem skip_comment {cs tail : List Char} (h : '\n' ∉ cs) (htail : LineEnd tail) :
    Layout.skip true here (cs ++ tail) = (here.right cs.length, tail) := by
  induction cs generalizing here with
  | nil =>
    rcases lineEnd_cases htail with rfl | ⟨more, rfl⟩
    · rfl
    · rfl
  -- inside a comment every character but a line feed is passed over
  | cons c cs ih =>
    rw [List.mem_cons, not_or] at h
    rw [List.cons_append, Layout.skip, if_neg (Ne.symm h.1), if_pos (by simp),
      ih (here.right 1) h.2, right_right, List.length_cons, Nat.add_comm 1]

/-- At the end of a line there is nothing to pass over. -/
theorem skip_lineEnd {tail : List Char} (htail : LineEnd tail) :
    Layout.skip false here tail = (here, tail) := by
  rcases lineEnd_cases htail with rfl | ⟨more, rfl⟩
  · rfl
  · rfl

/-- There is nothing on a line but blanks and a comment. -/
def Silent (cs : List Char) : Prop :=
  (cs.dropWhile Layout.isBlank).head?.any (· ≠ '#') = false

/-- A silent line cut into its blanks and its comment. -/
theorem silent_cases {cs : List Char} (h : Silent cs) :
    ∃ blanks rest, cs = blanks ++ rest ∧ (∀ c ∈ blanks, Layout.isBlank c = true) ∧
      (rest = [] ∨ ∃ comment, rest = '#' :: comment) := by
  refine ⟨cs.takeWhile Layout.isBlank, cs.dropWhile Layout.isBlank,
    List.takeWhile_append_dropWhile.symm, fun c hc => List.mem_takeWhile_imp hc, ?_⟩
  unfold Silent at h
  -- behind the blanks there is nothing, or a comment
  cases hrest : cs.dropWhile Layout.isBlank with
  | nil => exact .inl rfl
  | cons c rest =>
    rw [hrest] at h
    obtain rfl : c = '#' := by simpa using h
    exact .inr ⟨rest, rfl⟩

/-- A line with something on it: blanks, and then a character that can only begin a lexeme. -/
theorem not_silent_cases {cs : List Char} (h : ¬ Silent cs) (hline : '\n' ∉ cs) :
    ∃ c rest, cs.dropWhile Layout.isBlank = c :: rest ∧ isGap c = false := by
  unfold Silent at h
  cases hrest : cs.dropWhile Layout.isBlank with
  | nil => simp [hrest] at h
  | cons c rest =>
    have hhash : c ≠ '#' := by simpa [hrest] using h
    -- the blanks have been dropped, and the line has no end in it
    have hblank : Layout.isBlank c = false := by
      have := List.head?_dropWhile_not Layout.isBlank cs
      rw [hrest] at this
      simpa using this
    have hmem : c ∈ cs := (List.dropWhile_suffix _).subset (hrest ▸ List.mem_cons_self)
    have hnew : c ≠ '\n' := fun hc => hline (hc ▸ hmem)
    exact ⟨c, rest, rfl, not_isGap_iff.mpr ⟨hblank, hnew, hhash⟩⟩

/-- A silent rest of a line is passed over at once: the blanks by `skip_blanks`, the comment by
`skip_comment`. -/
theorem skip_silent {cs tail : List Char} (h : Silent cs) (hline : '\n' ∉ cs)
    (htail : LineEnd tail) :
    Layout.skip false here (cs ++ tail) = (here.right cs.length, tail) := by
  obtain ⟨blanks, rest, rfl, hblanks, rfl | ⟨comment, rfl⟩⟩ := silent_cases h
  · rw [List.append_nil, skip_blanks here hblanks, skip_lineEnd _ htail]
  · have hcomment : '\n' ∉ comment := fun hmem => hline (by simp [hmem])
    rw [List.append_assoc, skip_blanks here hblanks, List.cons_append, Layout.skip,
      if_neg (by decide), if_pos (by simp), skip_comment _ hcomment htail, right_right, right_right,
      List.length_append, List.length_cons, Nat.add_comm 1]

/-- Before something else the blanks are passed over and nothing more. -/
theorem skip_content {cs rest tail : List Char} {c : Char}
    (hrest : cs.dropWhile Layout.isBlank = c :: rest) (hc : isGap c = false) :
    Layout.skip false here (cs ++ tail) =
      (here.right (cs.takeWhile Layout.isBlank).length, c :: rest ++ tail) := by
  have hcs : cs ++ tail = cs.takeWhile Layout.isBlank ++ (c :: rest ++ tail) := by
    rw [← hrest, ← List.append_assoc, List.takeWhile_append_dropWhile]
  -- the character is none of the three that the search goes on at
  obtain ⟨hblank, hnew, hhash⟩ := not_isGap_iff.mp hc
  rw [hcs, skip_blanks here fun d hd => List.mem_takeWhile_imp hd, List.cons_append, Layout.skip,
    if_neg hnew, if_neg (by simp [hhash]), if_neg (by simp [hblank])]

end Blanks

/-- The characters before the comment of a silent line are blanks, so there are no tokens on it. -/
theorem tokens_silent {cs : List Char} (h : Silent cs) (number column : Nat)
    (last : Option Kind) :
    tokens number column last 0 (cs.takeWhile (· ≠ '#')) = .ok [] := by
  obtain ⟨blanks, rest, rfl, hblanks, hrest⟩ := silent_cases h
  have hhash : ∀ c ∈ blanks, decide (c ≠ '#') = true := by
    intro c hc
    rw [decide_eq_true_eq]
    rintro rfl
    exact absurd (hblanks _ hc) (by decide)
  -- what is left before the comment are the blanks
  have hnil : rest.takeWhile (· ≠ '#') = [] := by
    rcases hrest with rfl | ⟨comment, rfl⟩ <;> rfl
  rw [List.takeWhile_append_of_pos hhash, hnil, tokens_blanks number last column hblanks]
  rfl

/-! ### On a line -/

section Line

variable {l : Lexer}

/-- Passing over blanks first makes no difference to the tokens. -/
theorem tokens_of_skip (hp : l.pending = []) (hph : l.phase = .reading) {here : Span}
    {rest : List Char} (h : Layout.skip false l.here l.rest = Layout.skip false here rest) :
    ({ l with here := here, rest := rest } : Lexer).tokens = l.tokens := by
  rw [Lexer.tokens_eq, Lexer.tokens_eq]
  unfold Lexer.next
  simp only [hp, hph, h]
  split
  · rfl
  · -- only after a trap does the lexer still stand where it stood
    split <;> rfl
  · rfl

/-- Where something comes next, a step reads a lexeme. -/
theorem next_scan (hp : l.pending = []) (hph : l.phase = .reading) {here : Span} {c : Char}
    {rest : List Char} (h : Layout.skip false l.here l.rest = (here, c :: rest)) (hc : c ≠ '\n') :
    l.next = ({ l with here := here, rest := c :: rest } : Lexer).scan := by
  unfold Lexer.next
  simp only [hp, hph, h]
  -- of the three things that can come next only a lexeme is left
  split
  next heq => cases heq
  next heq =>
    cases heq
    exact absurd rfl hc
  next heq =>
    cases heq
    rfl

/-- **A lexeme**: the token that the longest match gives, and then the rest. -/
theorem outcome_scan {c : Char} {rest : List Char} (hrest : l.rest = c :: rest) :
    Lexer.outcome l.scan =
      match longest? l.signed l.rest with
      | none => .error (.fault ⟨.unexpectedChar c, l.here⟩)
      | some (_, .error fault) => .error (.fault ⟨fault, l.here⟩)
      | some (lexeme, .ok (kind, value)) =>
        ({ l with
            rest := l.rest.drop lexeme.length
            here := l.here.right lexeme.length
            signed := !kind.endsOperand } : Lexer).tokens.map (⟨kind, value, l.here⟩ :: ·) := by
  -- reading from left to right is the longest match; what follows is one case each
  rw [longest?_eq_read, Lexer.scan]
  cases Lexeme.read l.signed l.rest with
  | token chars kind value => rfl
  | outOfRange chars => rfl
  | unexpected => simp only [hrest]; rfl

/-- The lexer at the end of its line. Whether a minus sign could begin a number there does not
matter any more. -/
def endOfLine (l : Lexer) (tail : List Char) (count : Nat) (signed : Bool) : Lexer :=
  { l with rest := tail, here := l.here.right count, signed := signed }

/-- What is left of the characters before a comment behind a lexeme. -/
theorem drop_takeWhile {p : Char → Bool} {cs : List Char} {n : Nat}
    (h : n ≤ (cs.takeWhile p).length) : (cs.takeWhile p).drop n = (cs.drop n).takeWhile p := by
  induction n generalizing cs with
  | zero => rfl
  | succ n ih =>
    cases cs with
    | nil => rfl
    | cons c cs =>
      by_cases hc : p c = true
      · rw [List.takeWhile_cons_of_pos hc] at h ⊢
        rw [List.drop_succ_cons, List.drop_succ_cons]
        exact ih (by simpa using h)
      · -- nothing is taken, so nothing can be dropped
        rw [List.takeWhile_cons_of_neg hc] at h
        simp at h

/-- A token in front of those of a line, the faults of a line being faults of the lexer. -/
theorem map_cons_bind (X : Except LexicalError (List Token))
    (Y : Except (Halt LexicalError) (List Token)) (t : Token) :
    (X.mapError Halt.fault >>= fun ts => Y.map (ts ++ ·)).map (t :: ·) =
      (X.map (t :: ·)).mapError Halt.fault >>= fun ts => Y.map (ts ++ ·) := by
  cases X <;> cases Y <;> rfl

/-- The two ways in which the tokens of two parts are put together: a map in one place, a bind in
the other. -/
theorem bind_map_append (X Y : Except (Halt LexicalError) (List Token)) :
    (X >>= fun ts => Y.map (ts ++ ·)) =
      (do
        let ts ← X
        let more ← Y
        .ok (ts ++ more)) := by
  cases X <;> cases Y <;> rfl

/-- The same with the tokens of the layout in front. -/
theorem map_append_bind (X Y : Except (Halt LexicalError) (List Token)) (layout : List Token) :
    (X >>= fun ts => Y.map (ts ++ ·)).map (layout ++ ·) =
      (do
        let ts ← X
        let more ← Y
        .ok (layout ++ ts ++ more)) := by
  cases X <;> cases Y <;> simp [Except.map, bind, Except.bind]

/-- The characters of a line before a comment, without the blanks in front. -/
theorem takeWhile_content {cs rest : List Char} {c : Char}
    (hrest : cs.dropWhile Layout.isBlank = c :: rest) (hc : c ≠ '#') :
    cs.takeWhile (· ≠ '#') =
      cs.takeWhile Layout.isBlank ++ c :: rest.takeWhile (· ≠ '#') := by
  have hhash : ∀ d ∈ cs.takeWhile Layout.isBlank, decide (d ≠ '#') = true := by
    intro d hd
    rw [decide_eq_true_eq]
    rintro rfl
    exact absurd (List.mem_takeWhile_imp hd) (by decide)
  -- the blanks belong to the characters before a comment, and so does the first character behind
  -- them
  have hcode : (c :: rest).takeWhile (· ≠ '#') = c :: rest.takeWhile (· ≠ '#') :=
    List.takeWhile_cons_of_pos (by simp [hc])
  rw [← hcode, ← hrest, ← List.takeWhile_append_of_pos hhash, List.takeWhile_append_dropWhile]

/-- A lexeme is read from what comes before a comment and the end of the line. -/
theorem longest?_code {signed : Bool} (cs : List Char) {tail : List Char} (htail : LineEnd tail) :
    longest? signed (cs ++ tail) = longest? signed (cs.takeWhile (· ≠ '#')) := by
  have hcs : cs ++ tail = cs.takeWhile (· ≠ '#') ++ (cs.dropWhile (· ≠ '#') ++ tail) := by
    rw [← List.append_assoc, List.takeWhile_append_dropWhile]
  rw [hcs]
  -- neither the sign of a comment nor a newline can continue a lexeme
  refine longest?_append _ fun c hc => ?_
  cases hdrop : cs.dropWhile (· ≠ '#') with
  | nil =>
    rw [hdrop, List.nil_append] at hc
    rw [htail c hc]
    decide
  | cons d ds =>
    rw [hdrop] at hc
    have hd := List.head?_dropWhile_not (· ≠ '#') cs
    rw [hdrop] at hd
    obtain rfl : c = d := by simpa using hc.symm
    obtain rfl : c = '#' := by simpa using hd
    decide

/-- A lexeme is no longer than what it is read from, with the comment or without. -/
theorem length_le_of_longest? {signed : Bool} {cs lexeme : List Char} {m : Meaning}
    (h : longest? signed (cs.takeWhile (· ≠ '#')) = some (lexeme, m)) :
    lexeme.length ≤ (cs.takeWhile (· ≠ '#')).length ∧ lexeme.length ≤ cs.length := by
  have hpre := (longest?_spec h).1.length_le
  exact ⟨hpre, hpre.trans (List.takeWhile_prefix _).length_le⟩

/-- Where nothing more is on the line, the lexer stands at its end. -/
theorem tokens_of_silent {cs tail : List Char} (hs : Silent cs) (htail : LineEnd tail)
    (hline : '\n' ∉ cs) (hrest : l.rest = cs ++ tail) (hp : l.pending = [])
    (hph : l.phase = .reading) : l.tokens = (endOfLine l tail cs.length l.signed).tokens := by
  have hskip : Layout.skip false l.here l.rest =
      Layout.skip false (l.here.right cs.length) tail := by
    rw [hrest, skip_silent _ hs hline htail, skip_lineEnd _ htail]
  exact (tokens_of_skip hp hph hskip).symm

/-- Where something is on the line, the lexer gives the longest lexeme before a comment and goes on
behind it. -/
theorem tokens_of_content {cs rest tail : List Char} {c : Char}
    (hcontent : cs.dropWhile Layout.isBlank = c :: rest) (hgap : isGap c = false)
    (htail : LineEnd tail) (hrest : l.rest = cs ++ tail) (hp : l.pending = [])
    (hph : l.phase = .reading) :
    l.tokens =
      let here := l.here.right (cs.takeWhile Layout.isBlank).length
      match longest? l.signed ((c :: rest).takeWhile (· ≠ '#')) with
      | none => .error (.fault ⟨.unexpectedChar c, here⟩)
      | some (_, .error fault) => .error (.fault ⟨fault, here⟩)
      | some (lexeme, .ok (kind, value)) =>
        ({ l with
            rest := (c :: rest).drop lexeme.length ++ tail
            here := here.right lexeme.length
            signed := !kind.endsOperand } : Lexer).tokens.map (⟨kind, value, here⟩ :: ·) := by
  have hnew : c ≠ '\n' := (not_isGap_iff.mp hgap).2.1
  -- the lexer passes over the blanks and stays on the line
  have hskip : Layout.skip false l.here l.rest =
      (l.here.right (cs.takeWhile Layout.isBlank).length, c :: (rest ++ tail)) := by
    rw [hrest]
    exact skip_content _ hcontent hgap
  rw [Lexer.tokens_eq, next_scan hp hph hskip hnew, outcome_scan rfl]
  dsimp only
  -- the lexeme is read without the comment and without the next lines
  rw [← List.cons_append, longest?_code _ htail]
  rcases hl : longest? l.signed ((c :: rest).takeWhile (· ≠ '#')) with
    _ | ⟨lexeme, fault | ⟨kind, value⟩⟩
  · rfl
  · rfl
  · dsimp only
    rw [List.drop_append_of_le_length (length_le_of_longest? hl).2]

/-- **On a line** the lexer gives the tokens of the line, and then goes on at its end. -/
theorem tokens_line {tail cs : List Char} {last : Option Kind} (htail : LineEnd tail)
    (hline : '\n' ∉ cs) (hrest : l.rest = cs ++ tail) (hp : l.pending = [])
    (hph : l.phase = .reading) (hsigned : l.signed = !last.any Kind.endsOperand) :
    ∃ b, l.tokens =
      (tokens l.here.line l.here.column last 0 (cs.takeWhile (· ≠ '#'))).mapError .fault >>=
        fun ts => (endOfLine l tail cs.length b).tokens.map (ts ++ ·) := by
  -- by induction on the number of characters that are left of the line
  obtain ⟨n, hn⟩ : ∃ n, cs.length < n := ⟨_, Nat.lt_succ_self _⟩
  induction n generalizing l cs last with
  | zero => omega
  | succ n ih =>
    by_cases hs : Silent cs
    · refine ⟨l.signed, ?_⟩
      rw [tokens_silent hs, tokens_of_silent hs htail hline hrest hp hph]
      change _ = (endOfLine l tail cs.length l.signed).tokens.map id
      cases (endOfLine l tail cs.length l.signed).tokens <;> rfl
    · obtain ⟨c, rest, hcontent, hgap⟩ := not_silent_cases hs hline
      obtain ⟨hblank, -, hhash⟩ := not_isGap_iff.mp hgap
      have hcode : (c :: rest).takeWhile (· ≠ '#') = c :: rest.takeWhile (· ≠ '#') :=
        List.takeWhile_cons_of_pos (by simp [hhash])
      -- both sides read the same lexeme
      rw [tokens_of_content hcontent hgap htail hrest hp hph, takeWhile_content hcontent hhash,
        tokens_blanks _ _ _ fun d hd => List.mem_takeWhile_imp hd, tokens_lexeme _ _ _ _ hblank,
        ← hcode, hsigned]
      rcases hl : longest? (!last.any Kind.endsOperand) ((c :: rest).takeWhile (· ≠ '#')) with
        _ | ⟨lexeme, fault | ⟨kind, value⟩⟩
      · exact ⟨true, rfl⟩
      · exact ⟨true, rfl⟩
      · -- behind it the rest of the line is shorter
        obtain ⟨-, hpos, -⟩ := longest?_spec hl
        obtain ⟨hcomment, hle⟩ := length_le_of_longest? hl
        have hsub : '\n' ∉ (c :: rest).drop lexeme.length := by
          intro hmem
          apply hline
          rw [← hcontent] at hmem
          exact (List.dropWhile_suffix _).subset (List.mem_of_mem_drop hmem)
        have hlen : (cs.takeWhile Layout.isBlank).length + (c :: rest).length = cs.length := by
          rw [← hcontent, ← List.length_append, List.takeWhile_append_dropWhile]
        have hshort : ((c :: rest).drop lexeme.length).length < n := by
          rw [List.length_drop]
          omega
        have hend : (cs.takeWhile Layout.isBlank).length +
            (lexeme.length + ((c :: rest).drop lexeme.length).length) = cs.length := by
          rw [List.length_drop]
          omega
        let after : Lexer := { l with
          rest := (c :: rest).drop lexeme.length ++ tail
          here := (l.here.right (cs.takeWhile Layout.isBlank).length).right lexeme.length
          signed := !kind.endsOperand }
        have hafter : after.signed = !(some kind).any Kind.endsOperand := rfl
        obtain ⟨b, hb⟩ := ih hsub (show after.rest = _ from rfl) hp hph hafter hshort
        -- the end of the line is the same place, seen from behind the lexeme
        have hsame : endOfLine after tail ((c :: rest).drop lexeme.length).length b =
            endOfLine l tail cs.length b := by
          unfold endOfLine
          rw [right_right, right_right, hend]
        refine ⟨b, ?_⟩
        change after.tokens.map _ = _
        rw [hb, map_cons_bind, hsame, ← drop_takeWhile hcomment]
        rfl

end Line

end Offside.Linewise
