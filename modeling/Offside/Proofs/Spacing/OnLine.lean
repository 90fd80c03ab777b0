import Offside.Proofs.Linewise.Alike

/-!
# Blanks and comments on a line

What stands between the lexemes of a line, and behind the last of them, plays no part in what its
tokens are.

* `Linewise.Line.alike_trailing` — blanks and a comment at the end of a line;
* `Linewise.Line.alike_inserted` — blanks between two lexemes of a line, or behind the last.

At the end of a line nothing changes, a fault on the line included. Inside it the positions behind
the blanks change, by as many columns as there are blanks (`Span.shifted`).
-/

namespace Offside

/-- A position so many columns further to the right, if it is on the line of some place and not
before it. -/
def Span.shifted (here : Span) (count : Nat) (s : Span) : Span :=
  if s.line = here.line ∧ here.column ≤ s.column then s.right count else s

namespace Span

theorem shifted_of_le {here s : Span} (count : Nat) (hline : s.line = here.line)
    (hcolumn : here.column ≤ s.column) : here.shifted count s = s.right count :=
  if_pos ⟨hline, hcolumn⟩

theorem shifted_of_lt {here s : Span} (count : Nat) (hcolumn : s.column < here.column) :
    here.shifted count s = s :=
  if_neg fun h => absurd h.2 (Nat.not_le.mpr hcolumn)

theorem shifted_of_ne {here s : Span} (count : Nat) (hline : s.line ≠ here.line) :
    here.shifted count s = s :=
  if_neg fun h => hline h.1

end Span

namespace Linewise

open Token

/-! ### Lines that begin alike -/

theorem silent_append {cs more : List Char} (h : Silent cs) (hmore : Silent more) :
    Silent (cs ++ more) := by
  unfold Silent at h hmore ⊢
  rw [List.dropWhile_append]
  cases hbody : cs.dropWhile Layout.isBlank with
  | nil => exact hmore
  | cons c rest =>
    rw [hbody] at h
    exact h

theorem body_ne_nil {cs : List Char} (h : ¬ Silent cs) : cs.dropWhile Layout.isBlank ≠ [] := by
  intro hbody
  rw [Silent, hbody] at h
  exact h rfl

section Begin

variable {cs : List Char} (h : cs.dropWhile Layout.isBlank ≠ []) (number : Nat) (more : List Char)
include h

theorem Line.body_append :
    Line.body ⟨number, cs ++ more⟩ = Line.body ⟨number, cs⟩ ++ more := by
  unfold Line.body
  rw [List.dropWhile_append, if_neg (by simpa using h)]

theorem Line.margin_append :
    Line.margin ⟨number, cs ++ more⟩ = Line.margin ⟨number, cs⟩ := by
  have hparts : ∀ l : Line, l.margin ++ l.body = l.chars := fun _ =>
    List.takeWhile_append_dropWhile
  have happend := hparts ⟨number, cs ++ more⟩
  rw [Line.body_append h, ← List.append_assoc] at happend
  -- what is left of both lines is the same
  have hall := (List.append_cancel_right happend).trans (hparts ⟨number, cs⟩).symm
  exact List.append_cancel_right hall

theorem silent_append_iff : Silent (cs ++ more) ↔ Silent cs := by
  unfold Silent
  rw [List.dropWhile_append, if_neg (by simpa using h)]
  cases hbody : cs.dropWhile Layout.isBlank with
  | nil => exact absurd hbody h
  | cons c rest => rfl

end Begin

/-! ### Behind the last lexeme -/

theorem tokens_of_blanks (number column : Nat) (last : Option Kind) (skip : Nat)
    {blanks : List Char} (h : ∀ c ∈ blanks, Layout.isBlank c = true) :
    tokens number column last skip blanks = .ok [] := by
  induction blanks generalizing column skip with
  | nil => rfl
  | cons c blanks ih =>
    obtain ⟨hc, hblanks⟩ := List.forall_mem_cons.mp h
    -- a blank is passed over, also where it still belongs to a lexeme before it
    cases skip with
    | succ skip => exact ih _ skip hblanks
    | zero =>
      rw [tokens, if_pos hc]
      exact ih _ 0 hblanks

theorem head?_blanks {blanks : List Char} (hne : blanks ≠ [])
    (h : ∀ c ∈ blanks, Layout.isBlank c = true) (more : List Char) :
    ∀ c ∈ (blanks ++ more).head?, isGap c = true := by
  cases blanks with
  | nil => exact absurd rfl hne
  | cons b blanks =>
    intro c hc
    obtain rfl : b = c := by simpa using hc
    simp [isGap, h b List.mem_cons_self]

/-- **Blanks at the end play no part.** -/
theorem tokens_trailing (number column : Nat) (last : Option Kind) (skip : Nat) (cs : List Char)
    {blanks : List Char} (h : ∀ c ∈ blanks, Layout.isBlank c = true) :
    tokens number column last skip (cs ++ blanks) = tokens number column last skip cs := by
  by_cases hne : blanks = []
  · rw [hne, List.append_nil]
  induction cs generalizing column last skip with
  | nil => exact tokens_of_blanks number column last skip h
  | cons c cs ih =>
    cases skip with
    | succ skip => exact ih _ last skip
    | zero =>
      -- a lexeme does not reach into the blanks, so it is the same with and without them
      have hlongest : ∀ signed,
          longest? signed (c :: (cs ++ blanks)) = longest? signed (c :: cs) := by
        intro signed
        have hgap := head?_blanks hne h []
        rw [List.append_nil] at hgap
        exact longest?_append (c :: cs) hgap
      rw [List.cons_append, tokens, tokens, hlongest]
      simp only [ih]

/-- Behind the code of a line, trivia adds at most blanks to it. -/
theorem takeWhile_trailing (cs : List Char) {trivia : List Char} (h : Silent trivia) :
    ∃ blanks, (∀ c ∈ blanks, Layout.isBlank c = true) ∧
      (cs ++ trivia).takeWhile (· ≠ '#') = cs.takeWhile (· ≠ '#') ++ blanks := by
  obtain ⟨blanks, rest, rfl, hblanks, hrest⟩ := silent_cases h
  rw [List.takeWhile_append]
  split
  · next hlength =>
    -- no comment in front: the blanks still belong to the code
    have hall : cs.takeWhile (· ≠ '#') = cs :=
      (List.takeWhile_prefix _).eq_of_length hlength
    have hcode : (blanks ++ rest).takeWhile (· ≠ '#') = blanks := by
      have hne : ∀ c ∈ blanks, decide (c ≠ '#') = true := fun c hc => by
        simpa using (ne_of_isBlank (hblanks c hc)).2
      rw [List.takeWhile_append_of_pos hne]
      rcases hrest with rfl | ⟨comment, rfl⟩ <;> simp
    exact ⟨blanks, hblanks, by rw [hall, hcode]⟩
  · -- behind a comment nothing is code
    exact ⟨[], by simp, by rw [List.append_nil]⟩

/-- **Trivia at the end of a line** that has something on it. -/
theorem Line.alike_trailing {width : List Char → Nat} (number : Nat) {cs trivia : List Char}
    (hcs : ¬ Silent cs) (htrivia : Silent trivia) :
    Line.Alike (fun s s' => s' = s) width width ⟨number, cs⟩ ⟨number, cs ++ trivia⟩ := by
  have hne := body_ne_nil hcs
  -- something stands on the line, so the margin ends before the trivia
  have hmargin := Line.margin_append hne number trivia
  refine ⟨by rw [hmargin], by rw [Line.start, Line.start, hmargin], ?_⟩
  obtain ⟨blanks, hblanks, hcode⟩ := takeWhile_trailing (Line.body ⟨number, cs⟩) htrivia
  have htokens : Line.tokens ⟨number, cs ++ trivia⟩ = Line.tokens ⟨number, cs⟩ := by
    rw [Line.tokens, Line.tokens, hmargin, Line.body_append hne, hcode,
      tokens_trailing _ _ _ _ _ hblanks]
  rw [htokens]
  exact tokens_alike (R := fun s s' => s' = s) (fun _ => rfl) _ _ _

/-! ### Between two lexemes -/

/-- The tokens of some characters stand where the characters do. -/
theorem tokens_spans {number column : Nat} {last : Option Kind} {skip : Nat} {cs : List Char}
    {ts : List Token} (h : tokens number column last skip cs = .ok ts) :
    ∀ t ∈ ts, t.span.line = number ∧ column + skip ≤ t.span.column ∧
      t.span.column < column + cs.length := by
  induction cs generalizing column last skip ts with
  | nil =>
    cases h
    exact List.forall_mem_nil _
  | cons c cs ih =>
    have hlength : (c :: cs).length = cs.length + 1 := List.length_cons
    cases skip with
    | succ skip =>
      intro t ht
      obtain ⟨hline, hle, hlt⟩ := ih h t ht
      exact ⟨hline, by omega, by omega⟩
    | zero =>
      rw [tokens] at h
      split at h
      · intro t ht
        obtain ⟨hline, hle, hlt⟩ := ih h t ht
        exact ⟨hline, by omega, by omega⟩
      · split at h
        · cases h
        · cases h
        · next lexeme kind value _ =>
          cases hus : tokens number (column + 1) (some kind) (lexeme.length - 1) cs with
          | error e =>
            rw [hus] at h
            cases h
          | ok us =>
            rw [hus] at h
            cases h
            -- the first token stands here, and the others behind its first character
            refine List.forall_mem_cons.mpr ⟨⟨rfl, by simp, by simp⟩, fun t ht => ?_⟩
            obtain ⟨hline, hle, hlt⟩ := ih hus t ht
            exact ⟨hline, by omega, by omega⟩

/-- A lexeme that ends in time does not depend on what comes later. -/
theorem longest?_of_append {signed : Bool} {p q lexeme : List Char} {m : Meaning}
    (h : longest? signed (p ++ q) = some (lexeme, m)) (hlength : lexeme.length ≤ p.length) :
    longest? signed p = some (lexeme, m) := by
  unfold longest? at h ⊢
  rw [List.inits_append, List.filterMap_append] at h
  cases hlong : ((q.inits.tail.map fun more => p ++ more).filterMap
      fun l => (meaning? signed l).map (l, ·)).getLast? with
  | none =>
    rw [List.getLast?_append, hlong] at h
    exact h
  | some found =>
    rw [List.getLast?_append, hlong] at h
    cases h
    -- what is found among the longer beginnings is longer
    obtain ⟨l, hl, hmeaning⟩ := List.mem_filterMap.mp (List.mem_of_getLast? hlong)
    obtain ⟨more, hmore, rfl⟩ := List.mem_map.mp hl
    obtain ⟨m', -, heq⟩ := Option.map_eq_some_iff.mp hmeaning
    cases heq
    cases q with
    | nil => simp at hmore
    | cons c q =>
      rw [List.inits_cons, List.tail_cons, List.mem_map] at hmore
      obtain ⟨more', -, rfl⟩ := hmore
      simp only [List.length_append, List.length_cons] at hlength
      omega

/-- No lexeme reaches into blanks. -/
theorem length_le_of_blanks {signed : Bool} {p gap lexeme : List Char} {m : Meaning}
    (hgap : ∀ c ∈ gap, Layout.isBlank c = true) (hpre : lexeme <+: p ++ gap)
    (hm : meaning? signed lexeme = some m) : lexeme.length ≤ p.length := by
  rcases List.prefix_or_prefix_of_prefix hpre (List.prefix_append p gap) with hle | ⟨more, rfl⟩
  · exact hle.length_le
  · have hmore : more <+: gap := (List.prefix_append_right_inj p).mp hpre
    cases more with
    | nil => simp
    | cons c more =>
      -- a lexeme that is longer would have a blank in it
      have hblank := hgap c (hmore.subset List.mem_cons_self)
      have hnot := not_isGap_of_meaning? hm c (by simp)
      rw [(not_isGap_iff.mp hnot).1] at hblank
      cases hblank

/-- A lexeme that ends before some blanks is read in the same way with more of them. -/
theorem longest?_inserted {signed : Bool} {p gap rest blanks lexeme : List Char} {m : Meaning}
    (hblanks : ∀ c ∈ blanks, Layout.isBlank c = true) (hgap : ∀ c ∈ gap, Layout.isBlank c = true)
    (h : longest? signed (p ++ (gap ++ rest)) = some (lexeme, m))
    (hreach : lexeme.length ≤ p.length + gap.length) :
    lexeme.length ≤ p.length ∧
      longest? signed (p ++ (blanks ++ (gap ++ rest))) = some (lexeme, m) := by
  obtain ⟨hpre, -, hm⟩ := longest?_spec h
  -- up to the gap the characters are those before the blanks were put in
  have hbegin : lexeme <+: p ++ gap := by
    rw [← List.append_assoc] at hpre
    exact List.prefix_of_prefix_length_le hpre (List.prefix_append _ _) (by simpa using hreach)
  have hle := length_le_of_blanks hgap hbegin hm
  refine ⟨hle, ?_⟩
  by_cases hne : blanks = []
  · rwa [hne, List.nil_append]
  · rw [longest?_append p (head?_blanks hne hblanks _)]
    exact longest?_of_append h hle

/-- **Blanks between two lexemes**, or behind the last of them. No lexeme is cut in two by them,
since behind the blanks that follow already either nothing comes or a token begins. -/
theorem tokens_inserted (number : Nat) {column : Nat} {last : Option Kind} {skip : Nat}
    {p gap rest blanks : List Char} {ts : List Token}
    (hblanks : ∀ c ∈ blanks, Layout.isBlank c = true) (hgap : ∀ c ∈ gap, Layout.isBlank c = true)
    (hskip : skip ≤ p.length) (h : tokens number column last skip (p ++ (gap ++ rest)) = .ok ts)
    (hcut : rest = [] ∨ ∃ u ∈ ts, u.span.column = column + p.length + gap.length) :
    tokens number column last skip (p ++ (blanks ++ (gap ++ rest))) =
      .ok (ts.map (Token.moved (Span.shifted ⟨number, column + p.length⟩ blanks.length))) := by
  induction p generalizing column last skip ts with
  | nil =>
    -- all that follows is further to the right
    obtain rfl : skip = 0 := Nat.le_zero.mp hskip
    have halike : Alike (fun s s' => s' = Span.shifted ⟨number, column⟩ blanks.length s)
        ((tokens number column last 0 (gap ++ rest)).mapError .fault)
        ((tokens number (column + blanks.length) last 0 (gap ++ rest)).mapError .fault) := by
      refine tokens_alike (fun i => ?_) last 0 (gap ++ rest)
      have hright := @Span.shifted_of_le ⟨number, column⟩ ⟨number, column + i⟩ blanks.length rfl
        (Nat.le_add_right column i)
      rw [hright, Span.right, Nat.add_right_comm]
    rw [List.nil_append] at h ⊢
    rw [tokens_blanks number last column hblanks]
    have hmoved := halike.eq_movedTokens
    rw [h] at hmoved
    exact mapError_eq_ok hmoved
  | cons c p ih =>
    have hcolumn : column + (c :: p).length = column + 1 + p.length := by
      rw [List.length_cons]
      omega
    rw [hcolumn] at hcut ⊢
    cases skip with
    | succ skip => exact ih (Nat.le_of_succ_le_succ hskip) h hcut
    | zero =>
      rw [List.cons_append, tokens] at h ⊢
      split at h
      · next hc =>
        rw [if_pos hc]
        exact ih (Nat.zero_le _) h hcut
      · next hc =>
        rw [if_neg hc]
        split at h
        · cases h
        · cases h
        · next lexeme kind value hlongest =>
          cases hus : tokens number (column + 1) (some kind) (lexeme.length - 1)
              (p ++ (gap ++ rest)) with
          | error e =>
            rw [hus] at h
            cases h
          | ok us =>
            rw [hus] at h
            cases h
            -- the token that begins behind the place is not this one, but one of those that follow
            have hcut' : rest = [] ∨
                ∃ u ∈ us, u.span.column = column + 1 + p.length + gap.length := by
              refine hcut.imp_right ?_
              rintro ⟨u, hu, hspan⟩
              rcases List.mem_cons.mp hu with rfl | hu
              · dsimp only at hspan
                omega
              · exact ⟨u, hu, hspan⟩
            -- the lexeme ends before the next token begins
            have hreach : lexeme.length ≤ (c :: p).length + gap.length := by
              rw [List.length_cons]
              rcases hcut' with rfl | ⟨u, hu, hspan⟩
              · have hpre := (longest?_spec hlongest).1.length_le
                simp only [List.length_cons, List.length_append, List.length_nil] at hpre
                omega
              · have hle := (tokens_spans hus u hu).2.1
                omega
            obtain ⟨hle, hsame⟩ := longest?_inserted (p := c :: p) hblanks hgap hlongest hreach
            have hfirst : Span.shifted ⟨number, column + 1 + p.length⟩ blanks.length
                ⟨number, column⟩ = ⟨number, column⟩ := Span.shifted_of_lt _ (by dsimp only; omega)
            have hmore := ih (Nat.sub_le_of_le_add hle) hus hcut'
            rw [List.cons_append] at hsame
            rw [hsame]
            simp only [hmore, List.map_cons, Token.moved, hfirst]
            rfl

/-- What comes behind the beginning of a comment is no code. -/
theorem takeWhile_of_comment {cs : List Char} (h : '#' ∈ cs) (more : List Char) :
    (cs ++ more).takeWhile (· ≠ '#') = cs.takeWhile (· ≠ '#') := by
  rw [List.takeWhile_append, if_neg]
  intro hall
  have heq := (List.takeWhile_prefix (· ≠ '#')).eq_of_length hall
  rw [← heq] at h
  exact absurd (List.mem_takeWhile_imp h) (by decide)

/-- **Blanks inside a line** that are put behind its first lexeme: into the comment, or to a place
where no lexeme is cut in two. -/
theorem Line.alike_inserted {width : List Char → Nat} (number : Nat) {pre post blanks : List Char}
    {us : List Token} (hblanks : ∀ c ∈ blanks, Layout.isBlank c = true)
    (hpre : pre.dropWhile Layout.isBlank ≠ []) (hus : Line.tokens ⟨number, pre ++ post⟩ = .ok us)
    (hcut : '#' ∈ pre ∨ ∃ gap rest, post.takeWhile (· ≠ '#') = gap ++ rest ∧
      (∀ c ∈ gap, Layout.isBlank c = true) ∧
      (rest = [] ∨ ∃ u ∈ us, u.span.column = pre.length + 1 + gap.length)) :
    Line.Alike (fun s s' => s' = Span.shifted ⟨number, pre.length + 1⟩ blanks.length s) width width
      ⟨number, pre ++ post⟩ ⟨number, pre ++ (blanks ++ post)⟩ := by
  have hmargin := Line.margin_append hpre number
  have hbody := Line.body_append hpre number
  have hparts : Line.margin ⟨number, pre⟩ ++ Line.body ⟨number, pre⟩ = pre :=
    List.takeWhile_append_dropWhile
  -- the columns are counted from the margin on
  have hlength : (Line.margin ⟨number, pre⟩).length + 1 + (Line.body ⟨number, pre⟩).length =
      pre.length + 1 := by
    rw [Nat.add_right_comm, ← List.length_append, hparts]
  have hpos : 0 < (Line.body ⟨number, pre⟩).length := List.length_pos_iff.mpr hpre
  refine ⟨by rw [hmargin, hmargin], ?_, ?_⟩
  · rw [Line.start, Line.start, hmargin, hmargin, Span.shifted_of_lt]
    dsimp only
    omega
  · suffices htokens : Line.tokens ⟨number, pre ++ (blanks ++ post)⟩ =
        .ok (us.map (Token.moved (Span.shifted ⟨number, pre.length + 1⟩ blanks.length))) by
      rw [hus, htokens]
      exact alike_moved _ us
    rw [Line.tokens, hmargin, hbody] at hus ⊢
    by_cases hhash : '#' ∈ Line.body ⟨number, pre⟩
    · -- the code of the line ends before the place
      rw [takeWhile_of_comment hhash] at hus ⊢
      have hstay : us.map (Token.moved (Span.shifted ⟨number, pre.length + 1⟩ blanks.length)) =
          us := by
        refine (List.map_congr_left fun t ht => ?_).trans (List.map_id us)
        have hlt := (tokens_spans hus t ht).2.2
        have hle := (List.takeWhile_prefix (l := Line.body ⟨number, pre⟩)
          fun c => decide (c ≠ '#')).length_le
        rw [Token.moved, Span.shifted_of_lt]
        · rfl
        · dsimp only
          omega
      rw [hus, hstay]
    · obtain hmem | ⟨gap, rest, hpost, hgap, hcut⟩ := hcut
      · rw [← hparts] at hmem
        rcases List.mem_append.mp hmem with hmem | hmem
        · exact absurd (List.mem_takeWhile_imp hmem) (by decide)
        · exact absurd hmem hhash
      · have hne : ∀ c ∈ Line.body ⟨number, pre⟩, decide (c ≠ '#') = true := fun c hc => by
          rw [decide_eq_true_eq]
          rintro rfl
          exact hhash hc
        have hne' : ∀ c ∈ blanks, decide (c ≠ '#') = true := fun c hc => by
          simpa using (ne_of_isBlank (hblanks c hc)).2
        rw [List.takeWhile_append_of_pos hne, hpost] at hus
        rw [List.takeWhile_append_of_pos hne, List.takeWhile_append_of_pos hne', hpost]
        rw [← hlength] at hcut ⊢
        exact tokens_inserted number hblanks hgap (Nat.zero_le _) hus hcut

end Linewise

end Offside
