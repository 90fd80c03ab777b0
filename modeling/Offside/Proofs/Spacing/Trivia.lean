import Offside.Proofs.Spacing.OnLine

/-!
# Trivia

Blanks, comments, and lines with nothing else on them play no part in what a text means.

* `Trivia` — blanks, and a comment behind them;
* `Between` — a place between two adjacent tokens of a line;
* `Overwide` — a line of a text whose indentation is too wide for a word;
* `Linewise.readChecked_trailing`, `Linewise.readChecked_below`, `Linewise.readChecked_inserted` —
  trivia at the end of a line, trivia that is a line of its own, and blanks between two tokens;
* `Source.compile_spaced` — in each case the text has the same tokens and the same code.

A line with nothing on it is measured all the same. So blanks on such a line can do harm, though
they say nothing: if the line they are on gets too wide, there is a trap, unless there is a fault
before it (`Linewise.readFrom_before_overflow`).
-/

namespace Offside

/-- **Trivia**: blanks, and then nothing or a comment, all on one line. -/
structure Trivia (cs : List Char) : Prop where
  silent : Linewise.Silent cs
  oneLine : '\n' ∉ cs

/-- A position one line further down, if it is on a given line or below it. -/
def Span.below (s : Span) (line : Nat) : Span := if s.line < line then s else s.down 1

namespace Span

/-- Above the line nothing moves. -/
theorem below_of_lt {line : Nat} {s : Span} (h : s.line < line) : s.below line = s := if_pos h

/-- On the line and below it everything moves down. -/
theorem below_of_le {line : Nat} {s : Span} (h : line ≤ s.line) : s.below line = s.down 1 :=
  if_neg (Nat.not_lt.mpr h)

end Span

/-- **A place between two adjacent tokens of a line.** Behind the first token there is trivia up to
where the second begins, and the place is somewhere in it: `gap` is what comes before the place, and
`gap'` what comes behind it. Tokens of the layout are written nowhere, so that nothing is between
one of them and the token that follows it on its line. -/
structure Between (ts : List Token) (before gap gap' : List Char) : Prop where
  trivia : Trivia (gap ++ gap')
  adjacent : ∃ us t u vs, ts = us ++ t :: u :: vs ∧ t.span.line = u.span.line ∧
    t.span.column < (Span.behind before).column ∧ u.span = Span.behind (before ++ (gap ++ gap'))

/-- **A line that is too wide**: with some tab width, the indentation of the line with this number
takes more columns than a word can count. -/
def Overwide (tabWidth : UInt64) (text : String) (number : Nat) : Prop :=
  ∃ line ∈ Linewise.lines text.toList, line.number = number ∧
    2 ^ 64 ≤ Linewise.naturalWidth (max 1 tabWidth.toNat) line.margin

namespace Linewise

open Token

/-! ### One line among the others -/

/-- Which numbers the lines have. -/
theorem number_of_mem_numbered {first : Nat} {ls : List (List Char)} {l : Line}
    (h : l ∈ numbered first ls) : first ≤ l.number ∧ l.number < first + ls.length := by
  obtain ⟨⟨cs, number⟩, hmem, rfl⟩ := List.mem_map.mp h
  obtain ⟨hle, hlt, -⟩ := List.mem_zipIdx hmem
  exact ⟨hle, hlt⟩

section Around

variable {width : List Char → Nat} {R : Span → Span → Prop} {front back : List (List Char)}
  {cs cs' text text' : List Char}

/-- One line of a text, and those before and behind it. -/
theorem lines_around (h : text.splitOn '\n' = front ++ cs :: back) :
    lines text =
      numbered 1 front ++ ⟨front.length + 1, cs⟩ :: numbered (front.length + 2) back := by
  rw [lines, h, numbered_append, numbered_cons, Nat.add_comm 1]

/-- What comes before a line does not matter for the end of a text. -/
theorem stopAfter_around (here : Span) (ls ms : List Line) (l : Line) :
    stopAfter here (ls ++ l :: ms) = stopAfter l.stop ms := by
  unfold stopAfter
  rw [List.getLast?_append, List.getLast?_cons]
  cases ms.getLast? <;> rfl

/-- The end of some lines is the end of one of them. -/
theorem exists_stopAfter (first : Nat) {ls : List (List Char)} (h : ls ≠ []) :
    ∃ l ∈ numbered first ls, ∀ here, stopAfter here (numbered first ls) = l.stop := by
  have hne : numbered first ls ≠ [] := by simpa [numbered] using h
  have hlast := List.getLast?_eq_some_getLast hne
  refine ⟨_, List.getLast_mem hne, fun here => ?_⟩
  rw [stopAfter, hlast]
  rfl

/-- **A text in which one line is replaced.** Only this line has to be looked at, and the end of the
text if it is the last. -/
theorem readChecked_replaced (htext : text.splitOn '\n' = front ++ cs :: back)
    (htext' : text'.splitOn '\n' = front ++ cs' :: back)
    (hR : ∀ number column, number ≠ front.length + 1 → R ⟨number, column⟩ ⟨number, column⟩)
    (hline : Silent cs ∧ Silent cs' ∧
        Line.fits width ⟨front.length + 1, cs'⟩ = Line.fits width ⟨front.length + 1, cs⟩ ∨
      ¬ Silent cs ∧ ¬ Silent cs' ∧
        Line.Alike R width width ⟨front.length + 1, cs⟩ ⟨front.length + 1, cs'⟩)
    (hstop : back = [] → R (Line.stop ⟨front.length + 1, cs⟩) (Line.stop ⟨front.length + 1, cs'⟩)) :
    Alike R (readChecked width text) (readChecked width text') := by
  have hsame : ∀ first ls, (∀ l ∈ numbered first ls, l.number ≠ front.length + 1) →
      LinesAlike R width width (numbered first ls) (numbered first ls) := fun first ls hne =>
    linesAlike_refl fun l hl column => hR _ column (hne l hl)
  -- no other line has the number of the one that is replaced
  have hfront := hsame 1 front fun l hl => by
    have := number_of_mem_numbered hl
    omega
  have hback := hsame (front.length + 2) back fun l hl => by
    have := number_of_mem_numbered hl
    omega
  unfold readChecked
  rw [lines_around htext, lines_around htext']
  refine readFrom_alike (hfront.append ?_) ?_
  · -- the line itself: nothing on either, or the same tokens on both
    obtain ⟨hs, hs', hfits⟩ | ⟨hs, hs', halike⟩ := hline
    · exact .silent (isKept_eq_false.mpr hs) (isKept_eq_false.mpr hs') hfits hback
    · exact .kept (isKept_of_not_silent hs) (isKept_of_not_silent hs') halike hback
  · rw [stopAfter_around, stopAfter_around]
    cases back with
    | nil => exact hstop rfl
    | cons line back =>
      -- the text ends on a later line
      obtain ⟨l, hl, hend⟩ := exists_stopAfter (front.length + 2)
        (List.cons_ne_nil line back)
      rw [hend, hend]
      refine hR _ _ ?_
      have := number_of_mem_numbered hl
      omega

/-- **A line that is too wide** in one of two texts that begin alike: it is a trap, or the lines
before it have a fault, which is then the fault of both. -/
theorem readChecked_overwide {after : List (List Char)}
    (htext : text.splitOn '\n' = front ++ after)
    (htext' : text'.splitOn '\n' = front ++ cs' :: back)
    (hfits : Line.fits width ⟨front.length + 1, cs'⟩ = false) :
    readChecked width text' = .error (.trap .overflow) ∨
      ∃ e : LexicalError, e.span.line < front.length + 1 ∧
        readChecked width text' = .error (.fault e) ∧
        readChecked width text = .error (.fault e) := by
  unfold readChecked
  rw [lines_around htext', lines, htext, numbered_append]
  refine (readFrom_before_overflow Span.start hfits _).imp_right ?_
  rintro ⟨e, he⟩
  refine ⟨e, ?_, he _ _, he _ _⟩
  -- the lines before are alike as they are, at positions that are above the line
  have halike : Alike (fun s s' => s.line < front.length + 1)
      (readFrom width ⟨0, 1⟩ (numbered 1 front)) (readFrom width ⟨0, 1⟩ (numbered 1 front)) := by
    have habove : ∀ l ∈ numbered 1 front, l.number < front.length + 1 := fun l hl => by
      have := number_of_mem_numbered hl
      omega
    refine readFrom_alike (linesAlike_refl fun l hl _ => habove l hl) ?_
    cases hfront : front with
    | nil => exact Nat.zero_lt_one
    | cons line front' =>
      obtain ⟨l, hl, hend⟩ := exists_stopAfter 1 (List.cons_ne_nil line front')
      rw [hend, ← hfront]
      exact habove l (hfront ▸ hl)
  have hfront := he ⟨0, 1⟩ []
  rw [List.append_nil] at hfront
  rw [hfront] at halike
  cases halike with
  | fault habove => exact habove

end Around

/-! ### Trivia at the end of a line, and lines of trivia -/

section Trivia

variable {width : List Char → Nat} {trivia : List Char}

/-- Before a line feed there is an empty line. -/
theorem splitOn_newline (after : List Char) :
    ('\n' :: after).splitOn '\n' = [] :: after.splitOn '\n' := by
  rw [List.splitOn_cons_eq_if_modifyHead, if_pos (beq_self_eq_true _)]

/-- The line that ends at some place, with whatever is put there. -/
theorem splitOn_ending (before after : List Char) :
    ∃ front pre, (Span.behind before).line = front.length + 1 ∧
      (Span.behind before).column = pre.length + 1 ∧ ∀ mid, '\n' ∉ mid →
        (before ++ (mid ++ '\n' :: after)).splitOn '\n' =
          front ++ (pre ++ mid) :: after.splitOn '\n' := by
  obtain ⟨front, pre, hbehind, hlines⟩ := splitOn_around before
  refine ⟨front, pre, by rw [hbehind], by rw [hbehind], fun mid hmid => ?_⟩
  rw [hlines mid _ _ _ hmid (splitOn_newline after), List.append_nil]

/-- **Trivia at the end of a line** changes nothing, if the line is still as narrow as a word
demands, or was too wide before. -/
theorem readChecked_trailing {front back : List (List Char)} {pre text text' : List Char}
    (h : Silent trivia) (hback : back ≠ []) (htext : text.splitOn '\n' = front ++ pre :: back)
    (htext' : text'.splitOn '\n' = front ++ (pre ++ trivia) :: back)
    (hfits : Line.fits width ⟨front.length + 1, pre ++ trivia⟩ =
      Line.fits width ⟨front.length + 1, pre⟩) :
    readChecked width text' = readChecked width text := by
  have halike : Alike (fun s s' => s' = id s) (readChecked width text)
      (readChecked width text') := by
    refine readChecked_replaced htext htext' (fun _ _ _ => rfl) ?_ fun hnil => absurd hnil hback
    -- trivia behind nothing is nothing, and behind something it is not read
    by_cases hs : Silent pre
    · exact .inl ⟨hs, silent_append hs h, hfits⟩
    · refine .inr ⟨hs, ?_, Line.alike_trailing _ hs h⟩
      rwa [silent_append_iff (body_ne_nil hs)]
  rw [halike.eq_movedTokens, movedTokens_id]

/-- Behind the indentation of a line, trivia adds to it no more than its own blanks. -/
theorem Line.margin_trailing (number : Nat) (pre trivia : List Char) :
    ∃ more, (more = [] ∨ more = trivia.takeWhile Layout.isBlank) ∧
      Line.margin ⟨number, pre ++ trivia⟩ = Line.margin ⟨number, pre⟩ ++ more := by
  unfold Line.margin
  rw [List.takeWhile_append]
  split_ifs with hall
  · rw [(List.takeWhile_prefix Layout.isBlank).eq_of_length hall]
    exact ⟨_, .inr rfl, rfl⟩
  · exact ⟨[], .inl rfl, (List.append_nil _).symm⟩

/-- An indentation that goes on is not narrower. -/
theorem naturalWidth_le_append {tab : Nat} (htab : 0 < tab) (margin more : List Char) :
    naturalWidth tab margin ≤ naturalWidth tab (margin ++ more) := by
  unfold naturalWidth
  rw [List.foldl_append]
  exact le_foldl_widen htab _ more

/-- **A line of trivia** moves all that comes behind it down by one line. -/
theorem readChecked_below {front back : List (List Char)} {text text' : List Char}
    (h : Silent trivia) (hback : back ≠ []) (htext : text.splitOn '\n' = front ++ back)
    (htext' : text'.splitOn '\n' = front ++ trivia :: back)
    (hfits : Line.fits width ⟨front.length + 1, trivia⟩ = true) :
    readChecked width text' =
      movedTokens (·.below (front.length + 1)) (readChecked width text) := by
  refine Alike.eq_movedTokens ?_
  have hsource : lines text = numbered 1 front ++ numbered (front.length + 1) back := by
    rw [lines, htext, numbered_append, Nat.add_comm 1]
  have hedited : lines text' = numbered 1 front ++ ⟨front.length + 1, trivia⟩ ::
      (numbered (front.length + 1) back).map (Line.down 1) := by
    rw [lines_around htext', ← numbered_down]
  have hne : numbered (front.length + 1) back ≠ [] := by simpa [numbered] using hback
  unfold readChecked
  rw [hsource, hedited]
  refine readFrom_alike (.append ?_ (.added (isKept_eq_false.mpr h) hfits ?_)) ?_
  · -- the lines above stay where they are
    refine linesAlike_refl fun l hl column => ?_
    have hnumber := number_of_mem_numbered hl
    exact (Span.below_of_lt (by dsimp only; omega)).symm
  · -- those behind have the same characters, one line further down
    refine linesAlike_map (Line.down 1) (fun _ _ => rfl) fun l hl =>
      Line.alike_down fun column => ?_
    have hbelow := @Span.below_of_le (front.length + 1) ⟨l.number, column⟩
      (number_of_mem_numbered hl).1
    exact hbelow.symm
  · -- the end of the text is that of its last line, which is behind the new one
    obtain ⟨l, hl, hend⟩ := exists_stopAfter (front.length + 1) hback
    have hsame : (numbered (front.length + 1) back).map (Line.down 0) =
        numbered (front.length + 1) back := List.map_id _
    have hstop := stopAfter_append hne (numbered 1 front) 0 Span.start
    have hstop' := stopAfter_append hne [] 1 (Line.stop ⟨front.length + 1, trivia⟩)
    rw [hsame, hend] at hstop
    rw [List.nil_append, hend] at hstop'
    rw [hstop, stopAfter_around, hstop']
    exact (Span.below_of_le (number_of_mem_numbered hl).1).symm

end Trivia

/-! ### Blanks between two tokens -/

section Between

variable {width : List Char → Nat} {stop : Span}

/-- Where a token of some lines stands: on one of them, before the first lexeme of one, or at the
end. -/
def Stands (stop : Span) (ls : List Line) (t : Token) : Prop :=
  t.span = stop ∨ ∃ l ∈ ls, t.span = l.start ∨ ∃ us, l.tokens = .ok us ∧ t ∈ us

/-- More lines around change nothing. -/
theorem Stands.mono {ls ms : List Line} {t : Token} (h : Stands stop ls t) (hsub : ls ⊆ ms) :
    Stands stop ms t :=
  h.imp_right fun ⟨l, hl, hstands⟩ => ⟨l, hsub hl, hstands⟩

/-- Each token of some lines stands somewhere: the layout at the start of a line, the others on it,
and those that close the last blocks at the end. -/
theorem readLines_stands {levels : List Nat} {ls : List Line} {ts : List Token}
    (h : readLines width stop levels ls = .ok ts) :
    (∀ l ∈ ls, ∃ us, l.tokens = .ok us) ∧ ∀ t ∈ ts, Stands stop ls t := by
  induction ls generalizing levels ts with
  | nil =>
    cases h
    refine ⟨List.forall_mem_nil _, fun t ht => .inl ?_⟩
    exact congrArg Token.span (List.eq_of_mem_replicate ht)
  | cons l ls ih =>
    obtain ⟨layout, levels', us, more, hlayout, hus, hmore, rfl⟩ := readLines_cons_eq_ok.mp h
    obtain ⟨hlines, hstands⟩ := ih hmore
    refine ⟨List.forall_mem_cons.mpr ⟨⟨us, hus⟩, hlines⟩, fun t ht => ?_⟩
    rw [List.mem_append, List.mem_append] at ht
    obtain (ht | ht) | ht := ht
    · -- a token of the layout is written down at the start of its line
      obtain herror | ⟨kinds, _, hok⟩ := layOut_cases levels (width l.margin)
      · rw [herror] at hlayout
        cases hlayout
      · rw [hok] at hlayout
        cases hlayout
        obtain ⟨kind, -, rfl⟩ := List.mem_map.mp ht
        exact .inr ⟨l, List.mem_cons_self, .inl rfl⟩
    · exact .inr ⟨l, List.mem_cons_self, .inr ⟨us, hus, ht⟩⟩
    · exact (hstands t ht).mono (List.subset_cons_self l ls)

/-- The same from the first line on. -/
theorem readFirst_stands {ls : List Line} {ts : List Token}
    (h : readFirst width stop ls = .ok ts) :
    (∀ l ∈ ls, ∃ us, l.tokens = .ok us) ∧ ∀ t ∈ ts, Stands stop ls t := by
  cases ls with
  | nil =>
    cases h
    exact ⟨List.forall_mem_nil _, List.forall_mem_nil _⟩
  | cons l ls =>
    obtain ⟨-, us, more, hus, hmore, rfl⟩ := readFirst_cons_eq_ok.mp h
    obtain ⟨hlines, hstands⟩ := readLines_stands hmore
    refine ⟨List.forall_mem_cons.mpr ⟨⟨us, hus⟩, hlines⟩, fun t ht => ?_⟩
    -- a token of the first line, or one of the others
    rcases List.mem_append.mp ht with ht | ht
    · exact .inr ⟨l, List.mem_cons_self, .inr ⟨us, hus, ht⟩⟩
    · exact (hstands t ht).mono (List.subset_cons_self l ls)

/-- **The tokens on a line of a text**, by their positions. -/
theorem stands_on_line {front back : List (List Char)} {cs text : List Char} {ts : List Token}
    (htext : text.splitOn '\n' = front ++ cs :: back) (h : read width text = .ok ts) {t : Token}
    (ht : t ∈ ts) (hline : t.span.line = front.length + 1) :
    t.span = Line.stop ⟨front.length + 1, cs⟩ ∨ ¬ Silent cs ∧
      ∃ us, Line.tokens ⟨front.length + 1, cs⟩ = .ok us ∧
        (t.span = Line.start ⟨front.length + 1, cs⟩ ∨ t ∈ us) := by
  unfold read at h
  rw [lines_around htext, stopAfter_around] at h
  obtain ⟨hlines, hstands⟩ := readFirst_stands h
  obtain hstop | ⟨l, hl, hl'⟩ := hstands t ht
  · -- the text ends on this line, so it is the last
    cases back with
    | nil => exact .inl hstop
    | cons line back =>
      obtain ⟨l, hl, hend⟩ := exists_stopAfter (front.length + 2) (List.cons_ne_nil line back)
      have hnumber := number_of_mem_numbered hl
      rw [hend] at hstop
      rw [hstop] at hline
      have : l.number = front.length + 1 := hline
      omega
  · obtain ⟨us, hus⟩ := hlines l hl
    -- a token stands on the line that it is read from
    have hnumber : l.number = front.length + 1 := by
      obtain hstart | ⟨vs, hvs, hmem⟩ := hl'
      · rw [hstart] at hline
        exact hline
      · rw [(tokens_spans hvs t hmem).1] at hline
        exact hline
    obtain ⟨hl, hkept⟩ := List.mem_filter.mp hl
    obtain rfl : l = ⟨front.length + 1, cs⟩ := by
      -- numbers tell the lines apart
      rcases List.mem_append.mp hl with hl | hl
      · have := number_of_mem_numbered hl
        omega
      · rcases List.mem_cons.mp hl with rfl | hl
        · rfl
        · have := number_of_mem_numbered hl
          omega
    refine .inr ⟨fun hs => ?_, us, hus, hl'.imp_right fun ⟨vs, hvs, hmem⟩ => ?_⟩
    · rw [isKept_eq_false.mpr hs] at hkept
      cases hkept
    · rw [hus] at hvs
      cases hvs
      exact hmem

/-- Behind a part without a comment, the rest of some trivia is trivia. -/
theorem silent_of_append {gap gap' : List Char} (h : Silent (gap ++ gap')) (hgap : '#' ∉ gap) :
    Silent gap' := by
  unfold Silent at h
  rw [List.dropWhile_append] at h
  split at h
  · exact h
  · next hne =>
    -- the first character that is not blank would have to begin a comment
    cases hbody : gap.dropWhile Layout.isBlank with
    | nil => simp [hbody] at hne
    | cons c rest =>
      rw [hbody] at h
      obtain rfl : c = '#' := by simpa using h
      exact absurd ((List.dropWhile_suffix _).subset (hbody ▸ List.mem_cons_self)) hgap

/-- A place behind the first lexeme of a line. -/
theorem body_ne_nil_of_margin (number : Nat) {pre : List Char} (post : List Char)
    (h : (Line.margin ⟨number, pre ++ post⟩).length < pre.length) :
    pre.dropWhile Layout.isBlank ≠ [] := by
  intro hnil
  have hall : ∀ c ∈ pre, Layout.isBlank c = true := by simpa using hnil
  rw [Line.margin, List.takeWhile_append_of_pos hall, List.length_append] at h
  omega

/-- Blanks in trivia that follows a lexeme of a line: behind it the line ends, or a token begins. -/
theorem Line.alike_of_gap (number : Nat) {pre gap post blanks : List Char} {us : List Token}
    (hblanks : ∀ c ∈ blanks, Layout.isBlank c = true) (hgap : '#' ∈ pre ∨ Silent gap)
    (hpre : pre.dropWhile Layout.isBlank ≠ [])
    (hus : Line.tokens ⟨number, pre ++ (gap ++ post)⟩ = .ok us)
    (hnext : post = [] ∨ ∃ u ∈ us, u.span.column = pre.length + 1 + gap.length) :
    Line.Alike (fun s s' => s' = Span.shifted ⟨number, pre.length + 1⟩ blanks.length s) width width
      ⟨number, pre ++ (gap ++ post)⟩ ⟨number, pre ++ (blanks ++ (gap ++ post))⟩ := by
  refine Line.alike_inserted number hblanks hpre hus (hgap.imp_right fun hsilent => ?_)
  obtain ⟨spaces, rest, rfl, hspaces, hrest⟩ := silent_cases hsilent
  have hne : ∀ c ∈ spaces, decide (c ≠ '#') = true := fun c hc => by
    simpa using (ne_of_isBlank (hspaces c hc)).2
  -- behind the blanks of the trivia the code ends, or the next token begins
  rw [List.append_assoc, List.takeWhile_append_of_pos hne]
  refine ⟨spaces, _, rfl, hspaces, ?_⟩
  rcases hrest with rfl | ⟨comment, rfl⟩
  · rw [List.append_nil] at hnext
    rcases hnext with rfl | hnext
    · exact .inl rfl
    · exact .inr hnext
  · exact .inl (List.takeWhile_cons_of_neg (by simp))

/-- The end of a line moves with the blanks. -/
theorem Line.stop_inserted (number : Nat) (pre post blanks : List Char) :
    Line.stop ⟨number, pre ++ (blanks ++ post)⟩ =
      Span.shifted ⟨number, pre.length + 1⟩ blanks.length (Line.stop ⟨number, pre ++ post⟩) := by
  have hright := @Span.shifted_of_le ⟨number, pre.length + 1⟩ (Line.stop ⟨number, pre ++ post⟩)
    blanks.length rfl (by simp [Line.stop])
  rw [hright]
  simp only [Line.stop, Span.right, List.length_append, Span.mk.injEq, true_and]
  omega

/-- **A place between two tokens of a line**, found by their positions. The first shows that the
place is behind the first lexeme of the line, and the second that no lexeme is cut in two there. -/
theorem place_on_line {front back : List (List Char)} {pre gap post text : List Char}
    {ts : List Token} (htext : text.splitOn '\n' = front ++ (pre ++ (gap ++ post)) :: back)
    (h : read width text = .ok ts) {t u : Token} (ht : t ∈ ts) (hu : u ∈ ts)
    (hline : t.span.line = front.length + 1) (hfirst : t.span.column < pre.length + 1)
    (hsecond : u.span = ⟨front.length + 1, pre.length + 1 + gap.length⟩) :
    ¬ Silent (pre ++ (gap ++ post)) ∧ pre.dropWhile Layout.isBlank ≠ [] ∧
      ∃ us, Line.tokens ⟨front.length + 1, pre ++ (gap ++ post)⟩ = .ok us ∧
        (post = [] ∨ ∃ u ∈ us, u.span.column = pre.length + 1 + gap.length) := by
  -- the first token is not the end of the text, as it is before the place
  obtain hstop | ⟨hs, us, hus, hstands⟩ := stands_on_line htext h ht hline
  · rw [hstop, Line.stop, List.length_append] at hfirst
    dsimp only at hfirst
    omega
  -- no token begins before the first lexeme
  have hmargin : (Line.margin ⟨front.length + 1, pre ++ (gap ++ post)⟩).length + 1 ≤
      t.span.column := by
    rcases hstands with hstands | hstands
    · exact (congrArg Span.column hstands).ge
    · exact (tokens_spans hus t hstands).2.1
  refine ⟨hs, body_ne_nil_of_margin (front.length + 1) (gap ++ post) (by omega), us, hus, ?_⟩
  obtain hstop | ⟨-, us', hus', hstands⟩ := stands_on_line htext h hu (by rw [hsecond])
  · -- the text ends where the second token is, so nothing is left of the line
    have hcolumn := congrArg Span.column (hsecond.symm.trans hstop)
    simp only [Line.stop, List.length_append] at hcolumn
    exact .inl (List.eq_nil_of_length_eq_zero (by omega))
  · rw [hus] at hus'
    cases hus'
    rcases hstands with hstands | hstands
    · have hcolumn := congrArg Span.column (hsecond.symm.trans hstands)
      dsimp only [Line.start] at hcolumn
      omega
    · exact .inr ⟨u, hstands, congrArg Span.column hsecond⟩

/-- **Blanks between two tokens** move what comes behind them on the line, and nothing else. They
are behind the indentation of the line, so no width changes. -/
theorem readChecked_inserted {before gap gap' after blanks : List Char} {ts : List Token}
    (hblanks : ∀ c ∈ blanks, Layout.isBlank c = true)
    (h : readChecked width (before ++ ((gap ++ gap') ++ after)) = .ok ts)
    (hplace : Between ts before gap gap') :
    readChecked width (before ++ ((gap ++ (blanks ++ gap')) ++ after)) =
      .ok (ts.map (Token.moved (Span.shifted (Span.behind (before ++ gap)) blanks.length))) := by
  obtain ⟨us, t, u, vs, rfl, hsame, ht, hu⟩ := hplace.adjacent
  have hgaps := hplace.trivia.oneLine
  have hbreak : '\n' ∉ gap ++ (blanks ++ gap') := by
    have hblank : '\n' ∉ blanks := fun hmem => absurd (hblanks _ hmem) (by decide)
    simp only [List.mem_append, not_or] at hgaps ⊢
    exact ⟨hgaps.1, hblank, hgaps.2⟩
  -- the line around the place, cut there
  obtain ⟨front, pre, hbehind, hlines⟩ := splitOn_around before
  obtain ⟨post, back, hafter, -, -⟩ := splitOn_cases after
  have hline := hlines _ after post back hgaps hafter
  have hline' := hlines _ after post back hbreak hafter
  have hcut : pre ++ (gap ++ gap' ++ post) = (pre ++ gap) ++ (gap' ++ post) := by simp
  have hcut' : pre ++ (gap ++ (blanks ++ gap') ++ post) =
      (pre ++ gap) ++ (blanks ++ (gap' ++ post)) := by simp
  have hlength : (pre ++ gap).length = pre.length + gap.length := List.length_append
  -- the place of the blanks, and then that of the next token
  have hhere : Span.behind (before ++ gap) = ⟨front.length + 1, (pre ++ gap).length + 1⟩ := by
    rw [behind_append before fun hmem => hgaps (List.mem_append_left _ hmem), hbehind, hlength,
      Nat.add_right_comm]
    rfl
  have hnext : u.span = ⟨front.length + 1, (pre ++ gap).length + 1 + gap'.length⟩ := by
    rw [hu, ← List.append_assoc, behind_append _ fun hmem => hgaps (List.mem_append_right _ hmem),
      hhere]
    rfl
  rw [hcut] at hline
  rw [hcut'] at hline'
  rw [hbehind] at ht
  dsimp only at ht
  have hread := (readChecked_eq_ok_iff.mp h).2
  obtain ⟨hs, hpre, us, hus, hend⟩ := place_on_line hline hread (t := t) (u := u) (by simp)
    (by simp) (hsame.trans (by rw [hnext])) (by omega) hnext
  -- the place is in a comment, or what follows it up to the next token is trivia
  have hgap' : '#' ∈ pre ++ gap ∨ Silent gap' := by
    by_cases hhash : '#' ∈ gap
    · exact .inl (List.mem_append_right pre hhash)
    · exact .inr (silent_of_append hplace.trivia.silent hhash)
  rw [hhere]
  refine Eq.trans (Alike.eq_movedTokens ?_) (congrArg (movedTokens _) h)
  refine readChecked_replaced hline hline' (fun number column hne => ?_) (.inr ⟨hs, ?_, ?_⟩)
    fun _ => ?_
  · exact (Span.shifted_of_ne _ hne).symm
  · rw [silent_append_iff hpre] at hs ⊢
    exact hs
  · exact Line.alike_of_gap _ hblanks hgap' hpre hus hend
  · exact Line.stop_inserted _ (pre ++ gap) (gap' ++ post) blanks

end Between

end Linewise

/-! ### Texts -/

/-- The same text with a carriage return before each line feed. -/
def carriageReturned (text : List Char) : List Char :=
  text.flatMap fun c => if c = '\n' then ['\r', '\n'] else [c]

/-- A carriage return takes no room. -/
theorem Linewise.readChecked_carriageReturned (tab : Nat) (before text : List Char) :
    Linewise.readChecked (Linewise.naturalWidth tab) (before ++ carriageReturned text) =
      Linewise.readChecked (Linewise.naturalWidth tab) (before ++ text) := by
  induction text generalizing before with
  | nil => rfl
  | cons c text ih =>
    by_cases hc : c = '\n'
    · have hmore := ih (before ++ ['\r', '\n'])
      rw [List.append_assoc, List.append_assoc] at hmore
      obtain ⟨front, pre, -, -, hlines⟩ := splitOn_ending before text
      have hplain := hlines [] List.not_mem_nil
      rw [List.append_nil, List.nil_append] at hplain
      -- a carriage return at the end of a line may belong to its indentation, but adds nothing to
      -- it
      obtain ⟨more, hmore', hmargin⟩ := Line.margin_trailing (front.length + 1) pre ['\r']
      have hwidth : naturalWidth tab (Line.margin ⟨front.length + 1, pre ++ ['\r']⟩) =
          naturalWidth tab (Line.margin ⟨front.length + 1, pre⟩) := by
        rw [hmargin, naturalWidth, List.foldl_append]
        rcases hmore' with rfl | rfl <;> rfl
      rw [hc]
      have hreturn : Silent ['\r'] := rfl
      refine hmore.trans (readChecked_trailing hreturn (List.splitOn_ne_nil _ _) hplain
        (hlines ['\r'] (by decide)) ?_)
      rw [Line.fits, Line.fits, hwidth]
    · have hmore := ih (before ++ [c])
      rw [List.append_assoc, List.append_assoc] at hmore
      rw [carriageReturned, List.flatMap_cons, if_neg hc]
      exact hmore

/-- **Trivia at the end of a line**: nothing changes, or the line is too wide now. -/
theorem Linewise.tokenize_trailing (tabWidth : UInt64) (before after : String) {trivia : String}
    (h : Trivia trivia.toList) :
    tokenize tabWidth (before ++ trivia ++ "\n" ++ after) =
        tokenize tabWidth (before ++ "\n" ++ after) ∨
      Overwide tabWidth (before ++ trivia ++ "\n" ++ after) (Span.behind before.toList).line ∧
        tokenize tabWidth (before ++ trivia ++ "\n" ++ after) = .error (.trap .overflow) := by
  have hnewline : "\n".toList = ['\n'] := by decide
  unfold Overwide
  simp only [tokenize_eq_readChecked, String.toList_append, hnewline, List.append_assoc,
    List.singleton_append]
  obtain ⟨front, pre, hnumber, -, hlines⟩ := splitOn_ending before.toList after.toList
  have hplain := hlines [] List.not_mem_nil
  rw [List.append_nil, List.nil_append] at hplain
  have hedited := hlines trivia.toList h.oneLine
  cases hfits : Line.fits (naturalWidth (max 1 tabWidth.toNat))
      ⟨front.length + 1, pre ++ trivia.toList⟩ with
  | true =>
    -- the line was not wider before
    left
    refine readChecked_trailing h.silent (List.splitOn_ne_nil _ _) hplain hedited (hfits.trans ?_)
    obtain ⟨more, -, hmargin⟩ := Line.margin_trailing (front.length + 1) pre trivia.toList
    have hle := @naturalWidth_le_append (max 1 tabWidth.toNat) (by omega)
      (Line.margin ⟨front.length + 1, pre⟩) more
    rw [← hmargin] at hle
    exact (fits_eq_true.mpr (hle.trans_lt (fits_eq_true.mp hfits))).symm
  | false =>
    rcases readChecked_overwide hplain hedited hfits with htrap | ⟨e, -, hfault, hfault'⟩
    · refine .inr ⟨⟨_, ?_, hnumber.symm, fits_eq_false.mp hfits⟩, htrap⟩
      rw [lines_around hedited]
      simp
    · exact .inl (hfault.trans hfault'.symm)

/-- **A line of trivia**: what comes behind it is moved down, or the line is too wide. -/
theorem Linewise.tokenize_below (tabWidth : UInt64) {before : String} (after : String)
    {trivia : String} (hbefore : before = "" ∨ ∃ text, before = text ++ "\n")
    (h : Trivia trivia.toList) :
    tokenize tabWidth (before ++ trivia ++ "\n" ++ after) =
        movedTokens (·.below (Span.behind before.toList).line)
          (tokenize tabWidth (before ++ after)) ∨
      Overwide tabWidth (before ++ trivia ++ "\n" ++ after) (Span.behind before.toList).line ∧
        tokenize tabWidth (before ++ trivia ++ "\n" ++ after) = .error (.trap .overflow) := by
  have hnewline : "\n".toList = ['\n'] := by decide
  have hcolumn : (Span.behind before.toList).column = 1 := by
    rcases hbefore with rfl | ⟨text, rfl⟩
    · rfl
    · simp [Span.behind, hnewline]
  unfold Overwide
  simp only [tokenize_eq_readChecked, String.toList_append, hnewline, List.append_assoc,
    List.singleton_append]
  obtain ⟨front, pre, hbehind, hlines⟩ := splitOn_around before.toList
  rw [hbehind] at hcolumn ⊢
  -- the text before ends a line, so the new line begins at the first column
  obtain rfl : pre = [] := List.eq_nil_of_length_eq_zero (Nat.succ.inj hcolumn)
  obtain ⟨post, back, hafter, -, -⟩ := splitOn_cases after.toList
  have hplain := hlines [] after.toList post back List.not_mem_nil hafter
  have hedited := hlines trivia.toList _ _ _ h.oneLine (splitOn_newline after.toList)
  rw [List.nil_append, List.nil_append, List.nil_append] at hplain
  rw [List.append_nil, List.nil_append, hafter] at hedited
  cases hfits : Line.fits (naturalWidth (max 1 tabWidth.toNat))
      ⟨front.length + 1, trivia.toList⟩ with
  | true => exact .inl (readChecked_below h.silent (List.cons_ne_nil _ _) hplain hedited hfits)
  | false =>
    rcases readChecked_overwide hplain hedited hfits with htrap | ⟨e, habove, hfault, hfault'⟩
    · refine .inr ⟨⟨_, ?_, rfl, fits_eq_false.mp hfits⟩, htrap⟩
      rw [lines_around hedited]
      simp
    · -- a fault above the line stays where it is
      left
      have hstays : LexicalError.moved (·.below (front.length + 1)) e = e := by
        rw [LexicalError.moved, Span.below_of_lt habove]
      rw [hfault, hfault']
      exact congrArg (Except.error ∘ Halt.fault) hstays.symm

namespace Source

/-- **A text is given up at a line**: the indentation of that line is too wide, and the lexer traps
on it, and with it whatever needs the tokens. -/
structure TrapsAt (s : Settings) (text : String) (number : Nat) : Prop where
  overwide : Overwide s.tabWidth text number
  tokens : tokenize s.tabWidth text = .error (.trap .overflow)
  code : s.validate = .ok () → compile s text = .error (.trap .overflow)

/-- Where the tokens trap, so does the code, as nothing is done before them. -/
theorem trapsAt {s : Settings} {text : String} {number : Nat}
    (h : Overwide s.tabWidth text number ∧ tokenize s.tabWidth text = .error (.trap .overflow)) :
    TrapsAt s text number := by
  refine ⟨h.1, h.2, fun hs => ?_⟩
  rw [compile_eq hs, h.2]
  rfl

/-- **Trivia never matters**, as long as no line gets too wide by it. Under any settings, and for
every text:

* blanks and a comment before a line feed change nothing; if there are so many blanks that the
  line they end is too wide for a word, the lexer may trap there instead;
* it makes no difference whether lines end with a carriage return;
* a line of blanks and a comment, put before any line, moves all positions on that line and below it
  down by one line; and again the lexer may trap there if the new line is too wide;
* blanks between two adjacent tokens of a line move the positions behind them on that line to the
  right, if there is neither a lexical fault nor a trap in the text.

In each case the kinds and the values of the tokens stay what they are, or the fault does, and the
code is the same. -/
theorem compile_spaced (s : Settings) :
    (∀ before trivia after : String, Trivia trivia.toList →
      tokenize s.tabWidth (before ++ trivia ++ "\n" ++ after) =
          tokenize s.tabWidth (before ++ "\n" ++ after) ∧
        compile s (before ++ trivia ++ "\n" ++ after) = compile s (before ++ "\n" ++ after) ∨
      TrapsAt s (before ++ trivia ++ "\n" ++ after) (Span.behind before.toList).line) ∧
    (∀ text : String,
      tokenize s.tabWidth (String.ofList (carriageReturned text.toList)) =
          tokenize s.tabWidth text ∧
        compile s (String.ofList (carriageReturned text.toList)) = compile s text) ∧
    (∀ before trivia after : String, (before = "" ∨ ∃ text, before = text ++ "\n") →
      Trivia trivia.toList →
      tokenize s.tabWidth (before ++ trivia ++ "\n" ++ after) =
          movedTokens (·.below (Span.behind before.toList).line)
            (tokenize s.tabWidth (before ++ after)) ∧
        compile s (before ++ trivia ++ "\n" ++ after) =
          (compile s (before ++ after)).mapError
            (Halt.map (Fault.moved (·.below (Span.behind before.toList).line))) ∨
      TrapsAt s (before ++ trivia ++ "\n" ++ after) (Span.behind before.toList).line) ∧
    ∀ (before gap blanks gap' after : String) (ts : List Token),
      (∀ c ∈ blanks.toList, Layout.isBlank c = true) →
      tokenize s.tabWidth (before ++ gap ++ gap' ++ after) = .ok ts →
      Between ts before.toList gap.toList gap'.toList →
      tokenize s.tabWidth (before ++ gap ++ blanks ++ gap' ++ after) =
          .ok (ts.map (Token.moved
            ((Span.behind (before ++ gap).toList).shifted blanks.toList.length))) ∧
        compile s (before ++ gap ++ blanks ++ gap' ++ after) =
          (compile s (before ++ gap ++ gap' ++ after)).mapError
            (Halt.map (Fault.moved
              ((Span.behind (before ++ gap).toList).shifted blanks.toList.length))) := by
  refine ⟨fun before trivia after h => ?_, fun text => ?_, fun before trivia after hbefore h => ?_,
    fun before gap blanks gap' after ts hblanks hts hplace => ?_⟩
  · refine (Linewise.tokenize_trailing s.tabWidth before after h).imp (fun htokens => ?_) trapsAt
    exact ⟨htokens, compile_congr htokens⟩
  · -- each part is stated for the tokens first, and what is compiled follows from them
    have htokens : tokenize s.tabWidth (String.ofList (carriageReturned text.toList)) =
        tokenize s.tabWidth text := by
      rw [Linewise.tokenize_eq_readChecked, Linewise.tokenize_eq_readChecked, String.toList_ofList]
      exact Linewise.readChecked_carriageReturned _ [] text.toList
    exact ⟨htokens, compile_congr htokens⟩
  · refine (Linewise.tokenize_below s.tabWidth after hbefore h).imp (fun htokens => ?_) trapsAt
    exact ⟨htokens, compile_moved htokens⟩
  · have htokens : tokenize s.tabWidth (before ++ gap ++ blanks ++ gap' ++ after) =
        .ok (ts.map (Token.moved
          ((Span.behind (before ++ gap).toList).shifted blanks.toList.length))) := by
      rw [Linewise.tokenize_eq_readChecked] at hts ⊢
      simp only [String.toList_append, List.append_assoc] at hts ⊢
      rw [← List.append_assoc gap.toList] at hts
      have hplaced := Linewise.readChecked_inserted hblanks hts hplace
      simpa only [List.append_assoc] using hplaced
    refine ⟨htokens, compile_moved ?_⟩
    rw [htokens, hts]
    rfl

/-- The tokens of a branch with one statement. -/
def branchTokens : List Token :=
  [.plain .ifWord ⟨1, 1⟩, ⟨.identifier, some (.name "a"), ⟨1, 4⟩⟩, .plain .colon ⟨1, 5⟩,
    .plain .indent ⟨2, 3⟩, ⟨.identifier, some (.name "b"), ⟨2, 3⟩⟩, .plain .assign ⟨2, 5⟩,
    ⟨.intLiteral, some (.int (-1)), ⟨2, 6⟩⟩, .plain .dedent ⟨2, 8⟩]

/-- A comment behind the first line, a line with a comment before the second, and blanks between an
operator and the negative number that follows it at once. -/
theorem compile_branchText :
    Trivia "\t# é".toList ∧
    tokenize 8 ("if a:" ++ "\t# é" ++ "\n" ++ "  b =-1") = .ok branchTokens ∧
    tokenize 8 ("if a:\n" ++ "\t# é" ++ "\n" ++ "  b =-1") =
      .ok (branchTokens.map (Token.moved (·.below 2))) ∧
    Between branchTokens "if a:\n  b =".toList "".toList "".toList ∧
    tokenize 8 ("if a:\n  b =" ++ "" ++ " \x0c" ++ "" ++ "-1") =
      .ok (branchTokens.map (Token.moved (Span.shifted ⟨2, 6⟩ 2))) := by
  have htokens : tokenize 8 "if a:\n  b =-1" = .ok branchTokens := by decide +kernel
  have htrivia : Trivia "\t# é".toList :=
    ⟨by unfold Linewise.Silent; decide +kernel, by decide +kernel⟩
  -- the place lies between the sign and the number
  have hplace : Between branchTokens "if a:\n  b =".toList "".toList "".toList :=
    ⟨⟨rfl, by decide⟩, branchTokens.take 5, .plain .assign ⟨2, 5⟩,
      ⟨.intLiteral, some (.int (-1)), ⟨2, 6⟩⟩, [.plain .dedent ⟨2, 8⟩], rfl, rfl,
      by decide +kernel, by decide +kernel⟩
  obtain ⟨htrailing, -, hbelow, hinserted⟩ := compile_spaced Settings.standard
  refine ⟨htrivia, ?_, ?_, hplace, ?_⟩
  · rcases htrailing "if a:" "\t# é" "  b =-1" htrivia with hsame | htraps
    · exact hsame.1.trans htokens
    · exact absurd htraps.overwide (by unfold Overwide; decide +kernel)
  · rcases hbelow "if a:\n" "\t# é" "  b =-1" (.inr ⟨"if a:", rfl⟩) htrivia with hmoved | htraps
    · exact hmoved.1.trans (congrArg (movedTokens _) htokens)
    · exact absurd htraps.overwide (by unfold Overwide; decide +kernel)
  · have hblanks : " \x0c".toList.all Layout.isBlank = true := by decide +kernel
    exact (hinserted "if a:\n  b =" "" " \x0c" "" "-1" branchTokens (List.all_eq_true.mp hblanks)
      htokens hplace).1

/-- Two tabs on a line of their own, each of which is half as wide as all words: the text has tokens
without them. -/
theorem tokenize_overwideTrivia :
    Trivia "\t\t".toList ∧
    tokenize 9223372036854775808 ("x\n" ++ "\t\t" ++ "\n" ++ "y") = .error (.trap .overflow) ∧
    tokenize 9223372036854775808 ("x\n" ++ "\n" ++ "y") =
      .ok [⟨.identifier, some (.name "x"), ⟨1, 1⟩⟩, .plain .newline ⟨3, 1⟩,
        ⟨.identifier, some (.name "y"), ⟨3, 1⟩⟩] := by
  refine ⟨⟨by unfold Linewise.Silent; decide +kernel, by decide +kernel⟩, ?_, ?_⟩
  · decide +kernel
  · decide +kernel

end Source

end Offside
