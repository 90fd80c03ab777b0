import Offside.Proofs.Linewise.Agreement
import Offside.Proofs.RoundTrip.Spelled

/-!
# From the text of a program to its words

The lines of a canonical text are its rows. Each is read by itself, since it is spelled with the
words of its clause, and the depth of the rows gives the layout: the widths that are open at a row
are the multiples of the indentation step up to its depth (`levels`), so that a row one step deeper
opens a block, and a row that is less deep closes as many as it is less deep (`layOut_levels`).

The main statement is `tokenize_sourceText`: the tokens of a canonical text are the words of the
program.
-/

namespace Offside

open Token Linewise

/-! ### Rows as lines -/

namespace Row

/-- The characters of a row, without the end of the line. -/
def chars (step : Nat) (r : Row) : List Char :=
  List.replicate (step * r.depth) ' ' ++ r.clause.text.toList

section Line

variable {r : Row} (step number : Nat)

/-- A row is a line with spaces at its beginning and its clause behind them. -/
theorem margin_body (hr : r.clause.WellFormed) :
    Line.margin ⟨number, r.chars step⟩ = List.replicate (step * r.depth) ' ' ∧
      Line.body ⟨number, r.chars step⟩ = r.clause.text.toList := by
  have hspaces : ∀ c ∈ List.replicate (step * r.depth) ' ', Layout.isBlank c = true := by
    intro c hc
    rw [List.eq_of_mem_replicate hc]
    decide
  have hstart := Clause.isWordStart_head hr
  unfold Line.margin Line.body chars
  dsimp only
  rw [List.takeWhile_append_of_pos hspaces, List.dropWhile_append_of_pos hspaces]
  -- the clause begins with no blank, so the spaces are all the blanks there are
  cases htext : r.clause.text.toList with
  | nil => simp [htext] at hstart
  | cons c cs =>
    have hc : Token.isWordStart c = true := by simpa [htext] using hstart
    have hblank : Layout.isBlank c = false :=
      (not_isGap_iff.mp (not_isGap_of_isWordPart (isWordPart_of_isWordStart hc))).1
    rw [List.takeWhile_cons_of_neg (by simp [hblank]), List.append_nil,
      List.dropWhile_cons_of_neg (by simp [hblank])]
    exact ⟨rfl, rfl⟩

theorem isKept_line (hr : r.clause.WellFormed) : Line.isKept ⟨number, r.chars step⟩ = true := by
  have hstart := Clause.isWordStart_head hr
  rw [Line.isKept, (margin_body step number hr).2]
  cases htext : r.clause.text.toList with
  | nil => simp [htext] at hstart
  | cons c cs =>
    have hc : Token.isWordStart c = true := by simpa [htext] using hstart
    -- a clause begins with a word, so its line is neither empty nor a comment
    have hhash : c ≠ '#' := by
      rintro rfl
      exact absurd hc (by decide)
    simpa using hhash

/-- No line break and no comment is in a row. -/
theorem not_mem_chars (hr : r.clause.WellFormed) : '\n' ∉ r.chars step := by
  intro hmem
  rcases List.mem_append.mp hmem with hmem | hmem
  · exact absurd (List.eq_of_mem_replicate hmem) (by decide)
  · rcases (Clause.spelled_text hr).not_isGap _ hmem with h | h <;> exact absurd h (by decide)

/-- **The tokens of a row** are the words of its clause. -/
theorem tokens_line (hr : r.clause.WellFormed) :
    ∃ ts, Line.tokens ⟨number, r.chars step⟩ = .ok ts ∧ ts.map word = r.clause.words := by
  have hspelled := Clause.spelled_text hr
  -- no character of a clause begins a comment
  have hcode : r.clause.text.toList.takeWhile (· ≠ '#') = r.clause.text.toList := by
    rw [List.takeWhile_eq_self_iff]
    intro c hc
    rw [decide_eq_true_eq]
    rintro rfl
    rcases hspelled.not_isGap _ hc with h | h <;> exact absurd h (by decide)
  rw [Line.tokens, (margin_body step number hr).2, hcode]
  exact hspelled.tokens_ok number _ rfl

end Line

/-! ### The layout of rows -/

/-- The widths that are open at a row of some depth, the innermost first. -/
def levels (step : Nat) : Nat → List Nat
  | 0 => []
  | depth + 1 => step * (depth + 1) :: levels step depth

section Levels

variable {step : Nat}

theorem length_levels (depth : Nat) : (levels step depth).length = depth := by
  induction depth with
  | zero => rfl
  | succ depth ih => rw [levels, List.length_cons, ih]

theorem headD_levels (depth : Nat) : (levels step depth).headD 0 = step * depth := by
  cases depth <;> rfl

/-- A row that is less deep leaves the widths open that are not wider than itself. -/
theorem dropWhile_levels (hstep : 0 < step) {depth next : Nat} (h : next ≤ depth) :
    (levels step depth).dropWhile (step * next < ·) = levels step next := by
  induction depth with
  | zero =>
    obtain rfl : next = 0 := by omega
    rfl
  | succ depth ih =>
    -- a wider level is closed, and the search ends at the row's own
    rcases Nat.lt_or_eq_of_le h with hlt | rfl
    · have hwide : step * next < step * (depth + 1) := Nat.mul_lt_mul_of_pos_left hlt hstep
      rw [levels, List.dropWhile_cons_of_pos (by simpa using hwide), ih (by omega)]
    · rw [levels, List.dropWhile_cons_of_neg (by simp)]

/-- **The layout before a row.** -/
theorem layOut_levels (hstep : 0 < step) {depth next : Nat} (h : next ≤ depth + 1) (here : Span) :
    ∃ ts, layOut (levels step depth) (step * next) here = .ok (ts, levels step next) ∧
      ts.map word = stepWords depth next := by
  unfold layOut stepWords
  rw [headD_levels]
  have hlt : ∀ {a b : Nat}, step * a < step * b ↔ a < b := Nat.mul_lt_mul_left hstep
  simp only [hlt]
  -- widths compare as depths do, since they are multiples of one step
  rcases Nat.lt_trichotomy depth next with hin | rfl | hout
  · obtain rfl : next = depth + 1 := by omega
    rw [if_pos hin, if_pos hin]
    exact ⟨_, rfl, rfl⟩
  · simp only [Nat.lt_irrefl, if_false]
    exact ⟨_, rfl, rfl⟩
  · have hnot : ¬ depth < next := by omega
    rw [if_neg hnot, if_pos hout, if_neg hnot, if_pos hout, dropWhile_levels hstep (by omega),
      length_levels, length_levels, headD_levels, if_pos rfl]
    exact ⟨_, rfl, by rw [List.map_replicate]; rfl⟩

end Levels

/-! ### The widths of rows -/

theorem naturalWidth_spaces (tab n : Nat) : naturalWidth tab (List.replicate n ' ') = n := by
  have hfold : ∀ width, (List.replicate n ' ').foldl (widen tab) width = width + n := by
    induction n with
    | zero => intro width; rfl
    | succ n ih =>
      intro width
      rw [List.replicate_succ, List.foldl_cons, ih, widen, if_pos rfl]
      omega
  rw [naturalWidth, hfold, Nat.zero_add]

/-- **The tokens of rows** that follow a row of some depth are the words of those rows. -/
theorem readLines_rows (tab : Nat) {step : Nat} (hstep : 0 < step) (stop : Span) {rows : List Row}
    (hrows : ∀ r ∈ rows, r.clause.WellFormed) {depth : Nat} (hclimbs : Climbs depth rows)
    (first : Nat) :
    ∃ ts, readLines (naturalWidth tab) stop (levels step depth)
        (numbered first (rows.map (chars step))) = .ok ts ∧ ts.map word = following depth rows := by
  induction rows generalizing depth first with
  | nil =>
    refine ⟨_, rfl, ?_⟩
    rw [List.map_replicate, length_levels]
    rfl
  | cons r rows ih =>
    have hr := hrows r List.mem_cons_self
    -- the row is read in three parts: its layout, its words, and the rows below it
    obtain ⟨layout, hlayout, hlayoutWords⟩ := layOut_levels hstep hclimbs.1
      (Line.start ⟨first, r.chars step⟩)
    obtain ⟨ts, hts, hwords⟩ := tokens_line step first hr
    obtain ⟨more, hmore, hmoreWords⟩ :=
      ih (fun q hq => hrows q (List.mem_cons_of_mem r hq)) hclimbs.2 (first + 1)
    have hwidth : naturalWidth tab (Line.margin ⟨first, r.chars step⟩) = step * r.depth := by
      rw [(margin_body step first hr).1, naturalWidth_spaces]
    refine ⟨layout ++ ts ++ more, ?_, ?_⟩
    · rw [List.map_cons, numbered_cons, readLines, hwidth, hlayout]
      change (do
        let ts ← Line.tokens ⟨first, r.chars step⟩
        let more ← readLines (naturalWidth tab) stop (levels step r.depth)
          (numbered (first + 1) (rows.map (chars step)))
        Except.ok (layout ++ ts ++ more)) = _
      rw [hts, hmore]
      rfl
    · rw [List.map_append, List.map_append, hlayoutWords, hwords, hmoreWords, following,
        List.append_assoc]

/-! ### The lines of a text -/

/-- The rows of a text are its lines, but for an empty one at the end. -/
theorem flatMap_text (step : Nat) (rows : List Row) :
    (rows.map (text step)).flatMap String.toList =
      ['\n'].intercalate (rows.map (chars step) ++ [[]]) := by
  induction rows with
  | nil => rfl
  | cons r rows ih =>
    have hr : (r.text step).toList = r.chars step ++ ['\n'] := by simp [text, chars]
    rw [List.map_cons, List.flatMap_cons, ih, hr, List.map_cons, List.cons_append,
      List.intercalate_cons_of_ne_nil (by simp)]

/-- The empty line at the end is passed over. -/
theorem filter_isKept {step : Nat} {rows : List Row} (hrows : ∀ r ∈ rows, r.clause.WellFormed)
    (first : Nat) :
    (numbered first (rows.map (chars step) ++ [[]])).filter Line.isKept =
      numbered first (rows.map (chars step)) := by
  induction rows generalizing first with
  -- only the empty line behind the last line feed is left out
  | nil => rfl
  | cons r rows ih =>
    have hkept := isKept_line step first (hrows r List.mem_cons_self)
    rw [List.map_cons, List.cons_append, numbered_cons, List.filter_cons_of_pos hkept,
      ih fun q hq => hrows q (List.mem_cons_of_mem r hq), numbered_cons]

/-- **The tokens of the rows of a text** that begins at the margin. -/
theorem readFirst_rows (tab : Nat) {step : Nat} (hstep : 0 < step) (stop : Span) {rows : List Row}
    (hrows : ∀ r ∈ rows, r.clause.WellFormed) (hclimbs : Climbs 0 rows) (hwithin : Within 0 rows) :
    ∃ ts, readFirst (naturalWidth tab) stop (numbered 1 (rows.map (chars step))) = .ok ts ∧
      ts.map word = resumed 0 rows := by
  cases rows with
  | nil => exact ⟨[], rfl, rfl⟩
  | cons r rows =>
    have hr := hrows r List.mem_cons_self
    have hdepth : r.depth = 0 := Nat.le_zero.mp (hwithin r rfl)
    -- the first row is not indented, and no layout comes before it
    have hwidth : naturalWidth tab (Line.margin ⟨1, r.chars step⟩) = 0 := by
      rw [(margin_body step 1 hr).1, naturalWidth_spaces, hdepth, Nat.mul_zero]
    have hafter : Climbs 0 rows := by
      rw [← hdepth]
      exact hclimbs.2
    obtain ⟨ts, hts, hwords⟩ := tokens_line step 1 hr
    obtain ⟨more, hmore, hmoreWords⟩ :=
      readLines_rows tab hstep stop (fun q hq => hrows q (List.mem_cons_of_mem r hq)) hafter 2
    refine ⟨ts ++ more, ?_, ?_⟩
    · rw [List.map_cons, numbered_cons, readFirst, if_pos hwidth, hts]
      change (readLines (naturalWidth tab) stop (levels step 0)
        (numbered 2 (rows.map (chars step))) >>= fun more => Except.ok (ts ++ more)) = _
      rw [hmore]
      rfl
    · rw [List.map_append, hwords, hmoreWords, resumed, if_pos hdepth]

end Row

/-! ### The whole text -/

/-- **The tokens of a canonical text are the words of the program**, whatever the tab width is: no
line of it begins with a tab. -/
theorem tokenize_sourceText {p : Program} (hp : p.WellFormed) {step : Nat} (hstep : 0 < step)
    (hfit : ∀ r ∈ p.rows, step * r.depth < 2 ^ 64) (tabWidth : UInt64) :
    ∃ ts, tokenize tabWidth (p.sourceText step) = .ok ts ∧
      ts.map word = Row.resumed 0 p.rows := by
  have hrows := Program.wellFormed_rows hp
  -- the text has a line for each row and an empty one behind them
  have hlines : lines (p.sourceText step).toList =
      numbered 1 (p.rows.map (Row.chars step) ++ [[]]) := by
    rw [lines, Program.sourceText, String.toList_join, Row.flatMap_text,
      List.splitOn_intercalate _ _ (by simp)]
    intro line hline
    rcases List.mem_append.mp hline with hline | hline
    · obtain ⟨r, hr, rfl⟩ := List.mem_map.mp hline
      exact Row.not_mem_chars step (hrows r hr)
    · rw [List.mem_singleton.mp hline]
      simp
  have hfits : ∀ line ∈ lines (p.sourceText step).toList,
      line.fits (naturalWidth (max 1 tabWidth.toNat)) = true := by
    intro line hline
    rw [hlines, numbered] at hline
    obtain ⟨⟨cs, number⟩, hcs, rfl⟩ := List.mem_map.mp hline
    rw [fits_eq_true]
    -- a line is a row, which begins with spaces only, or the empty line at the end
    rcases List.mem_append.mp (List.fst_mem_of_mem_zipIdx hcs) with hrow | hlast
    · obtain ⟨r, hr, rfl⟩ := List.mem_map.mp hrow
      dsimp only
      rw [(Row.margin_body step number (hrows r hr)).1, Row.naturalWidth_spaces]
      exact hfit r hr
    · obtain rfl : cs = [] := List.mem_singleton.mp hlast
      exact Nat.two_pow_pos 64
  obtain ⟨ts, hts, hwords⟩ := Row.readFirst_rows (max 1 tabWidth.toNat) hstep
    (stopAfter Span.start (lines (p.sourceText step).toList)) hrows p.climbs_rows p.within_rows
  refine ⟨ts, tokenize_eq_ok_iff.mpr ⟨hfits, ?_⟩, hwords⟩
  rw [← hts, Linewise.read, hlines, Row.filter_isKept hrows]

end Offside
