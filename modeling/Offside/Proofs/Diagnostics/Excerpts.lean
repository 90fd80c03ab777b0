import Mathlib.Data.List.DropRight
import Offside.Diagnostic
import Offside.Proofs.Linewise.Alike

/-!
# The line that a position is on

A position is counted out by a lexer, character by character, and looked up again by a diagnostic,
which splits the text into lines. Both find the same place: the line with the number of the position
is **cut** at its column (`Cut`), into what stands before the place and what stands from there on.

* `exists_cut` — the position behind some characters cuts the line where they end;
* `Cut.sourceLine` — a diagnostic shows the line, if something is left of it from the place on;
* `Diagnostic.points_of_sourceLine` — the caret of a rich diagnostic is below the place.
-/

namespace Offside

open Linewise

/-! ### Cutting a line -/

/-- **A position cuts its line** into what stands before the place and what stands from there on. -/
structure Cut (text : List Char) (span : Span) (margin cs : List Char) : Prop where
  pos : 1 ≤ span.line
  line : (text.splitOn '\n')[span.line - 1]? = some (margin ++ cs)
  column : span.column = margin.length + 1

/-- **The position behind some characters** cuts the line where they end. The last of them may be
given apart: they are all that the line begins with if a line ends before them. -/
theorem exists_cut (before : List Char) {margin mid : List Char} (hmargin : '\n' ∉ margin)
    (hmid : '\n' ∉ mid) (after : List Char) :
    ∃ pre post, Cut (before ++ (margin ++ (mid ++ after))) (Span.behind (before ++ margin))
        (pre ++ margin) (mid ++ post) ∧
      ((before = [] ∨ ∃ lines, before = lines ++ ['\n']) → pre = []) := by
  obtain ⟨front, pre, hbehind, hlines⟩ := splitOn_around before
  obtain ⟨post, back, hafter⟩ := List.exists_cons_of_ne_nil (List.splitOn_ne_nil '\n' after)
  have hboth : '\n' ∉ margin ++ mid := by simp [hmargin, hmid]
  -- neither the margin nor the lexeme ends the line, so they are on one line
  have hsplit := hlines (margin ++ mid) after post back hboth hafter
  have hspan : Span.behind (before ++ margin) = ⟨front.length + 1, (pre ++ margin).length + 1⟩ := by
    rw [behind_append before hmargin, hbehind, List.length_append]
    simp [Span.right, Nat.add_right_comm]
  refine ⟨pre, post, ⟨?_, ?_, ?_⟩, fun hbefore => ?_⟩
  · rw [hspan]
    exact Nat.le_add_left 1 _
  · rw [hspan, ← List.append_assoc margin, hsplit]
    simp
  · rw [hspan]
  · -- behind the end of a line the column is the first
    have hcolumn : (Span.behind before).column = 1 := by
      rcases hbefore with rfl | ⟨lines, rfl⟩
      · rfl
      · simp [Span.behind]
    rw [hbehind] at hcolumn
    exact List.length_eq_zero_iff.mp (Nat.succ.inj hcolumn)

/-- The position behind a whole text is at the end of its last line. -/
theorem exists_cut_behind (text : List Char) :
    ∃ margin cs, Cut text (Span.behind text) margin cs := by
  obtain ⟨pre, post, hcut, -⟩ :=
    exists_cut text List.not_mem_nil (List.not_mem_nil (a := '\n')) []
  simp only [List.append_nil] at hcut
  exact ⟨pre, post, hcut⟩

/-- Characters at the end of a text are dropped from behind what ends in another one. -/
theorem rdropWhile_append {p : Char → Bool} {cs : List Char} (h : cs.rdropWhile p = cs)
    (post : List Char) : (cs ++ post).rdropWhile p = cs ++ post.rdropWhile p := by
  -- the characters are dropped from the right, so the induction is on the end of the text
  induction post using List.reverseRecOn with
  | nil => simpa using h
  | append_singleton post c ih =>
    rw [← List.append_assoc]
    by_cases hc : p c = true
    · rw [List.rdropWhile_concat_pos p _ _ hc, List.rdropWhile_concat_pos p _ _ hc, ih]
    · rw [List.rdropWhile_concat_neg p _ _ hc, List.rdropWhile_concat_neg p _ _ hc,
        List.append_assoc]

/-- **A line with something on it** has the same number among the lines of a text as among the
parts between its line breaks: only an empty last part is no line. -/
theorem Diagnostic.linesOf_getElem? {text line : List Char} {i : Nat}
    (h : (text.splitOn '\n')[i]? = some line) (hline : line ≠ []) :
    (linesOf text)[i]? = some line := by
  simp only [linesOf]
  split
  next hlast =>
    obtain ⟨hi, -⟩ := List.getElem?_eq_some_iff.mp h
    -- the part is not the last one, which is empty
    have hne : i ≠ (text.splitOn '\n').length - 1 := by
      intro heq
      rw [List.getLast?_eq_getElem?, ← heq, h] at hlast
      exact hline (Option.some.inj hlast)
    rw [List.getElem?_dropLast, if_pos (by omega), h]
  next => exact h

namespace Cut

variable {text margin cs : List Char} {span : Span}

/-- The column is at most one behind the last character of the line. -/
theorem column_mem (h : Cut text span margin cs) :
    1 ≤ span.column ∧ span.column ≤ 1 + (margin ++ cs).length := by
  rw [h.column, List.length_append]
  omega

theorem line_le (h : Cut text span margin cs) : span.line ≤ 1 + text.count '\n' := by
  obtain ⟨hlt, -⟩ := List.getElem?_eq_some_iff.mp h.line
  rw [length_splitOn] at hlt
  have hpos := h.pos
  omega

/-- **A diagnostic shows the line**, without carriage returns at its end, if characters of another
kind stand at the place. -/
theorem sourceLine {source : String} {mid post : List Char}
    (h : Cut source.toList span margin (mid ++ post)) (hmid : mid ≠ []) (hreturn : '\r' ∉ mid) :
    ∃ shown, Diagnostic.sourceLine? source span.line =
        some (String.ofList (margin ++ (mid ++ shown))) ∧
      margin ++ (mid ++ shown) = (margin ++ (mid ++ post)).rdropWhile (· == '\r') := by
  -- the lexeme does not end with a carriage return, so none of it is trimmed
  have hkept : (margin ++ mid).rdropWhile (· == '\r') = margin ++ mid := by
    rw [List.rdropWhile_eq_self_iff]
    intro hne hlast
    rw [List.getLast_append_of_ne_nil hne hmid] at hlast
    exact hreturn ((beq_iff_eq.mp hlast) ▸ List.getLast_mem hmid)
  -- only what stands behind the lexeme is trimmed
  have hdrop : (margin ++ (mid ++ post)).rdropWhile (· == '\r') =
      margin ++ (mid ++ post.rdropWhile (· == '\r')) := by
    rw [← List.append_assoc, rdropWhile_append hkept, List.append_assoc]
  refine ⟨post.rdropWhile (· == '\r'), ?_, hdrop.symm⟩
  have hline : margin ++ (mid ++ post) ≠ [] := by simp [hmid]
  rw [Diagnostic.sourceLine?, Diagnostic.linesOf_getElem? h.line hline, Option.map_some, ← hdrop]
  rfl

end Cut

/-! ### The caret -/

namespace Diagnostic

/-- What stands at the left of a line that a diagnostic shows. -/
def gutter (label : String) : String := "  " ++ Colour.paint Colour.cyan (label ++ " |") ++ " "

/-- **Blanks below a column**: as many as there are characters before it, each a tab exactly where
the line above has one. -/
structure Below (above indent : List Char) (column : Nat) : Prop where
  length : indent.length = column - 1
  tab : ∀ i < column - 1, indent[i]? = some (if above[i]? = some '\t' then '\t' else ' ')

theorem below_caretIndent (line : String) (column : Nat) :
    Below line.toList (caretIndent line column).toList column := by
  let under := (line.toList.take (column - 1)).map fun c => if c = '\t' then '\t' else ' '
  have heq : (caretIndent line column).toList =
      under ++ List.replicate (column - 1 - under.length) ' ' := String.toList_ofList
  -- the line may be shorter than the column is
  have hlength : under.length = min (column - 1) line.toList.length := by simp [under]
  refine ⟨?_, ?_⟩
  · rw [heq, List.length_append, List.length_replicate, hlength]
    omega
  · intro i hi
    rw [heq]
    by_cases hunder : i < line.toList.length
    · -- below a character of the line
      rw [List.getElem?_append_left (by omega), List.getElem?_map, List.getElem?_take_of_lt hi,
        List.getElem?_eq_getElem hunder]
      simp
    · -- below nothing
      rw [List.getElem?_append_right (by omega), List.getElem?_replicate_of_lt (by omega),
        List.getElem?_eq_none (by omega)]
      simp

/-- **A rich diagnostic points at a position** of a line: its last two rows are the line behind its
number, and the caret below the column. -/
def Points (d : Diagnostic) (span : Span) (line : String) : Prop :=
  ∃ rows indent, Below line.toList indent span.column ∧
    d.render .rich = String.intercalate "\n" (rows ++
      [gutter (toString span.line) ++ line,
        gutter (String.ofList (List.replicate (toString span.line).length ' ')) ++
          String.ofList indent ++ Colour.paint Colour.brightRed "^"])

/-- A diagnostic with a line points at its position. -/
theorem points_of_sourceLine {d : Diagnostic} {span : Span} {line : String}
    (hspan : d.span = some span) (hline : d.sourceLine = some line) : d.Points span line := by
  let location := (d.path.map fun path => path ++ ":" ++ span.text).getD span.text
  let blank := String.ofList (List.replicate (toString span.line).length ' ')
  refine ⟨[Colour.paint (Colour.bold ++ Colour.red) d.header, "  " ++ d.message,
      "  " ++ Colour.paint Colour.dim ("--> " ++ location),
      "  " ++ Colour.paint Colour.cyan (blank ++ " |")],
    (caretIndent line span.column).toList, below_caretIndent line span.column, ?_⟩
  simp only [render, renderRich, place, excerpt, gutter, hspan, hline, Option.map_some,
    Option.getD_some, String.ofList_toList, location, blank, List.cons_append, List.nil_append]

/-- The report on a fault of the text shows the line at its position. -/
theorem withSource_ofFault {f : Fault} {span : Span} (h : f.span? = some span) (source : String) :
    ((ofFault f).withSource source).span = some span ∧
      ((ofFault f).withSource source).sourceLine = sourceLine? source span.line := by
  cases f with
  | lexical e =>
    cases h
    exact ⟨rfl, rfl⟩
  | grammar e =>
    cases h
    exact ⟨rfl, rfl⟩
  -- the other faults have no position
  | settings e => cases h
  | system text => cases h

end Diagnostic

end Offside
