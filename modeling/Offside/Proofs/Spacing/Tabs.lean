import Mathlib.Data.List.DropRight
import Offside.Proofs.Command.Settings
import Offside.Proofs.Linewise.Alike

/-!
# Tabs and spaces

A tab in the indentation of a line stands for the spaces up to the next tab stop. A text in which
all such tabs are replaced by spaces means the same, and means the same for every tab width.

* `expandTabs` — the text with spaces for tabs in its indentations;
* `naturalWidth_expandMargin` — an indentation keeps its width, for any other tab width too;
* `tokenize_expandTabs` — so both texts are read alike, up to the columns;
* `Source.compile_expandTabs` — both texts have the same code, or the same fault on the same line.

The replacement moves all columns of a line, so that the two texts agree up to columns only. It
keeps all widths, so that one of them is too wide for a word exactly if the other is.
-/

namespace Offside

/-- The first column of the line of a position. -/
def Span.flush (s : Span) : Span := ⟨s.line, 1⟩

open Linewise

/-- The blanks of an indentation from some column on, with the spaces up to the next tab stop for
each tab. -/
def expandMargin (tabWidth : Nat) : Nat → List Char → List Char
  | _, [] => []
  | column, c :: cs =>
    (if c = '\t' then List.replicate (tabWidth - column % tabWidth) ' ' else [c]) ++
      expandMargin tabWidth (widen tabWidth column c) cs

/-- A line with spaces for the tabs in its indentation. -/
def expandLine (tabWidth : Nat) (line : List Char) : List Char :=
  expandMargin tabWidth 0 (line.takeWhile Layout.isBlank) ++ line.dropWhile Layout.isBlank

/-- **A text with spaces for the tabs in its indentations.** -/
def expandTabs (tabWidth : Nat) (text : List Char) : List Char :=
  ['\n'].intercalate ((text.splitOn '\n').map (expandLine tabWidth))

section

variable {tab : Nat}

/-! ### Indentations -/

theorem isBlank_of_mem_expandMargin {column : Nat} {margin : List Char}
    (h : ∀ c ∈ margin, Layout.isBlank c = true) :
    ∀ c ∈ expandMargin tab column margin, Layout.isBlank c = true := by
  induction margin generalizing column with
  | nil => exact List.forall_mem_nil _
  | cons b margin ih =>
    obtain ⟨hb, hmargin⟩ := List.forall_mem_cons.mp h
    intro c hc
    rw [expandMargin, List.mem_append] at hc
    rcases hc with hc | hc
    · -- spaces in place of a tab, or the blank that was there
      split at hc
      · rw [List.eq_of_mem_replicate hc]
        rfl
      · rwa [List.mem_singleton.mp hc]
    · exact ih hmargin c hc

theorem foldl_widen_spaces (column count : Nat) :
    (List.replicate count ' ').foldl (widen tab) column = column + count := by
  induction count generalizing column with
  | zero => rfl
  | succ count ih =>
    have hspace : widen tab column ' ' = column + 1 := rfl
    rw [List.replicate_succ, List.foldl_cons, ih, hspace, Nat.add_right_comm, Nat.add_assoc]

/-- What stands for a blank leads to the same column, wherever other tab stops are: a tab becomes as
many spaces as `widen_tab` says, and all other blanks stay what they are. -/
theorem foldl_expandBlank (htab : 0 < tab) (other column : Nat) (c : Char) :
    (if c = '\t' then List.replicate (tab - column % tab) ' ' else [c]).foldl (widen other) column =
      widen tab column c := by
  by_cases hc : c = '\t'
  · rw [if_pos hc, hc, foldl_widen_spaces, widen_tab htab]
  · rw [if_neg hc]
    simp [widen, hc]

/-- **An indentation keeps its width** when its tabs are replaced, for any other tab width too. -/
theorem naturalWidth_expandMargin (htab : 0 < tab) (other : Nat) (margin : List Char) :
    naturalWidth other (expandMargin tab 0 margin) = naturalWidth tab margin := by
  unfold naturalWidth
  -- from any column on, so that the columns of a tab in the middle are known
  generalize 0 = column
  induction margin generalizing column with
  | nil => rfl
  | cons c margin ih =>
    rw [expandMargin, List.foldl_append, foldl_expandBlank htab, List.foldl_cons]
    exact ih _

/-! ### Lines -/

theorem dropWhile_expandLine (line : List Char) :
    (expandLine tab line).dropWhile Layout.isBlank = line.dropWhile Layout.isBlank := by
  have hblank : ∀ c ∈ expandMargin tab 0 (line.takeWhile Layout.isBlank),
      Layout.isBlank c = true :=
    isBlank_of_mem_expandMargin fun c hc => List.mem_takeWhile_imp hc
  rw [expandLine, List.dropWhile_append_of_pos hblank, List.dropWhile_idempotent]

theorem takeWhile_expandLine (line : List Char) :
    (expandLine tab line).takeWhile Layout.isBlank =
      expandMargin tab 0 (line.takeWhile Layout.isBlank) := by
  -- what is left when the rest of the line is taken away
  have hparts : (expandLine tab line).takeWhile Layout.isBlank ++
      (expandLine tab line).dropWhile Layout.isBlank = expandLine tab line :=
    List.takeWhile_append_dropWhile
  rw [dropWhile_expandLine] at hparts
  exact List.append_cancel_right hparts

theorem not_mem_expandLine {line : List Char} (h : '\n' ∉ line) :
    '\n' ∉ expandLine tab line := by
  intro hmem
  rw [← List.takeWhile_append_dropWhile (p := Layout.isBlank) (l := expandLine tab line),
    dropWhile_expandLine] at hmem
  rcases List.mem_append.mp hmem with hmem | hmem
  · exact absurd (List.mem_takeWhile_imp hmem) (by decide)
  · exact h ((List.dropWhile_suffix _).subset hmem)

/-- The same line of the text with spaces. -/
def expandedLine (tab : Nat) (l : Line) : Line :=
  { l with chars := expandLine tab l.chars }

theorem lines_expandTabs (text : List Char) :
    lines (expandTabs tab text) = (lines text).map (expandedLine tab) := by
  obtain ⟨line, ls, hsplit, -, hlines⟩ := splitOn_cases text
  -- spaces for tabs bring no line feed, so the lines are the same lines
  have hsplit' : (expandTabs tab text).splitOn '\n' =
      (text.splitOn '\n').map (expandLine tab) := by
    refine List.splitOn_intercalate '\n' ?_ (by simp [hsplit])
    rw [hsplit]
    exact List.forall_mem_map.mpr fun l hl => not_mem_expandLine (hlines l hl)
  rw [lines, lines, hsplit', numbered, numbered, List.zipIdx_map, List.map_map, List.map_map]
  rfl

/-- **A line with spaces for tabs**: the same width, the same tokens, and other columns. -/
theorem alike_expandedLine (htab : 0 < tab) (other : Nat) (l : Line) :
    Line.Alike (fun s s' => s'.flush = s.flush) (naturalWidth tab) (naturalWidth other) l
      (expandedLine tab l) := by
  have hmargin : (expandedLine tab l).margin = expandMargin tab 0 l.margin :=
    takeWhile_expandLine l.chars
  have hbody : (expandedLine tab l).body = l.body := dropWhile_expandLine l.chars
  refine ⟨?_, rfl, ?_⟩
  · -- the margin has changed and kept its width; the body has not changed at all
    rw [hmargin, naturalWidth_expandMargin htab]
  · rw [Line.tokens, Line.tokens, hbody]
    refine tokens_alike (fun i => ?_) none 0 _
    rfl

theorem isKept_expandedLine (l : Line) : (expandedLine tab l).isKept = l.isKept := by
  have hbody : (expandedLine tab l).body = l.body := dropWhile_expandLine l.chars
  rw [Line.isKept, Line.isKept, hbody]

end

/-! ### Texts -/

/-- **Tabs and spaces are read alike**, since their lines are alike one by one. -/
theorem tokenize_expandTabs {tabWidth : UInt64} (htab : 0 < tabWidth.toNat) (other : UInt64)
    (text : List Char) :
    Alike (fun s s' => s'.flush = s.flush) (tokenize tabWidth (String.ofList text))
      (tokenize other (String.ofList (expandTabs tabWidth.toNat text))) := by
  rw [tokenize_eq_readChecked, tokenize_eq_readChecked, String.toList_ofList, String.toList_ofList,
    Nat.max_eq_right htab]
  unfold readChecked
  rw [lines_expandTabs]
  refine readFrom_alike (linesAlike_map _ (fun l _ => isKept_expandedLine l)
    fun l _ => alike_expandedLine htab _ l) ?_
  -- the text ends on the same line
  unfold stopAfter
  rw [List.getLast?_map]
  cases (lines text).getLast? <;> rfl

/-- Without tabs the tab width plays no part. -/
theorem tokenize_expandTabs_congr {tabWidth : UInt64} (htab : 0 < tabWidth.toNat)
    (other : UInt64) (text : List Char) :
    tokenize other (String.ofList (expandTabs tabWidth.toNat text)) =
      tokenize tabWidth (String.ofList (expandTabs tabWidth.toNat text)) := by
  rw [tokenize_eq_readChecked, tokenize_eq_readChecked, String.toList_ofList]
  unfold readChecked
  have halike : Alike (fun s s' => s' = id s)
      (readFrom (naturalWidth (max 1 tabWidth.toNat)) Span.start
        (lines (expandTabs tabWidth.toNat text)))
      (readFrom (naturalWidth (max 1 other.toNat)) Span.start
        (lines (expandTabs tabWidth.toNat text))) := by
    have hlines : LinesAlike (fun s s' => s' = id s) (naturalWidth (max 1 tabWidth.toNat))
        (naturalWidth (max 1 other.toNat)) (lines (expandTabs tabWidth.toNat text))
        ((lines (expandTabs tabWidth.toNat text)).map id) := by
      refine linesAlike_map id (fun _ _ => rfl) fun line hline => ?_
      rw [lines_expandTabs] at hline
      obtain ⟨l, -, rfl⟩ := List.mem_map.mp hline
      refine ⟨?_, rfl, tokens_alike (R := fun s s' => s' = id s) (fun _ => rfl) none 0 _⟩
      -- both widths are that of the line with its tabs
      exact (alike_expandedLine htab _ l).width_eq.trans (alike_expandedLine htab _ l).width_eq.symm
    rw [List.map_id] at hlines
    exact readFrom_alike hlines rfl
  rw [halike.eq_movedTokens, movedTokens_id]

namespace Source

/-- **Tabs and spaces agree.** For every text and all settings that are accepted, the text with
spaces for the tabs in its indentations has the same code as the text itself, or the same fault on
the same line, or both are too wide to be measured; and what it comes to is the same for every tab
width that is accepted. -/
theorem compile_expandTabs {s : Settings} (hs : s.validate = .ok ()) (text : String) :
    let expanded := String.ofList (expandTabs s.tabWidth.toNat text.toList)
    (compile s expanded).mapError (Halt.map (Fault.moved Span.flush)) =
        (compile s text).mapError (Halt.map (Fault.moved Span.flush)) ∧
      ∀ tabWidth, Settings.validate { s with tabWidth := tabWidth } = .ok () →
        compile { s with tabWidth := tabWidth } expanded = compile s expanded := by
  have htab : 0 < s.tabWidth.toNat := (Settings.validate_eq_ok_iff.mp hs).2.1
  refine ⟨?_, fun tabWidth hs' => ?_⟩
  · -- lines are alike in all but their margins, so positions are compared without them
    have halike := tokenize_expandTabs htab s.tabWidth text.toList
    rw [String.ofList_toList] at halike
    rw [compile_eq hs, compile_eq hs, ← compileTokens_moved, ← compileTokens_moved,
      halike.movedTokens_eq Span.flush Span.flush fun _ _ h => h]
  · rw [compile_eq hs', compile_eq hs, tokenize_expandTabs_congr htab]

/-- The code of a branch with two statements. -/
def tabbedCode : String :=
  String.join ["#include <iostream>\n\n\n", "int main()\n\x7b\n", "    if(a)\n    \x7b\n",
    "        b = 1;\n", "        c = 2;\n", "    \x7d\n", "    return 0;\n\x7d\n"]

/-- A tab behind a space, and a line that is indented as far with spaces alone, for tab stops every
three columns: both are in the branch, and so they are with spaces and other tab stops. -/
theorem compile_tabbedText :
    Settings.validate ⟨4, 3⟩ = .ok () ∧
    String.ofList (expandTabs 3 "if a:\n \tb = 1\n   c = 2".toList) =
      "if a:\n   b = 1\n   c = 2" ∧
    compile ⟨4, 16⟩ "if a:\n   b = 1\n   c = 2" = .ok tabbedCode ∧
    compile ⟨4, 3⟩ "if a:\n   b = 1\n   c = 2" = .ok tabbedCode ∧
    compile ⟨4, 3⟩ "if a:\n \tb = 1\n   c = 2" = .ok tabbedCode := by
  have hvalid : Settings.validate ⟨4, 3⟩ = .ok () := rfl
  have hexpanded : String.ofList (expandTabs 3 "if a:\n \tb = 1\n   c = 2".toList) =
      "if a:\n   b = 1\n   c = 2" := by decide +kernel
  have hcode : compile ⟨4, 16⟩ "if a:\n   b = 1\n   c = 2" = .ok tabbedCode := by decide +kernel
  obtain ⟨hsame, hother⟩ := compile_expandTabs hvalid "if a:\n \tb = 1\n   c = 2"
  -- one text is compiled; the other outcomes follow by the theorem
  have hspaces := (hother 16 rfl).symm
  rw [show String.ofList (expandTabs (⟨4, 3⟩ : Settings).tabWidth.toNat _) = _ from hexpanded]
    at hsame hspaces
  have hspaces' := hspaces.trans hcode
  rw [hspaces'] at hsame
  exact ⟨hvalid, hexpanded, hcode, hspaces', mapError_eq_ok hsame.symm⟩

end Source

end Offside
