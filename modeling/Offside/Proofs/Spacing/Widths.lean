import Offside.Proofs.Command.Settings
import Offside.Proofs.Lexing.Indentation
import Offside.Proofs.Spacing.Tabs

/-!
# When widths are exact

The width of an indentation is computed in words of 64 bits, blank by blank, and every operation is
checked (`Layout.advance`). Whether all of them succeed is a matter of the last width alone: natural
widths only grow, so some operation overflows exactly if the natural width of the whole indentation
is `2 ^ 64` or more (`Layout.foldlM_advance`).

* `Layout.measure` — the width of an indentation, or why it has none;
* `Layout.Exact` — an indentation is measured, by its natural width, and every tab in it leads to a
  larger one;
* `Layout.exact_of_length_le_iff` — how wide tabs may be for all indentations of some length to be
  exact;
* `Lexer.run_widths` — what follows for a lexer with any tab width, after any number of steps.

There is never a division by zero, since a lexer takes a tab width of zero for one. There can be an
overflow, since it takes every other tab width as it is: two tabs that are half of all words wide
are one column too many. The tab widths that settings allow are far below that
(`Source.tokens_eq_read`).
-/

namespace Offside.Layout

open Linewise

/-- **The width of an indentation**, in words, or the trap that it comes to. -/
def measure (tabWidth : UInt64) (margin : List Char) : Except Trap UInt64 :=
  margin.foldlM (advance tabWidth) 0

theorem measure_eq {tabWidth : UInt64} (htab : 0 < tabWidth.toNat) (margin : List Char) :
    measure tabWidth margin = Word.check (naturalWidth tabWidth.toNat margin) :=
  foldlM_advance htab margin 0

/-! ### Exact indentations -/

/-- The width of an indentation is **exact**. -/
structure Exact (tabWidth : UInt64) (margin : List Char) : Prop where
  /-- No operation divides by zero or overflows, and the width is the natural one. -/
  measured : ∃ width, measure tabWidth margin = .ok width ∧
    width.toNat = naturalWidth tabWidth.toNat margin
  /-- Every tab leads to a larger width. -/
  tab_lt : ∀ before after, margin = before ++ '\t' :: after →
    ∃ width next, measure tabWidth before = .ok width ∧
      measure tabWidth (before ++ ['\t']) = .ok next ∧ width < next

/-- An indentation whose natural width is a word has that width. -/
theorem exists_measure {tabWidth : UInt64} (htab : 0 < tabWidth.toNat) {margin : List Char}
    (h : naturalWidth tabWidth.toNat margin < 2 ^ 64) :
    ∃ width, measure tabWidth margin = .ok width ∧
      width.toNat = naturalWidth tabWidth.toNat margin :=
  ⟨_, (measure_eq htab margin).trans (Word.check_of_lt h), UInt64.toNat_ofNat_of_lt' h⟩

/-- **An indentation is exact if and only if its natural width fits.** -/
theorem exact_iff {tabWidth : UInt64} (htab : 0 < tabWidth.toNat) (margin : List Char) :
    Exact tabWidth margin ↔ naturalWidth tabWidth.toNat margin < 2 ^ 64 := by
  constructor
  · intro h
    obtain ⟨width, -, hwidth⟩ := h.measured
    rw [← hwidth]
    exact UInt64.toNat_lt width
  · intro hfits
    refine ⟨exists_measure htab hfits, ?_⟩
    rintro before after rfl
    have hbehind : naturalWidth tabWidth.toNat (before ++ ['\t']) =
        widen tabWidth.toNat (naturalWidth tabWidth.toNat before) '\t' := by
      rw [naturalWidth, List.foldl_append]
      rfl
    -- the tab leads further, and the whole indentation is at least as wide as what it leads to
    have htabbed : naturalWidth tabWidth.toNat before <
        naturalWidth tabWidth.toNat (before ++ ['\t']) := by
      have hmod := Nat.mod_lt (naturalWidth tabWidth.toNat before) htab
      rw [hbehind, widen_tab htab]
      omega
    have hstop : naturalWidth tabWidth.toNat (before ++ ['\t']) < 2 ^ 64 := by
      rw [naturalWidth, List.foldl_append, List.foldl_cons] at hfits
      rw [hbehind]
      exact (le_foldl_widen htab _ after).trans_lt hfits
    obtain ⟨width, hmeasure, hwidth⟩ := exists_measure htab (htabbed.trans hstop)
    obtain ⟨next, hmeasure', hnext⟩ := exists_measure htab hstop
    refine ⟨width, next, hmeasure, hmeasure', ?_⟩
    rw [UInt64.lt_iff_toNat_lt, hwidth, hnext]
    exact htabbed

/-! ### Long indentations -/

section Length

variable {tab : Nat}

/-- No blank is wider than a tab can be. -/
theorem widen_le (htab : 0 < tab) (width : Nat) (c : Char) : widen tab width c ≤ width + tab := by
  by_cases hc : c = '\t'
  · rw [hc, widen_tab htab]
    omega
  · unfold widen
    rw [if_neg hc]
    split <;> omega

theorem foldl_widen_le_length (htab : 0 < tab) (width : Nat) (margin : List Char) :
    margin.foldl (widen tab) width ≤ width + margin.length * tab := by
  induction margin generalizing width with
  | nil => exact Nat.le_add_right _ _
  | cons c margin ih =>
    have hmore := ih (widen tab width c)
    have hone := widen_le htab width c
    rw [List.foldl_cons, List.length_cons, Nat.succ_mul]
    omega

/-- Tabs from one tab stop on lead to the stop that is as many stops behind it. -/
theorem foldl_widen_tabs (htab : 0 < tab) (stop count : Nat) :
    (List.replicate count '\t').foldl (widen tab) (stop * tab) = (stop + count) * tab := by
  induction count generalizing stop with
  | zero => rfl
  | succ count ih =>
    have hnext : widen tab (stop * tab) '\t' = (stop + 1) * tab := by
      rw [widen_tab htab, Nat.mul_mod_left, Nat.sub_zero, Nat.succ_mul]
    rw [List.replicate_succ, List.foldl_cons, hnext, ih, Nat.add_right_comm, Nat.add_assoc]

/-- **All indentations up to some length are exact if and only if so many tabs fit.** -/
theorem exact_of_length_le_iff {tabWidth : UInt64} (htab : 0 < tabWidth.toNat) (length : Nat) :
    (∀ margin : List Char, (∀ c ∈ margin, isBlank c = true) → margin.length ≤ length →
      Exact tabWidth margin) ↔ length * tabWidth.toNat < 2 ^ 64 := by
  constructor
  · intro h
    -- tabs alone are the widest indentation of a given length
    have hblank : ∀ c ∈ List.replicate length '\t', isBlank c = true := by
      intro c hc
      rw [List.eq_of_mem_replicate hc]
      rfl
    have hfits := (exact_iff htab _).mp (h _ hblank List.length_replicate.le)
    have hwidth := foldl_widen_tabs htab 0 length
    rw [Nat.zero_mul, Nat.zero_add] at hwidth
    rwa [naturalWidth, hwidth] at hfits
  · intro hfits margin _ hlength
    have hwidth : naturalWidth tabWidth.toNat margin ≤ 0 + margin.length * tabWidth.toNat :=
      foldl_widen_le_length htab 0 margin
    have hlong := Nat.mul_le_mul_right tabWidth.toNat hlength
    exact (exact_iff htab margin).mpr (by omega)

end Length

end Offside.Layout

namespace Offside

open Layout Linewise

/-! ### Settings -/

/-- **Settings that are accepted measure every indentation** of fewer than `2 ^ 60` blanks. -/
theorem Settings.fits_of_length {s : Settings} (hs : s.validate = .ok ()) {line : Line}
    (h : line.margin.length < 2 ^ 60) :
    line.fits (naturalWidth (max 1 s.tabWidth.toNat)) = true := by
  obtain ⟨-, hpos, hle⟩ := Settings.validate_eq_ok_iff.mp hs
  have hexact := (exact_of_length_le_iff hpos (2 ^ 60 - 1)).mpr (by omega)
  have hblank : ∀ c ∈ line.margin, isBlank c = true := fun c hc => List.mem_takeWhile_imp hc
  rw [Nat.max_eq_right hpos]
  exact fits_eq_true.mpr ((exact_iff hpos _).mp (hexact line.margin hblank (by omega)))

/-- The tokens of a text with such indentations are those of its lines with natural widths. -/
theorem Source.tokens_eq_read {s : Settings} (hs : s.validate = .ok ()) {text : String}
    (hlines : ∀ line ∈ lines text.toList, line.margin.length < 2 ^ 60) :
    Source.tokens s text =
      (read (naturalWidth s.tabWidth.toNat) text.toList).mapError fun e => .fault (.lexical e) := by
  have hpos : 0 < s.tabWidth.toNat := (Settings.validate_eq_ok_iff.mp hs).2.1
  -- the settings bound the tab width by sixteen, so no such line is too wide
  have hread : tokenize s.tabWidth text =
      (read (naturalWidth s.tabWidth.toNat) text.toList).mapError .fault := by
    rw [tokenize_eq_readChecked,
      readChecked_of_fits fun line hline => Settings.fits_of_length hs (hlines line hline),
      Nat.max_eq_right hpos]
  rw [Source.tokens, hs, hread]
  cases read (naturalWidth s.tabWidth.toNat) text.toList <;> rfl

namespace Lexer

/-! ### Lexers -/

/-- No step changes the tab width. -/
theorem run_tabWidth (l : Lexer) (n : Nat) : (l.run n).2.tabWidth = l.tabWidth :=
  run_invariant (P := fun l' => l'.tabWidth = l.tabWidth)
    (fun hstep h => by cases hstep <;> exact h) rfl n

/-- **When a lexer measures indentations exactly.** A lexer on any text, with any tab width, has
been asked any number of times. Its tab width is still the one that it was given, or one if that was
zero. From the blanks at the beginning of a line, whatever follows them, it goes on with the width
that they are measured by, or traps as the measurement does:

* measuring never divides by zero, and it overflows exactly if the natural width is `2 ^ 64` or
  more;
* otherwise the width is the natural one, and every tab leads to a larger width;
* that is so for all runs of fewer than `2 ^ 59` blanks exactly if the tab width is at most 32. -/
theorem run_widths (tabWidth : UInt64) (source : String) (n : Nat) :
    let tab := ((ofSource tabWidth source).run n).2.tabWidth
    tab.toNat = max 1 tabWidth.toNat ∧
      (∀ margin : List Char, (∀ c ∈ margin, isBlank c = true) →
        (∀ here cs, seek tab false 0 here (margin ++ cs) =
          match measure tab margin with
          | .ok width => seek tab false width (here.right margin.length) cs
          | .error trap => .trapped trap) ∧
        measure tab margin ≠ .error .divisionByZero ∧
        (measure tab margin = .error .overflow ↔ 2 ^ 64 ≤ naturalWidth tab.toNat margin) ∧
        (Exact tab margin ↔ naturalWidth tab.toNat margin < 2 ^ 64)) ∧
      ((∀ margin : List Char, (∀ c ∈ margin, isBlank c = true) → margin.length < 2 ^ 59 →
        Exact tab margin) ↔ tabWidth.toNat ≤ 32) := by
  intro tab
  have hwidth : tab.toNat = max 1 tabWidth.toNat := by
    rw [show tab = (ofSource tabWidth source).tabWidth from run_tabWidth _ n,
      toNat_tabWidth_ofSource]
  have htab : 0 < tab.toNat := by omega
  refine ⟨hwidth, fun margin hblank => ⟨fun here cs => ?_, ?_, ?_, exact_iff htab margin⟩, ?_⟩
  · exact seek_blanks tab here hblank 0 cs
  · rw [measure_eq htab]
    exact Word.check_ne_divisionByZero _
  · rw [measure_eq htab]
    exact Word.check_eq_overflow_iff
  · have hall := exact_of_length_le_iff htab (2 ^ 59 - 1)
    -- the bound on the length is below `2 ^ 59`, and thirty-two is what is left of the word
    have hbound : (2 ^ 59 - 1) * tab.toNat < 2 ^ 64 ↔ tabWidth.toNat ≤ 32 := by omega
    rw [← hbound, ← hall]
    refine forall_congr' fun margin => imp_congr_right fun _ => ?_
    rw [Nat.lt_iff_le_pred (by decide)]

/-- A space between two tabs, which are as wide as the last of these conditions allows. -/
theorem run_widths_spacedTabs :
    let tab := ((ofSource 32 "x").run 1).2.tabWidth
    (32 : UInt64).toNat ≤ 32 ∧ ['\t', ' ', '\t'].all isBlank = true ∧
      ['\t', ' ', '\t'].length < 2 ^ 59 ∧ Exact tab ['\t', ' ', '\t'] ∧
      measure tab ['\t', ' ', '\t'] = .ok 64 := by
  have hblank : ['\t', ' ', '\t'].all isBlank = true := by decide
  refine ⟨by decide, hblank, by decide, ?_, by decide +kernel⟩
  exact (run_widths 32 "x" 1).2.2.mpr (by decide) _ (List.all_eq_true.mp hblank) (by decide)

/-- Lines that go deeper by one tab each. -/
def deepeningText : List Char := ['x', '\n', '\t', 'y', '\n', '\t', '\t', 'z']

/-- Tabs that are half of all words wide: the second one is an overflow, and the deepest line has no
tokens. -/
theorem widths_deepeningText :
    let l := ofSource 9223372036854775808 (String.ofList deepeningText)
    ['\t', '\t'].all isBlank = true ∧ ['\t', '\t'].length < 2 ^ 59 ∧
      naturalWidth l.tabWidth.toNat ['\t', '\t'] = 2 ^ 64 ∧
      measure l.tabWidth ['\t'] = .ok 9223372036854775808 ∧
      measure l.tabWidth ['\t', '\t'] = .error .overflow ∧
      ¬ Exact l.tabWidth ['\t', '\t'] ∧
      (l.run 4).1 = [some (.ok ⟨.identifier, some (.name "x"), ⟨1, 1⟩⟩),
        some (.ok (.plain .indent ⟨2, 2⟩)), some (.ok ⟨.identifier, some (.name "y"), ⟨2, 2⟩⟩),
        some (.error (.trap .overflow))] := by
  intro l
  have hwidth : naturalWidth l.tabWidth.toNat ['\t', '\t'] = 2 ^ 64 := by decide +kernel
  refine ⟨by decide, by decide, hwidth, by decide +kernel, ?_, ?_, ?_⟩
  · rw [measure_eq (by decide +kernel), Word.check_of_le hwidth.ge]
  · rw [exact_iff (by decide +kernel), hwidth]
    exact Nat.lt_irrefl _
  · show ((ofSource 9223372036854775808 (String.ofList deepeningText)).run 4).1 = _
    unfold ofSource
    rw [String.toList_ofList]
    decide +kernel

end Lexer

end Offside
