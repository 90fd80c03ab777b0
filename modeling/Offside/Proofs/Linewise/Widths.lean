import Mathlib.Data.List.Basic
import Offside.Proofs.Linewise.Reading

/-!
# Measuring an indentation

The lexer measures an indentation blank by blank, in words of 64 bits, and every operation on the
way is checked. What it comes to depends on the last width alone. Natural widths only grow
(`le_widen`), so if the natural width of the whole indentation is a word, then so is every width
before it, and otherwise some operation is a trap.

* `Layout.advance_eq` — one blank more;
* `Layout.foldlM_advance` — a whole indentation comes to its natural width, if that is a word.
-/

namespace Offside

/-! ### Checked words -/

namespace Word

theorem check_of_lt {n : Nat} (h : n < 2 ^ 64) : check n = .ok (UInt64.ofNat n) := if_pos h

theorem check_of_le {n : Nat} (h : 2 ^ 64 ≤ n) : check n = .error .overflow :=
  if_neg (Nat.not_lt.mpr h)

theorem check_toNat (w : UInt64) : check w.toNat = .ok w := by
  rw [check_of_lt (UInt64.toNat_lt w), UInt64.ofNat_toNat]

theorem check_eq_overflow_iff {n : Nat} : check n = .error .overflow ↔ 2 ^ 64 ≤ n := by
  refine ⟨fun h => ?_, check_of_le⟩
  by_contra hlt
  rw [check_of_lt (Nat.not_le.mp hlt)] at h
  cases h

theorem check_ne_divisionByZero (n : Nat) : check n ≠ .error .divisionByZero := by
  unfold check
  split_ifs <;> intro h <;> cases h

end Word

/-! ### Natural widths -/

namespace Linewise

variable {tab : Nat}

/-- A tab goes on to the next multiple of the tab width. -/
theorem widen_tab (htab : 0 < tab) (width : Nat) :
    widen tab width '\t' = width + (tab - width % tab) := by
  have hdiv := Nat.div_add_mod width tab
  have hmod := Nat.mod_lt width htab
  have hwiden : widen tab width '\t' = (width / tab + 1) * tab := rfl
  rw [hwiden, Nat.add_mul, Nat.one_mul, Nat.mul_comm]
  omega

theorem le_widen (htab : 0 < tab) (width : Nat) (c : Char) : width ≤ widen tab width c := by
  by_cases hc : c = '\t'
  · rw [hc, widen_tab htab]
    exact Nat.le_add_right _ _
  · unfold widen
    rw [if_neg hc]
    split <;> omega

theorem le_foldl_widen (htab : 0 < tab) (width : Nat) (margin : List Char) :
    width ≤ margin.foldl (widen tab) width := by
  induction margin generalizing width with
  | nil => exact le_rfl
  | cons c margin ih => exact (le_widen htab width c).trans (ih (widen tab width c))

end Linewise

/-! ### Widths in words -/

namespace Layout

open Linewise

variable {tabWidth : UInt64}

/-- A tab is a trap exactly if the next tab stop is no word. -/
theorem advance_tab (htab : 0 < tabWidth.toNat) (width : UInt64) :
    advance tabWidth width '\t' = Word.check (widen tabWidth.toNat width.toNat '\t') := by
  have hne : tabWidth ≠ 0 := by
    rintro rfl
    exact Nat.lt_irrefl 0 htab
  have hdiv : Word.div width tabWidth = .ok (width / tabWidth) := if_neg hne
  have hadd : Word.add (width / tabWidth) 1 =
      Word.check (width.toNat / tabWidth.toNat + 1) := by
    rw [Word.add, UInt64.toNat_div, UInt64.toNat_one]
  -- a division, an addition and a multiplication, of which the first cannot trap
  have hsteps : advance tabWidth width '\t' =
      Word.check (width.toNat / tabWidth.toNat + 1) >>= (Word.mul · tabWidth) := by
    change Word.div width tabWidth >>= _ = _
    rw [hdiv, ← hadd]
    rfl
  rw [hsteps]
  by_cases hfits : width.toNat / tabWidth.toNat + 1 < 2 ^ 64
  · -- the number of the stop is a word, so the multiplication decides
    have hmul : Word.mul (UInt64.ofNat (width.toNat / tabWidth.toNat + 1)) tabWidth =
        Word.check (widen tabWidth.toNat width.toNat '\t') := by
      rw [Word.mul, UInt64.toNat_ofNat_of_lt' hfits]
      rfl
    rw [Word.check_of_lt hfits]
    exact hmul
  · -- the place of a stop is at least its number
    have hle : width.toNat / tabWidth.toNat + 1 ≤ widen tabWidth.toNat width.toNat '\t' :=
      Nat.le_mul_of_pos_right _ htab
    rw [Word.check_of_le (Nat.not_lt.mp hfits),
      Word.check_of_le ((Nat.not_lt.mp hfits).trans hle)]
    rfl

/-- **A blank is a trap exactly if the width behind it is no word.** -/
theorem advance_eq (htab : 0 < tabWidth.toNat) (width : UInt64) (c : Char) :
    advance tabWidth width c = Word.check (widen tabWidth.toNat width.toNat c) := by
  by_cases hspace : c = ' '
  · rw [hspace]
    rfl
  by_cases hc : c = '\t'
  · rw [hc]
    exact advance_tab htab width
  · rw [widen, advance, if_neg hspace, if_neg hc, if_neg hspace, if_neg hc, Word.check_toNat]

/-- **An indentation is a trap exactly if its natural width is no word**, and then it is an
overflow. -/
theorem foldlM_advance (htab : 0 < tabWidth.toNat) (margin : List Char) (width : UInt64) :
    margin.foldlM (advance tabWidth) width =
      Word.check (margin.foldl (widen tabWidth.toNat) width.toNat) := by
  induction margin generalizing width with
  | nil => exact (Word.check_toNat width).symm
  | cons c margin ih =>
    rw [List.foldlM_cons, advance_eq htab, List.foldl_cons]
    by_cases hfits : widen tabWidth.toNat width.toNat c < 2 ^ 64
    · have hmore := ih (UInt64.ofNat (widen tabWidth.toNat width.toNat c))
      rw [UInt64.toNat_ofNat_of_lt' hfits] at hmore
      rw [Word.check_of_lt hfits]
      exact hmore
    · -- what is no word here is none at the end either
      have hend := (Nat.not_lt.mp hfits).trans (le_foldl_widen htab _ margin)
      rw [Word.check_of_le (Nat.not_lt.mp hfits), Word.check_of_le hend]
      rfl

end Layout

end Offside
