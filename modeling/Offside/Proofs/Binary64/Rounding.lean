import Mathlib.Tactic.Linarith
import Mathlib.Tactic.Ring
import Offside.Binary64.Shortest

/-!
# Rounding to a binary64 number

A finite number is the value of every quotient in the interval around it, with its ends if the
significand is even (`magnitudeBits_eq`). The interval is the one that `Shortest.lower` and
`Shortest.upper` give: half a step to both sides, but a quarter of a step below a power of two,
where the numbers lie twice as dense. There the quotient has one leading bit less than the number,
and it is the rounding that carries it over.
-/

namespace Offside.Binary64

open Shortest

/-! ### Sign, field and fraction -/

section Fields

variable (x : Binary64)

theorem fieldWeight_eq : fieldWeight = 2 ^ 52 := rfl

theorem fraction_lt : x.fraction < 2 ^ 52 := Nat.mod_lt _ (by decide)

theorem exponentField_lt : x.exponentField < 2 ^ 11 := Nat.mod_lt _ (by decide)

/-- The bits below the sign. -/
def magnitude : Nat := x.exponentField * fieldWeight + x.fraction

theorem bits_eq : x.bits.toNat = (if x.negative then signWeight else 0) + x.magnitude := by
  have hlt : x.bits.toNat < 2 ^ 64 := x.bits.toNat_lt
  have hfield : fieldWeight = 4503599627370496 := rfl
  have hsign : signWeight = 9223372036854775808 := rfl
  have htop : topField + 1 = 2048 := rfl
  unfold magnitude exponentField fraction negative
  rw [hfield, hsign, htop]
  -- the sign is the highest bit; what is below it splits into field and fraction
  by_cases h : 9223372036854775808 ≤ x.bits.toNat
  · simp only [h, decide_true, if_true]
    omega
  · simp only [h, decide_false, Bool.false_eq_true, if_false]
    omega

/-- **A number is its sign and its magnitude.** -/
theorem ofMagnitude_magnitude : ofMagnitude x.negative x.magnitude = x := by
  have hbits := bits_eq x
  have heq : (if x.negative then signWeight + x.magnitude else x.magnitude) = x.bits.toNat := by
    rw [hbits]
    split_ifs <;> simp
  unfold ofMagnitude
  rw [heq, UInt64.ofNat_toNat]

end Fields

/-! ### Division to the nearest integer -/

/-- The nearest integer is the one at most half away, and the even one of two. -/
theorem roundDiv_eq {n d q : Nat} (hd : 0 < d) (hlow : 2 * (q * d) ≤ 2 * n + d)
    (hhigh : 2 * n ≤ 2 * (q * d) + d)
    (hodd : q % 2 = 1 → 2 * (q * d) < 2 * n + d ∧ 2 * n < 2 * (q * d) + d) :
    roundDiv n d = q := by
  have hdiv := Nat.div_add_mod n d
  have hmod := Nat.mod_lt n hd
  unfold roundDiv
  dsimp only
  -- the quotient rounded down is either the nearest integer or the one before it
  by_cases hq : q * d ≤ n
  · have hfloor : n / d = q := Nat.div_eq_of_lt_le hq (by rw [Nat.add_mul]; omega)
    rw [hfloor] at hdiv ⊢
    rw [Nat.mul_comm] at hdiv
    split_ifs with h₁ h₂ h₃ <;> omega
  · -- just below: the quotient is one less, and rounds up
    obtain ⟨p, rfl⟩ : ∃ p, q = p + 1 := by
      refine ⟨q - 1, ?_⟩
      have : q ≠ 0 := by
        rintro rfl
        exact hq (by simp)
      omega
    rw [Nat.add_mul, Nat.one_mul] at *
    have hfloor : n / d = p := Nat.div_eq_of_lt_le (by omega) (by rw [Nat.add_mul]; omega)
    rw [hfloor] at hdiv ⊢
    rw [Nat.mul_comm] at hdiv
    split_ifs with h₁ h₂ h₃ <;> omega

/-! ### The interval of a number -/

/-- The quotient `n / d` of units lies in the interval around a number; on its ends only if the
significand is even. -/
structure Inside (x : Binary64) (n d : Nat) : Prop where
  low : lower x * d ≤ 4 * n
  high : 4 * n ≤ upper x * d
  odd : x.significand % 2 = 1 → lower x * d < 4 * n ∧ 4 * n < upper x * d

theorem significand_lt (x : Binary64) : x.significand < 2 ^ 53 := by
  have := fraction_lt x
  unfold significand
  rw [fieldWeight_eq]
  split_ifs <;> omega

theorem upper_eq (x : Binary64) : upper x = (4 * x.significand + 2) * 2 ^ x.scale :=
  Nat.shiftLeft_eq _ _

/-- The lower end is at most half a step away. -/
theorem le_lower (x : Binary64) : (4 * x.significand - 2) * 2 ^ x.scale ≤ lower x := by
  unfold lower
  rw [Nat.shiftLeft_eq, Nat.shiftLeft_eq]
  split_ifs
  · exact Nat.mul_le_mul_right _ (by omega)
  · exact le_rfl

theorem log2_eq {n d k : Nat} (hd : 0 < d) (hlow : 2 ^ k * d ≤ n) (hhigh : n < 2 ^ (k + 1) * d) :
    (n / d).log2 = k := by
  have hle : 2 ^ k ≤ n / d := (Nat.le_div_iff_mul_le hd).mpr hlow
  have hlt : n / d < 2 ^ (k + 1) := (Nat.div_lt_iff_lt_mul hd).mpr hhigh
  exact (Nat.log2_eq_iff (by have := Nat.two_pow_pos k; omega)).mpr ⟨hle, hlt⟩

section Interval

variable {x : Binary64} {n d : Nat}

/-- On the grid of the number itself the quotient rounds to the significand. -/
theorem roundDiv_inside (hd : 0 < d) (h : Inside x n d) :
    roundDiv n (d * 2 ^ x.scale) = x.significand := by
  have hstep : 0 < d * 2 ^ x.scale := Nat.mul_pos hd (Nat.two_pow_pos _)
  -- the interval around the significand, scaled to quarters of its last place
  have hlow : (4 * x.significand - 2) * (d * 2 ^ x.scale) ≤ lower x * d := by
    have := Nat.mul_le_mul_right d (le_lower x)
    rwa [Nat.mul_assoc, Nat.mul_comm (2 ^ x.scale)] at this
  have hhigh : upper x * d = (4 * x.significand + 2) * (d * 2 ^ x.scale) := by
    rw [upper_eq, Nat.mul_assoc, Nat.mul_comm (2 ^ x.scale)]
  have hsub : 4 * (x.significand * (d * 2 ^ x.scale)) ≤
      (4 * x.significand - 2) * (d * 2 ^ x.scale) + 2 * (d * 2 ^ x.scale) := by
    rw [← Nat.add_mul, ← Nat.mul_assoc]
    exact Nat.mul_le_mul_right _ (by omega)
  rw [Nat.add_mul, Nat.mul_assoc] at hhigh
  have h₁ := h.low
  have h₂ := h.high
  -- at most half a place on either side, and less than that if the significand is odd
  refine roundDiv_eq hstep (by omega) (by omega) fun hodd => ?_
  have h₃ := h.odd hodd
  omega

/-- Every number is below infinity. -/
theorem magnitude_lt (hx : x.isFinite = true) : x.magnitude < topField * fieldWeight := by
  have hf := fraction_lt x
  have he := exponentField_lt x
  have hne : x.exponentField ≠ topField := by simpa [isFinite] using hx
  have hle : x.exponentField + 1 ≤ topField := by
    simp only [topField] at hne ⊢
    omega
  -- the fields of a number that is finite stop one before the top
  have hmul := Nat.mul_le_mul_right fieldWeight hle
  rw [Nat.add_mul, Nat.one_mul] at hmul
  unfold magnitude
  rw [fieldWeight_eq] at *
  omega

/-- The bits of a magnitude, once it is known by how much it is scaled. -/
theorem magnitudeBits_of_shift {shift q : Nat} (hx : x.isFinite = true)
    (hshift : (n / d).log2 - 52 = shift) (hround : roundDiv n (d * 2 ^ shift) = q)
    (hbits : shift * fieldWeight + q = x.magnitude) : magnitudeBits n d = x.magnitude := by
  unfold magnitudeBits
  dsimp only
  rw [hshift, Nat.shiftLeft_eq, hround, hbits]
  exact Nat.min_eq_left (magnitude_lt hx).le

/-- The quotient is less than one power of two above the significand. -/
theorem lt_of_inside (hd : 0 < d) (h : Inside x n d) : n < 2 ^ (53 + x.scale) * d := by
  have hm := significand_lt x
  have hhigh := h.high
  -- even the upper end of the interval is below the next power of two
  have hle : (4 * x.significand + 2) * 2 ^ x.scale * d < 4 * (2 ^ 53 * 2 ^ x.scale * d) := by
    have hpos : 0 < 2 ^ x.scale * d := Nat.mul_pos (Nat.two_pow_pos _) hd
    calc (4 * x.significand + 2) * 2 ^ x.scale * d
        = (4 * x.significand + 2) * (2 ^ x.scale * d) := Nat.mul_assoc _ _ _
      _ < 4 * 2 ^ 53 * (2 ^ x.scale * d) := Nat.mul_lt_mul_of_pos_right (by omega) hpos
      _ = 4 * (2 ^ 53 * 2 ^ x.scale * d) := by ring
  rw [upper_eq] at hhigh
  rw [Nat.pow_add]
  omega

/-- Quotients that round to a multiple of the least number: subnormal ones, and those of the first
power of two, whose step is the same. -/
theorem magnitudeBits_of_small (hd : 0 < d) (hx : x.isFinite = true) (h : Inside x n d)
    (he : x.exponentField ≤ 1) : magnitudeBits n d = x.magnitude := by
  have hscale : x.scale = 0 := by
    unfold scale
    omega
  have hlt := lt_of_inside hd h
  have hround := roundDiv_inside hd h
  rw [hscale] at hlt hround
  -- so small a quotient is not scaled at all
  have hlog : (n / d).log2 - 52 = 0 := by
    have hdiv : n / d < 2 ^ 53 := (Nat.div_lt_iff_lt_mul hd).mpr hlt
    by_cases hzero : n / d = 0
    · rw [hzero]
      rfl
    · have := (Nat.log2_lt hzero).mpr hdiv
      omega
  refine magnitudeBits_of_shift hx hlog hround ?_
  unfold significand magnitude
  split_ifs with hfield
  · rw [hfield]
  · rw [show x.exponentField = 1 by omega, Nat.zero_mul, Nat.zero_add, Nat.one_mul]

/-- Quotients with as many leading bits as the number. -/
theorem magnitudeBits_of_normal (hd : 0 < d) (hx : x.isFinite = true) (h : Inside x n d)
    (he : 1 < x.exponentField) (hn : 2 ^ (52 + x.scale) * d ≤ n) :
    magnitudeBits n d = x.magnitude := by
  have hhigh : n < 2 ^ (52 + x.scale + 1) * d := by
    rw [Nat.add_right_comm]
    exact lt_of_inside hd h
  -- the quotient lies between two neighbouring powers of two, which fixes its logarithm
  have hlog := log2_eq hd hn hhigh
  refine magnitudeBits_of_shift hx (by rw [hlog]; omega) (roundDiv_inside hd h) ?_
  obtain ⟨e, hfield⟩ : ∃ e, x.exponentField = e + 1 := ⟨x.exponentField - 1, by omega⟩
  unfold significand magnitude scale
  rw [if_neg (by omega), hfield, Nat.add_sub_cancel, Nat.add_mul, Nat.one_mul, Nat.add_assoc]

theorem significand_of_normal (he : 1 < x.exponentField) :
    x.significand = 2 ^ 52 + x.fraction := by
  unfold significand
  rw [if_neg (by omega), fieldWeight_eq]

/-- A number with quotients of its interval that have one leading bit less is a power of two: any
other number is half a step or more above the next one. -/
theorem fraction_eq_zero_of_lt (h : Inside x n d) (he : 1 < x.exponentField)
    (hn : n < 2 ^ (52 + x.scale) * d) : x.fraction = 0 := by
  by_contra hne
  have hm := significand_of_normal he
  have hlow := h.low
  -- with a fraction, even the lower end would be above the power of two
  have hle : (4 * (2 ^ 52 + 1) - 2) * (2 ^ x.scale * d) ≤ lower x * d :=
    calc (4 * (2 ^ 52 + 1) - 2) * (2 ^ x.scale * d)
        ≤ (4 * x.significand - 2) * (2 ^ x.scale * d) := Nat.mul_le_mul_right _ (by omega)
      _ = (4 * x.significand - 2) * 2 ^ x.scale * d := (Nat.mul_assoc _ _ _).symm
      _ ≤ lower x * d := Nat.mul_le_mul_right d (le_lower x)
  rw [Nat.pow_add, Nat.mul_assoc] at hn
  omega

/-- Quotients just below a power of two have one leading bit less, and round up to it. -/
theorem magnitudeBits_of_below (hd : 0 < d) (hx : x.isFinite = true) (h : Inside x n d)
    (he : 1 < x.exponentField) (hn : n < 2 ^ (52 + x.scale) * d) :
    magnitudeBits n d = x.magnitude := by
  have hfrac := fraction_eq_zero_of_lt h he hn
  have hm := significand_of_normal he
  have hlow := h.low
  -- all terms are multiples of the step below the number, which is half its own
  obtain ⟨t, hscale⟩ : ∃ t, x.scale = t + 1 := ⟨x.exponentField - 2, by unfold scale; omega⟩
  have hstep : 0 < d * 2 ^ t := Nat.mul_pos hd (Nat.two_pow_pos _)
  have hbelow : n < 2 ^ 53 * (d * 2 ^ t) := by
    rw [hscale] at hn
    calc n < 2 ^ (52 + (t + 1)) * d := hn
      _ = 2 ^ 53 * (d * 2 ^ t) := by ring
  have hlower : lower x * d = (2 ^ 54 - 1) * (2 * (d * 2 ^ t)) := by
    have hpow : 2 ^ (t + 1) * d = 2 * (d * 2 ^ t) := by ring
    unfold lower
    rw [if_pos ⟨hfrac, he⟩, Nat.shiftLeft_eq, hm, hfrac, hscale, Nat.mul_assoc, hpow]
    norm_num
  rw [hlower] at hlow
  have hlog : (n / d).log2 = 52 + t := by
    refine log2_eq hd ?_ ?_
    · rw [show 2 ^ (52 + t) * d = 2 ^ 52 * (d * 2 ^ t) by ring]
      omega
    · rw [show 2 ^ (52 + t + 1) * d = 2 ^ 53 * (d * 2 ^ t) by ring]
      exact hbelow
  -- the rounding carries into the exponent field
  have hround : roundDiv n (d * 2 ^ t) = 2 ^ 53 := by
    refine roundDiv_eq hstep (by omega) (by omega) fun hodd => ?_
    omega
  refine magnitudeBits_of_shift hx (by rw [hlog]; omega) hround ?_
  unfold magnitude scale at *
  rw [hfrac, fieldWeight_eq]
  omega

/-- **Everything inside the interval of a number rounds to it.** -/
theorem magnitudeBits_eq (hd : 0 < d) (hx : x.isFinite = true) (h : Inside x n d) :
    magnitudeBits n d = x.magnitude := by
  by_cases he : x.exponentField ≤ 1
  · exact magnitudeBits_of_small hd hx h he
  · by_cases hn : 2 ^ (52 + x.scale) * d ≤ n
    · exact magnitudeBits_of_normal hd hx h (by omega) hn
    · exact magnitudeBits_of_below hd hx h (by omega) (by omega)

end Interval

end Offside.Binary64
