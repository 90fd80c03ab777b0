import Offside.Binary64.Text
import Offside.Proofs.Binary64.Shortest
import Offside.Proofs.Linewise.Lexeme

/-!
# Numbers read back from their text

The plain text of a decimal is digits, a point and digits, and the digits are those of the decimal,
shifted (`Scaled.plain_spec`). So the number that the text spells lies in the interval of the number
that was written (`ofDecimal_of_denotes`), and reading it gives that number (`float?_of_text`). The
two zeros are told apart by their sign.

Integers are written with their digits and read back from them (`int?_of_text`).
-/

namespace Offside

open Token Linewise

/-! ### The digits of a decimal -/

theorem isDigits_append {ds es : List Char} (hds : ∀ c ∈ ds, c.isDigit = true)
    (hes : ∀ c ∈ es, c.isDigit = true) (hne : ds ++ es ≠ []) : isDigits (ds ++ es) = true := by
  rw [isDigits_iff]
  refine ⟨hne, fun c hc => ?_⟩
  rcases List.mem_append.mp hc with h | h
  · exact hds c h
  · exact hes c h

theorem isDigit_of_mem_zeros {n : Nat} {c : Char} (hc : c ∈ List.replicate n '0') :
    c.isDigit = true := by
  rw [List.eq_of_mem_replicate hc]
  decide

/-- A number other than zero has no zero before its digits. -/
theorem head?_toDigits {n : Nat} (hn : n ≠ 0) : (Nat.toDigits 10 n).head? ≠ some '0' := by
  induction n using Nat.strong_induction_on with
  | h n ih =>
    rw [Nat.toDigits_eq_if (by decide)]
    split_ifs with hlt
    · have hdigits : ∀ d < 10, d ≠ 0 → [Nat.digitChar d].head? ≠ some '0' := by decide
      exact hdigits n hlt hn
    · rw [List.head?_append_of_ne_nil _ Nat.toDigits_ne_nil]
      exact ih (n / 10) (by omega) (by omega)

namespace Scaled

variable {s : Scaled}

/-- **Digits at a power of ten are a decimal**: they are its coefficient, but for zeros at the end
of either, and for as many as the exponent says. -/
def Denotes (s : Scaled) (digits : Nat) (scale : Int) : Prop :=
  ∃ n w z : Nat, digits = n * 10 ^ w ∧ s.coefficient = n * 10 ^ z ∧ w + scale = z + s.exponent

/-- The digits of a decimal are those of its coefficient but for zeros at the end. -/
theorem digits_spec (hc : s.coefficient ≠ 0) :
    ∃ zeros, Nat.toDigits 10 s.coefficient = s.digits.1 ++ List.replicate zeros '0' ∧
      s.digits.1 ≠ [] ∧ s.digits.2 = s.digits.1.length + zeros + s.exponent := by
  have hsplit : Nat.toDigits 10 s.coefficient = s.digits.1 ++
      ((Nat.toDigits 10 s.coefficient).reverse.takeWhile (· == '0')).reverse := by
    unfold digits
    rw [← List.reverse_append, List.takeWhile_append_dropWhile, List.reverse_reverse]
  -- what is cut off at the end are zeros only
  have hzeros : ((Nat.toDigits 10 s.coefficient).reverse.takeWhile (· == '0')).reverse =
      List.replicate ((Nat.toDigits 10 s.coefficient).reverse.takeWhile (· == '0')).length '0' := by
    rw [List.eq_replicate_iff]
    refine ⟨List.length_reverse, fun c hc => ?_⟩
    have := List.mem_takeWhile_imp (List.mem_reverse.mp hc)
    simpa using this
  rw [hzeros] at hsplit
  refine ⟨_, hsplit, ?_, ?_⟩
  · -- a coefficient of zeros only would be zero
    intro hnil
    rw [hnil, List.nil_append] at hsplit
    have hvalue := Nat.ofDigitChars_ten_toDigits (n := s.coefficient)
    rw [hsplit, Nat.ofDigitChars_replicate_zero, Nat.mul_zero] at hvalue
    exact hc hvalue.symm
  · -- the point stands behind all digits, those that were cut off included
    have hlength := congrArg List.length hsplit
    rw [List.length_append, List.length_replicate] at hlength
    have hpoint : s.digits.2 = (Nat.toDigits 10 s.coefficient).length + s.exponent := rfl
    rw [hpoint, hlength]
    push_cast
    ring

theorem isDigit_of_mem_digits {c : Char} (hc : c ∈ s.digits.1) : c.isDigit = true := by
  unfold digits at hc
  have hmem := (List.dropWhile_suffix _).subset (List.mem_reverse.mp hc)
  exact Nat.isDigit_of_mem_toDigits (by decide) (by decide) (List.mem_reverse.mp hmem)

theorem head?_digits (hc : s.coefficient ≠ 0) : s.digits.1.head? ≠ some '0' := by
  obtain ⟨zeros, hdigits, hne, -⟩ := digits_spec hc
  have hhead := head?_toDigits hc
  rwa [hdigits, List.head?_append_of_ne_nil _ hne] at hhead

theorem coefficient_eq {zeros : Nat}
    (h : Nat.toDigits 10 s.coefficient = s.digits.1 ++ List.replicate zeros '0') :
    s.coefficient = Nat.ofDigitChars 10 s.digits.1 0 * 10 ^ zeros := by
  rw [← Nat.ofDigitChars_ten_toDigits (n := s.coefficient), h, Nat.ofDigitChars_append,
    Nat.ofDigitChars_replicate_zero, Nat.mul_comm]

/-- **The plain text of a decimal** is digits, a point and digits. Without the point they are the
decimal. -/
theorem plain_spec (hc : s.coefficient ≠ 0) :
    ∃ whole fraction, s.plain.toList = whole ++ '.' :: fraction ∧ isDigits whole = true ∧
      (whole = ['0'] ∨ whole.head? ≠ some '0') ∧ isDigits fraction = true ∧
      s.Denotes (Nat.ofDigitChars 10 (whole ++ fraction) 0) (-(fraction.length : Int)) := by
  obtain ⟨zeros, hdigits, hne, hpoint⟩ := digits_spec hc
  have hall : ∀ c ∈ s.digits.1, c.isDigit = true := fun c => isDigit_of_mem_digits
  have hcoefficient := coefficient_eq hdigits
  have hhead := head?_digits hc
  unfold plain
  generalize s.digits = d at *
  obtain ⟨ds, point⟩ := d
  dsimp only at *
  -- three ways to write the digits, by where the point stands
  split_ifs with hneg hlong
  · -- all digits stand behind the point, with zeros before them
    refine ⟨['0'], List.replicate (-point).toNat '0' ++ ds, by simp, by decide, .inl rfl,
      isDigits_append (fun _ => isDigit_of_mem_zeros) hall (by simp [hne]),
      Nat.ofDigitChars 10 ds 0, 0, zeros, ?_, hcoefficient, ?_⟩
    · rw [List.cons_append, List.nil_append, ← List.cons_append, ← List.replicate_succ,
        Nat.ofDigitChars_append, Nat.ofDigitChars_replicate_zero, Nat.mul_zero, Nat.pow_zero,
        Nat.mul_one]
    · rw [List.length_append, List.length_replicate]
      push_cast
      omega
  · -- all digits stand before it, with zeros behind them
    refine ⟨ds ++ List.replicate (point.toNat - ds.length) '0', ['0'], by simp,
      isDigits_append hall (fun _ => isDigit_of_mem_zeros) (by simp [hne]), .inr ?_, by decide,
      Nat.ofDigitChars 10 ds 0, point.toNat - ds.length + 1, zeros, ?_, hcoefficient, ?_⟩
    · rwa [List.head?_append_of_ne_nil _ hne]
    · have hjoin : List.replicate (point.toNat - ds.length) '0' ++ ['0'] =
          List.replicate (point.toNat - ds.length + 1) '0' := List.replicate_succ'.symm
      rw [List.append_assoc, hjoin, Nat.ofDigitChars_append, Nat.ofDigitChars_replicate_zero,
        Nat.mul_comm]
    · rw [List.length_singleton]
      push_cast
      omega
  · -- the point stands between them
    refine ⟨ds.take point.toNat, ds.drop point.toNat, by simp, ?_, .inr ?_, ?_,
      Nat.ofDigitChars 10 ds 0, 0, zeros, ?_, hcoefficient, ?_⟩
    · rw [isDigits_iff, Ne, List.take_eq_nil_iff, not_or]
      exact ⟨⟨by omega, hne⟩, fun c hc => hall c (List.mem_of_mem_take hc)⟩
    · rwa [List.head?_take, if_neg (by omega)]
    · rw [isDigits_iff, Ne, List.drop_eq_nil_iff]
      exact ⟨hlong, fun c hc => hall c (List.mem_of_mem_drop hc)⟩
    · rw [List.take_append_drop, Nat.pow_zero, Nat.mul_one]
    · rw [List.length_drop]
      push_cast
      omega

end Scaled

/-! ### Floating-point numbers -/

namespace Binary64

open Shortest

variable {x : Binary64}

theorem covers_iff {point : Nat} :
    covers x point = true ↔
      lower x * tenPow lift ≤ point ∧ point ≤ upper x * tenPow lift ∧
      (x.significand % 2 = 1 →
        lower x * tenPow lift < point ∧ point < upper x * tenPow lift) := by
  unfold covers
  dsimp only
  generalize lower x * tenPow lift = low
  generalize upper x * tenPow lift = high
  -- the ends of the interval belong to it exactly if the significand is even
  split_ifs with h
  · rw [Bool.and_eq_true, decide_eq_true_eq, decide_eq_true_eq]
    omega
  · rw [Bool.and_eq_true, decide_eq_true_eq, decide_eq_true_eq]
    omega

/-- What is covered on the finest grid lies in the interval, whatever quotient it is written as. -/
theorem inside_of_covers {c k n d : Nat} (hd : 0 < d)
    (h : covers x (c * (quarter * tenPow k)) = true)
    (hn : n * tenPow lift = c * tenPow k * d) : Inside x (n <<< leastExponent) d := by
  have hpow := tenPow_pos lift
  -- both sides of the quotient, scaled alike
  have hscale : 4 * (n <<< leastExponent) * tenPow lift = c * (quarter * tenPow k) * d :=
    calc 4 * (n <<< leastExponent) * tenPow lift
        = 4 * (n * 2 ^ leastExponent) * tenPow lift := by rw [Nat.shiftLeft_eq]
      _ = 4 * 2 ^ leastExponent * (n * tenPow lift) := by
          generalize tenPow lift = T
          generalize 2 ^ leastExponent = L
          ring
      _ = c * (quarter * tenPow k) * d := by
          rw [hn, ← quarter_eq]
          ring
  have hle : ∀ a, a * d ≤ 4 * (n <<< leastExponent) ↔
      a * tenPow lift ≤ c * (quarter * tenPow k) := by
    intro a
    rw [← Nat.mul_le_mul_right_iff hpow, hscale, Nat.mul_right_comm a, Nat.mul_le_mul_right_iff hd]
  have hge : ∀ a, 4 * (n <<< leastExponent) ≤ a * d ↔
      c * (quarter * tenPow k) ≤ a * tenPow lift := by
    intro a
    rw [← Nat.mul_le_mul_right_iff hpow, hscale, Nat.mul_right_comm a, Nat.mul_le_mul_right_iff hd]
  -- the comparisons of the interval are those of the grid, one by one
  obtain ⟨hlow, hhigh, hodd⟩ := covers_iff.mp h
  refine ⟨(hle _).mpr hlow, (hge _).mpr hhigh, fun h₁ => ⟨?_, ?_⟩⟩
  · rw [← Nat.not_le, hge, Nat.not_le]
    exact (hodd h₁).1
  · rw [← Nat.not_le, hle, Nat.not_le]
    exact (hodd h₁).2

theorem significand_ne_zero (hfinite : x.isFinite = true) (hzero : x.isZero = false) :
    x.significand ≠ 0 := by
  intro h
  simp [isZero, hfinite, h] at hzero

theorem magnitude_eq_zero (hzero : x.isZero = true) : x.magnitude = 0 := by
  have hsig : x.significand = 0 := by
    simp only [isZero, Bool.and_eq_true, beq_iff_eq] at hzero
    exact hzero.2
  unfold significand at hsig
  -- a normal number has a leading bit, so its field is the lowest one
  split_ifs at hsig with hfield
  · rw [magnitude, hfield, hsig]
    rfl
  · rw [fieldWeight_eq] at hsig
    omega

/-- The decimal of a number other than zero is not zero. -/
theorem coefficient_ne_zero {c k : Nat} (hsig : x.significand ≠ 0)
    (h : covers x (c * (quarter * tenPow k)) = true) : c ≠ 0 := by
  rintro rfl
  have hlow := (covers_iff.mp h).1
  rw [Nat.zero_mul] at hlow
  have hpos : 0 < lower x * tenPow lift := by
    refine Nat.mul_pos ((Nat.mul_pos ?_ (Nat.two_pow_pos _)).trans_le (le_lower x)) (tenPow_pos _)
    omega
  omega

/-- **Digits that are the shortest decimal of a number** are read as the number. -/
theorem ofDecimal_of_denotes {tie : Tie} {digits : Nat} {scale : Int} (hfinite : x.isFinite = true)
    (hsig : x.significand ≠ 0) (h : (x.shortest tie).Denotes digits scale) :
    ofDecimal x.negative digits scale = x := by
  obtain ⟨k, hk, hcovers⟩ := covers_shortest tie hsig
  obtain ⟨n, w, z, hn, hc, hexp⟩ := h
  -- the digits and the shortest decimal are one number
  have hsum : w + scale.toNat + lift = z + k + (-scale).toNat := by omega
  have hdigits : digits * tenPow scale.toNat * tenPow lift =
      (x.shortest tie).coefficient * tenPow k * tenPow (-scale).toNat :=
    calc digits * tenPow scale.toNat * tenPow lift
        = n * (10 ^ w * 10 ^ scale.toNat * 10 ^ lift) := by
          rw [hn, tenPow_eq, tenPow_eq, Nat.mul_assoc, Nat.mul_assoc, Nat.mul_assoc]
      _ = n * (10 ^ z * 10 ^ k * 10 ^ (-scale).toNat) := by
          rw [← Nat.pow_add, ← Nat.pow_add, hsum, Nat.pow_add, Nat.pow_add]
      _ = (x.shortest tie).coefficient * tenPow k * tenPow (-scale).toNat := by
          rw [hc, tenPow_eq, tenPow_eq, Nat.mul_assoc, Nat.mul_assoc, Nat.mul_assoc]
  have hd := tenPow_pos (-scale).toNat
  rw [ofDecimal, ofRatio, magnitudeBits_eq hd hfinite (inside_of_covers hd hcovers hdigits),
    ofMagnitude_magnitude]

/-- No digits are zero, with the sign that they have. -/
theorem ofDecimal_zero (hzero : x.isZero = true) (scale : Int) :
    ofDecimal x.negative 0 scale = x := by
  have hbits : ∀ d, 0 < d → magnitudeBits (0 <<< leastExponent) d = x.magnitude := by
    intro d hd
    rw [magnitude_eq_zero hzero]
    simp [magnitudeBits, roundDiv, hd]
  rw [ofDecimal, ofRatio, Nat.zero_mul, hbits _ (tenPow_pos _), ofMagnitude_magnitude]

theorem signText_toList : x.signText.toList = if x.negative then ['-'] else [] := by
  unfold signText
  split_ifs <;> rfl

/-- A numeral with a point. -/
theorem chars_of_fraction {numeral : Numeral} (h : isDigits numeral.fraction = true) :
    numeral.chars = (if numeral.negative then ['-'] else []) ++
      (numeral.whole ++ '.' :: numeral.fraction) := by
  have hne : numeral.fraction.isEmpty = false := by simpa using (isDigits_iff.mp h).1
  rw [Numeral.chars, hne, List.append_assoc]
  rfl

/-- **The plain text of a finite number** spells a numeral, and the value of the numeral is the
number. -/
theorem float?_of_text (hfinite : x.isFinite = true) :
    ∃ numeral : Numeral, x.text.toList = numeral.chars ∧ isDigits numeral.whole = true ∧
      isDigits numeral.fraction = true ∧ numeral.float? = some x := by
  -- a numeral is read as the value that it rounds to, if that is finite
  have hvalue : ∀ numeral : Numeral, ofDecimal numeral.negative
      (Nat.ofDigitChars 10 (numeral.whole ++ numeral.fraction) 0)
      (-(numeral.fraction.length : Int)) = x → numeral.float? = some x := by
    intro numeral h
    unfold Numeral.float?
    dsimp only
    rw [h, if_pos hfinite]
  have hnan : x.isNaN = false := by
    have hfield : x.exponentField ≠ topField := by simpa [isFinite] using hfinite
    simp [isNaN, hfield]
  unfold text
  rw [hnan, hfinite]
  simp only [Bool.false_eq_true, if_false, Bool.not_true]
  by_cases hzero : x.isZero = true
  · -- the sign tells the two zeros apart
    refine ⟨⟨x.negative, ['0'], ['0']⟩, ?_, rfl, rfl, hvalue _ (ofDecimal_zero hzero _)⟩
    rw [if_pos hzero, String.toList_append, signText_toList, chars_of_fraction rfl]
    rfl
  · rw [Bool.not_eq_true] at hzero
    have hsig := significand_ne_zero hfinite hzero
    -- the digits are within the interval of the number, so they round back to it
    obtain ⟨k, -, hcovers⟩ := covers_shortest .up hsig
    obtain ⟨whole, fraction, hplain, hwhole, -, hfraction, hdenotes⟩ :=
      Scaled.plain_spec (coefficient_ne_zero hsig hcovers)
    refine ⟨⟨x.negative, whole, fraction⟩, ?_, hwhole, hfraction,
      hvalue _ (ofDecimal_of_denotes hfinite hsig hdenotes)⟩
    rw [hzero, if_neg (by simp), String.toList_append, signText_toList,
      chars_of_fraction hfraction, hplain]

end Binary64

/-! ### Integers -/

/-- The text of an integer is its sign and its digits. -/
theorem toList_toString_int (n : Int) :
    (toString n).toList = (if n < 0 then ['-'] else []) ++ Nat.toDigits 10 n.natAbs := by
  cases n with
  | ofNat m =>
    change (toString m).toList = _
    simp
  | negSucc m =>
    change ("-" ++ toString (m + 1)).toList = _
    simp

theorem isDigits_toDigits (m : Nat) : isDigits (Nat.toDigits 10 m) = true :=
  isDigits_iff.mpr ⟨Nat.toDigits_ne_nil, fun _ hc =>
    Nat.isDigit_of_mem_toDigits (by decide) (by decide) hc⟩

/-- **The text of an integer** spells a numeral, and the value of the numeral is the integer. -/
theorem int?_of_text (n : Int64) :
    ∃ numeral : Numeral, (toString n.toInt).toList = numeral.chars ∧
      isDigits numeral.whole = true ∧ numeral.fraction = [] ∧ numeral.int? = some n := by
  have hrange : Int64.minValue.toInt ≤ n.toInt ∧ n.toInt ≤ Int64.maxValue.toInt :=
    ⟨n.minValue_le_toInt, n.toInt_le⟩
  refine ⟨⟨decide (n.toInt < 0), Nat.toDigits 10 n.toInt.natAbs, []⟩, ?_, isDigits_toDigits _,
    rfl, ?_⟩
  · -- the text is the sign and the digits of the absolute value
    rw [toList_toString_int, Numeral.chars]
    simp
  · -- every word is in range, so a numeral with that value has it
    have hvalue : (if n.toInt < 0 then -(n.toInt.natAbs : Int) else n.toInt.natAbs) = n.toInt := by
      split_ifs <;> omega
    unfold Numeral.int?
    simp only [decide_eq_true_eq, Nat.ofDigitChars_ten_toDigits]
    rw [hvalue, if_pos hrange, Int64.ofInt_toInt]

/-! ### Numerals as lexemes -/

/-- A numeral is spelled by its characters. -/
theorem numeral?_chars {numeral : Numeral} (hwhole : isDigits numeral.whole = true)
    (hfraction : ∀ c ∈ numeral.fraction, c.isDigit = true) :
    numeral? true numeral.chars = some numeral := by
  have hunsigned : unsigned? numeral.negative (magnitude numeral) = some numeral :=
    unsigned?_eq_some.mpr ⟨rfl, hwhole, hfraction, rfl⟩
  rw [chars_eq]
  cases hneg : numeral.negative with
  | true =>
    rw [hneg] at hunsigned
    exact hunsigned
  | false =>
    -- the first character is a digit, so no sign is taken off
    obtain ⟨c, cs, hcs, hc⟩ := magnitude_first hunsigned
    rw [hneg] at hunsigned
    simp only [Bool.false_eq_true, if_false, List.nil_append]
    rw [hcs] at hunsigned ⊢
    rw [numeral?_cons cs (ne_minus_of_isDigit hc), hunsigned]

theorem meaning?_chars {numeral : Numeral} (hwhole : isDigits numeral.whole = true)
    (hfraction : ∀ c ∈ numeral.fraction, c.isDigit = true) :
    meaning? true numeral.chars = some (ofNumeral numeral) := by
  rw [meaning?, numeral?_chars hwhole hfraction]

/-- **A finite number is read back from its text.** -/
theorem meaning?_float {x : Binary64} (hfinite : x.isFinite = true) :
    meaning? true x.text.toList = some (.ok (.floatLiteral, some (.float x))) := by
  obtain ⟨numeral, hchars, hwhole, hfraction, hvalue⟩ := Binary64.float?_of_text hfinite
  obtain ⟨hne, hdigits⟩ := isDigits_iff.mp hfraction
  have hempty : numeral.fraction.isEmpty = false := by simpa using hne
  rw [hchars, meaning?_chars hwhole hdigits, ofNumeral, Numeral.value?, hempty]
  simp only [Bool.false_eq_true, if_false, hvalue, Option.map_some]

/-- **An integer is read back from its text.** -/
theorem meaning?_int (n : Int64) :
    meaning? true (toString n.toInt).toList = some (.ok (.intLiteral, some (.int n))) := by
  obtain ⟨numeral, hchars, hwhole, hfraction, hvalue⟩ := int?_of_text n
  rw [hchars, meaning?_chars hwhole (by simp [hfraction]), ofNumeral, Numeral.value?, hfraction]
  simp only [List.isEmpty_nil, if_true, hvalue, Option.map_some]

end Offside
