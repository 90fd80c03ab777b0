import Offside.Proofs.Binary64.Rounding

/-!
# Seventeen digits suffice

Whatever decimal is found for a number lies in the interval of the number, since that is what is
asked of it (`candidate_spec`). One is found with seventeen digits at the latest: the grid of that
many digits is finer than the interval is wide, for `2 ^ 55 < 4 * 10 ^ 16`, and at a power of two,
where the interval is shorter, `2 ^ 54 < 3 * 10 ^ 16` (`step_lt`).
-/

namespace Offside.Shortest

open Binary64

section Grid

variable {x : Binary64}

theorem tenPow_eq (n : Nat) : tenPow n = 10 ^ n := rfl

theorem tenPow_pos (n : Nat) : 0 < tenPow n := Nat.pow_pos (by decide)

theorem quarter_eq : quarter = 4 * 2 ^ leastExponent := by decide +kernel

theorem middle_eq (x : Binary64) : middle x = 4 * x.significand * 2 ^ x.scale := by
  rw [middle, units, Nat.shiftLeft_eq, Nat.mul_assoc]

/-- The digits before the point, counted from the left end of the widest grid. -/
def span (x : Binary64) : Nat := (Nat.toDigits 10 (middle x * tenPow lift / quarter)).length

/-- The least number has twenty-seven digits on that grid. -/
theorem lt_span (hx : x.significand ≠ 0) : 26 < span x := by
  have hpow : tenPow 26 * quarter ≤ 4 * tenPow lift := by decide +kernel
  have hmiddle : 4 ≤ middle x := by
    have : 0 < x.significand * 2 ^ x.scale :=
      Nat.mul_pos (Nat.pos_of_ne_zero hx) (Nat.two_pow_pos _)
    rw [middle_eq, Nat.mul_assoc]
    omega
  -- a number has at least four quarters, and four of them have that many digits
  have hle : tenPow 26 ≤ middle x * tenPow lift / quarter := by
    rw [Nat.le_div_iff_mul_le (by decide +kernel)]
    exact hpow.trans (Nat.mul_le_mul_right _ hmiddle)
  by_contra hlt
  have hdigits := (Nat.length_toDigits_le_iff (by decide) (by decide)).mp (Nat.not_lt.mp hlt)
  rw [tenPow_eq] at hle
  exact absurd hle (Nat.not_le.mpr hdigits)

/-- A number is at least as large as the power of ten with as many digits. -/
theorem quarter_mul_le (hx : x.significand ≠ 0) :
    quarter * tenPow (span x - 1) ≤ middle x * tenPow lift := by
  have hspan := lt_span hx
  have hnot : ¬ (Nat.toDigits 10 (middle x * tenPow lift / quarter)).length ≤ span x - 1 := by
    change ¬ span x ≤ span x - 1
    omega
  rw [Nat.length_toDigits_le_iff (by decide) (by omega)] at hnot
  have hle := Nat.mul_le_mul_left quarter (Nat.not_lt.mp hnot)
  exact hle.trans (Nat.mul_div_le _ _)

end Grid

/-! ### Candidates -/

section Candidate

variable {tie : Tie} {x : Binary64} {count : Nat}

/-- The distance of two grid points with that many digits. -/
def step (x : Binary64) (count : Nat) : Nat :=
  quarter * tenPow (order x - count + lift).toNat

theorem step_eq (hcount : count ≤ span x) : step x count = quarter * tenPow (span x - count) := by
  have hexp : order x - count + lift = ((span x - count : Nat) : Int) := by
    change (span x : Int) - lift - count + lift = _
    omega
  rw [step, hexp, Int.toNat_natCast]

/-- **A candidate lies in the interval of its number.** -/
theorem candidate_spec {s : Scaled} (h : candidate tie x count = some s) :
    s.exponent = order x - count ∧ covers x (s.coefficient * step x count) = true := by
  unfold candidate at h
  dsimp only at h
  rw [← step] at h
  -- both neighbours on the grid are tried, and only those that are covered are taken
  split at h
  case h_1 hbelow habove =>
    -- both are covered: the nearer one is taken, and in a tie the one that the rule says
    split_ifs at h
    · cases h
      exact ⟨rfl, hbelow⟩
    · cases h
      exact ⟨rfl, habove⟩
    · cases tie with
      | up =>
        cases h
        exact ⟨rfl, habove⟩
      | even =>
        cases h
        exact ⟨rfl, hbelow⟩
    · cases tie <;>
      · cases h
        exact ⟨rfl, habove⟩
  case h_2 hbelow _ =>
    cases h
    exact ⟨rfl, hbelow⟩
  case h_3 _ habove =>
    cases h
    exact ⟨rfl, habove⟩
  case h_4 => exact absurd h (by simp)

theorem candidate_eq_none (h : candidate tie x count = none) :
    covers x (middle x * tenPow lift / step x count * step x count) = false ∧
      covers x ((middle x * tenPow lift / step x count + 1) * step x count) = false := by
  unfold candidate at h
  dsimp only at h
  rw [← step] at h
  -- a neighbour that is covered would have been taken
  split at h
  case h_1 =>
    split_ifs at h <;> cases tie <;> exact absurd h (by simp)
  case h_2 => exact absurd h (by simp)
  case h_3 => exact absurd h (by simp)
  case h_4 hbelow habove => exact ⟨hbelow, habove⟩

/-- What lies strictly between the ends is covered. -/
theorem covers_of_lt {point : Nat} (hlow : lower x * tenPow lift < point)
    (hhigh : point < upper x * tenPow lift) : covers x point = true := by
  unfold covers
  dsimp only
  split_ifs <;> simp [hlow, hhigh, hlow.le, hhigh.le]

theorem lower_lt_middle (hx : x.significand ≠ 0) : lower x < middle x := by
  have hpow := Nat.two_pow_pos x.scale
  rw [middle_eq]
  unfold lower
  rw [Nat.shiftLeft_eq, Nat.shiftLeft_eq]
  split_ifs <;> exact Nat.mul_lt_mul_of_pos_right (by omega) hpow

theorem middle_lt_upper (x : Binary64) : middle x < upper x := by
  rw [middle_eq, upper_eq]
  exact Nat.mul_lt_mul_of_pos_right (by omega) (Nat.two_pow_pos _)

/-- A grid finer than the interval is wide has a point of the interval next to the number. -/
theorem candidate_ne_none (hx : x.significand ≠ 0) (hpos : 0 < step x count)
    (hfine : lower x * tenPow lift + step x count < upper x * tenPow lift) :
    candidate tie x count ≠ none := by
  intro hnone
  obtain ⟨hbelow, habove⟩ := candidate_eq_none hnone
  have hpow := tenPow_pos lift
  have hlow := Nat.mul_lt_mul_of_pos_right (lower_lt_middle hx) hpow
  have hhigh := Nat.mul_lt_mul_of_pos_right (middle_lt_upper x) hpow
  have hdiv := Nat.div_add_mod' (middle x * tenPow lift) (step x count)
  have hmod := Nat.mod_lt (middle x * tenPow lift) hpos
  rw [Nat.add_mul, Nat.one_mul] at habove
  -- the point below the number is left of the interval, the one above is right of it
  have hleft : middle x * tenPow lift / step x count * step x count ≤ lower x * tenPow lift := by
    by_contra hlt
    rw [covers_of_lt (by omega) (by omega)] at hbelow
    exact absurd hbelow (by simp)
  have hright : upper x * tenPow lift ≤
      middle x * tenPow lift / step x count * step x count + step x count := by
    by_contra hlt
    rw [covers_of_lt (by omega) (by omega)] at habove
    exact absurd habove (by simp)
  omega

/-- The width of the interval, in steps of the number: four quarters, or three above a power of
two, where the significand is the least normal one. -/
theorem exists_width (hx : x.significand ≠ 0) :
    ∃ width, lower x + width * 2 ^ x.scale = upper x ∧ 4 * x.significand < width * 10 ^ 16 := by
  have hlt := significand_lt x
  rw [upper_eq]
  unfold lower
  rw [Nat.shiftLeft_eq, Nat.shiftLeft_eq]
  -- above a power of two the lower end is half as far away
  split_ifs with hpower
  · refine ⟨3, ?_, ?_⟩
    · rw [← Nat.add_mul]
      congr 1
      omega
    · rw [significand_of_normal hpower.2, hpower.1]
      norm_num
  · refine ⟨4, ?_, by omega⟩
    rw [← Nat.add_mul]
    congr 1
    omega

/-- With seventeen digits the grid is finer than the interval is wide. -/
theorem step_lt (hx : x.significand ≠ 0) :
    lower x * tenPow lift + step x 17 < upper x * tenPow lift := by
  have hspan := lt_span hx
  have hexp : span x - 17 + 16 = span x - 1 := by omega
  obtain ⟨width, hwidth, hlt⟩ := exists_width hx
  have hunit : 0 < 2 ^ x.scale * tenPow lift := Nat.mul_pos (Nat.two_pow_pos _) (tenPow_pos _)
  -- seventeen digits are finer than the interval is wide: compare both with the number itself
  have hstep : step x 17 * 10 ^ 16 < width * (2 ^ x.scale * tenPow lift) * 10 ^ 16 :=
    calc step x 17 * 10 ^ 16
        = quarter * 10 ^ (span x - 17 + 16) := by
          rw [step_eq (by omega), tenPow_eq, Nat.mul_assoc, ← Nat.pow_add]
      _ = quarter * tenPow (span x - 1) := by rw [hexp, tenPow_eq]
      _ ≤ middle x * tenPow lift := quarter_mul_le hx
      _ = 4 * x.significand * (2 ^ x.scale * tenPow lift) := by rw [middle_eq, Nat.mul_assoc]
      _ < width * 10 ^ 16 * (2 ^ x.scale * tenPow lift) := Nat.mul_lt_mul_of_pos_right hlt hunit
      _ = width * (2 ^ x.scale * tenPow lift) * 10 ^ 16 := Nat.mul_right_comm _ _ _
  have hfine := Nat.lt_of_mul_lt_mul_right hstep
  rw [← hwidth, Nat.add_mul, Nat.mul_assoc]
  exact Nat.add_lt_add_left hfine _

/-- **The shortest decimal lies in the interval of its number**, on a grid that the interval is
scaled to. -/
theorem covers_shortest (tie : Tie) (hx : x.significand ≠ 0) :
    ∃ k : Nat, (x.shortest tie).exponent + lift = k ∧
      covers x ((x.shortest tie).coefficient * (quarter * tenPow k)) = true := by
  have hspan := lt_span hx
  have hpos : 0 < step x 17 := Nat.mul_pos (by decide +kernel) (tenPow_pos _)
  have hfound : candidate tie x 17 ≠ none := candidate_ne_none hx hpos (step_lt hx)
  -- the search succeeds at the seventeenth count at the latest
  have hsearch : ((List.range 17).findSome? fun count => candidate tie x (count + 1)) ≠ none := by
    intro hnone
    rw [List.findSome?_eq_none_iff] at hnone
    exact hfound (hnone 16 (by simp))
  obtain ⟨s, hs⟩ := Option.ne_none_iff_exists'.mp hsearch
  have hshortest : x.shortest tie = s := by rw [shortest, hs, Option.getD_some]
  obtain ⟨count, hcount, hcandidate⟩ := List.exists_of_findSome?_eq_some hs
  have hle : count + 1 ≤ span x := by
    have := List.mem_range.mp hcount
    omega
  obtain ⟨hexp, hcovers⟩ := candidate_spec hcandidate
  rw [step_eq hle] at hcovers
  rw [hshortest]
  refine ⟨span x - (count + 1), ?_, hcovers⟩
  rw [hexp]
  change (span x : Int) - lift - _ + lift = _
  omega

end Candidate

end Offside.Shortest
