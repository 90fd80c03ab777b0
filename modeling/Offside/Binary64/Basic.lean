/-!
# Binary64 numbers

A floating-point literal denotes a **binary64** number: a sign, a significand below `2 ^ 53` and a
power of two. Everything here is exact arithmetic on natural numbers, so that a literal's value and
its text can be reasoned about:

* `Binary64` — the number as its 64 bits, split into `negative`, `exponentField` and `fraction`;
* `Binary64.significand`, `Binary64.scale` — a finite magnitude is
  `significand * 2 ^ scale / 2 ^ 1074`, with no case for subnormal numbers left;
* `Binary64.ofRatio` — the number nearest to a quotient of naturals, a half going to the even
  neighbour, and infinity beyond the largest finite number;
* `Binary64.ofDecimal` — the number nearest to a decimal `digits * 10 ^ exponent`.
-/

namespace Offside

/-- A binary64 number, given by its bits: one for the sign, eleven for the biased exponent and
fifty-two for the fraction. Two numbers are equal when all their bits are, so the two zeros
differ and a NaN equals itself. -/
structure Binary64 where
  bits : UInt64
  deriving DecidableEq

namespace Binary64

/-- The exponent field of infinities and NaNs. -/
def topField : Nat := 2047

/-- The weight of the sign bit, `2 ^ 63`. -/
def signWeight : Nat := 1 <<< 63

/-- The weight of the lowest bit of the exponent field, `2 ^ 52`. -/
def fieldWeight : Nat := 1 <<< 52

/-- The exponent of the least positive number, `2 ^ -1074`, without its sign. -/
def leastExponent : Nat := 1074

/-- The power of ten with a natural exponent. -/
def tenPow (n : Nat) : Nat := Nat.pow 10 n

/-- The sign bit. -/
def negative (x : Binary64) : Bool := decide (signWeight ≤ x.bits.toNat)

/-- The biased exponent, between zero and `topField`. -/
def exponentField (x : Binary64) : Nat := x.bits.toNat / fieldWeight % (topField + 1)

/-- The fraction below the leading bit. -/
def fraction (x : Binary64) : Nat := x.bits.toNat % fieldWeight

/-- Neither an infinity nor a NaN. -/
def isFinite (x : Binary64) : Bool := x.exponentField != topField

/-- Not a number. -/
def isNaN (x : Binary64) : Bool := x.exponentField == topField && x.fraction != 0

/-- The integral significand of a finite number: the leading bit is implied unless the exponent
field is zero. -/
def significand (x : Binary64) : Nat :=
  if x.exponentField = 0 then x.fraction else fieldWeight + x.fraction

/-- The power of two by which the significand is scaled, counted from the least, `2 ^ -1074`. -/
def scale (x : Binary64) : Nat := x.exponentField - 1

/-- The magnitude of a finite number in units of `2 ^ -1074`. -/
def units (x : Binary64) : Nat := x.significand <<< x.scale

/-- Whether the number is one of the two zeros. -/
def isZero (x : Binary64) : Bool := x.isFinite && x.significand == 0

/-- Division to the nearest integer, a half going to the even one. -/
def roundDiv (n d : Nat) : Nat :=
  let q := n / d
  let r := n % d
  if 2 * r < d then q
  else if d < 2 * r then q + 1
  -- exactly half
  else if q % 2 = 0 then q else q + 1

/-- The bits of a magnitude: `n / d` units of `2 ^ -1074`, rounded to fifty-three significant bits.
The leading bit of a normal significand overlaps the exponent field, which is what makes one sum
right for subnormal numbers, for normal ones, and for a significand that rounds up to `2 ^ 53`. -/
def magnitudeBits (n d : Nat) : Nat :=
  -- zero for a subnormal number, by truncated subtraction
  let shift := (n / d).log2 - 52
  min (shift * fieldWeight + roundDiv n (d <<< shift)) (topField * fieldWeight)

/-- Put a sign before the bits of a magnitude. -/
def ofMagnitude (negative : Bool) (magnitude : Nat) : Binary64 :=
  ⟨UInt64.ofNat (if negative then signWeight + magnitude else magnitude)⟩

/-- The binary64 number nearest to `± n / d`. -/
def ofRatio (negative : Bool) (n d : Nat) : Binary64 :=
  ofMagnitude negative (magnitudeBits (n <<< leastExponent) d)

/-- The binary64 number nearest to an integer. -/
def ofInt (n : Int) : Binary64 := ofRatio (decide (n < 0)) n.natAbs 1

/-- The binary64 number nearest to `± digits * 10 ^ exponent`. -/
def ofDecimal (negative : Bool) (digits : Nat) (exponent : Int) : Binary64 :=
  ofRatio negative (digits * tenPow exponent.toNat) (tenPow (-exponent).toNat)

end Binary64

end Offside
