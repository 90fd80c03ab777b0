import Offside.Binary64.Shortest

/-!
# Decimal text of a binary64 number

Two forms write the shortest digits of a number. The **plain** form never has an exponent and
always has a decimal point; tokens, emitted code and tree views use it. The **exchange** form
switches to an exponent outside a fixed range of magnitudes; data exchange uses it.
-/

namespace Offside

namespace Scaled

/-- The digits of the coefficient without the zeros at its end, most significant first, and the
number of digits before the decimal point. -/
def digits (s : Scaled) : List Char × Int :=
  let all := Nat.toDigits 10 s.coefficient
  ((all.reverse.dropWhile (· == '0')).reverse, all.length + s.exponent)

/-- The decimal written without an exponent, with at least one digit on each side of the point. -/
def plain (s : Scaled) : String :=
  let (ds, point) := s.digits
  -- zeros behind the point, zeros before it, or the point among the digits
  if point ≤ 0 then
    "0." ++ String.ofList (List.replicate (-point).toNat '0' ++ ds)
  else
    let whole := point.toNat
    if ds.length ≤ whole then
      String.ofList (ds ++ List.replicate (whole - ds.length) '0') ++ ".0"
    else
      String.ofList (ds.take whole) ++ "." ++ String.ofList (ds.drop whole)

/-- The decimal with one digit before the point and a signed exponent. -/
def scientific (s : Scaled) : String :=
  let (ds, point) := s.digits
  let tail := ds.drop 1
  let mantissa :=
    String.ofList (ds.take 1) ++ (if tail.isEmpty then "" else "." ++ String.ofList tail)
  let exponent := point - 1
  mantissa ++ (if exponent < 0 then "e-" else "e+") ++ toString exponent.natAbs

end Scaled

namespace Binary64

/-- The sign as written before the digits. -/
def signText (x : Binary64) : String := if x.negative then "-" else ""

/-- **Plain text.** The fewest digits that read back, never with an exponent and always with a
decimal point; of two equally near digit strings the larger. -/
def text (x : Binary64) : String :=
  if x.isNaN then "NaN.0"
  else if !x.isFinite then x.signText ++ "inf.0"
  else if x.isZero then x.signText ++ "0.0"
  else x.signText ++ (x.shortest .up).plain

/-- **Exchange text.** The fewest digits that read back, without an exponent from `10 ^ -5` up to
`10 ^ 16`; of two equally near digit strings the one whose last digit is even. A number that is not
finite has none. -/
def exchangeText? (x : Binary64) : Option String :=
  if !x.isFinite then none
  else if x.isZero then some (x.signText ++ "0.0")
  else
    let s := x.shortest .even
    -- the exponent that the scientific form would have
    let exponent := s.digits.2 - 1
    some (x.signText ++ (if -5 ≤ exponent ∧ exponent < 16 then s.plain else s.scientific))

end Binary64

end Offside
