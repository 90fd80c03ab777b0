import Offside.Binary64.Basic

/-!
# The shortest decimal of a binary64 number

Among all decimals that a reader rounds back to a given number, the **shortest** have the fewest
significant digits; of these the one nearest to the number is chosen. Everything is decided by
comparing natural numbers: a number, the two ends of the interval of reals that round to it, and
the points of a decimal grid are all scaled by the same power of two and the same power of ten.

* `Tie` — which of two equally near decimals is taken;
* `Shortest.candidate` — the decimal of a given number of digits, if one rounds back;
* `Binary64.shortest` — the decimal with the fewest digits.
-/

namespace Offside

/-- Which of two equally near decimals is taken: the larger one, or the one whose last digit is
even. -/
inductive Tie where
  | up
  | even
  deriving DecidableEq

/-- The decimal `coefficient * 10 ^ exponent`. -/
structure Scaled where
  coefficient : Nat
  exponent : Int
  deriving DecidableEq

namespace Shortest

/-- The power of ten that makes every grid point of every finite number integral. -/
def lift : Nat := 350

/-- Quarter units: the power of two in which a number and the ends of its interval are integral. -/
def quarter : Nat := 1 <<< (Binary64.leastExponent + 2)

/-- The number in quarter units. -/
def middle (x : Binary64) : Nat := 4 * x.units

/-- The upper end of the interval of reals that round to the number. -/
def upper (x : Binary64) : Nat := (4 * x.significand + 2) <<< x.scale

/-- The lower end of that interval. Below a power of two the neighbour is half as far away. -/
def lower (x : Binary64) : Nat :=
  if x.fraction = 0 ∧ 1 < x.exponentField then (4 * x.significand - 1) <<< x.scale
  else (4 * x.significand - 2) <<< x.scale

/-- Whether a real, scaled like the ends of the interval, rounds to the number. The ends belong to
the interval when the significand is even. -/
def covers (x : Binary64) (point : Nat) : Bool :=
  let low := lower x * Binary64.tenPow lift
  let high := upper x * Binary64.tenPow lift
  if x.significand % 2 = 0 then low ≤ point && point ≤ high else low < point && point < high

/-- The number of digits before the decimal point, which is not positive for a number below one
tenth: the least `k` with the number below `10 ^ k`. -/
def order (x : Binary64) : Int :=
  (Nat.toDigits 10 (middle x * Binary64.tenPow lift / quarter)).length - (lift : Int)

/-- The decimal of `count` digits that rounds back to the number, if there is one: of the two grid
points around the number the nearer one that rounds back. -/
def candidate (tie : Tie) (x : Binary64) (count : Nat) : Option Scaled :=
  -- the grid of so many digits, and its two points around the number
  let exponent := order x - count
  let step := quarter * Binary64.tenPow (exponent + lift).toNat
  let value := middle x * Binary64.tenPow lift
  let below := value / step
  let above := below + 1
  match covers x (below * step), covers x (above * step) with
  | true, true =>
    -- both read back: the nearer one, and halfway between them the rule decides
    let half := (2 * below + 1) * step
    if 2 * value < half then some ⟨below, exponent⟩
    else if half < 2 * value then some ⟨above, exponent⟩
    else match tie with
      | .up => some ⟨above, exponent⟩
      | .even => some ⟨if below % 2 = 0 then below else above, exponent⟩
  | true, false => some ⟨below, exponent⟩
  | false, true => some ⟨above, exponent⟩
  | false, false => none

end Shortest

/-- The shortest decimal that rounds back to a finite number other than zero. Seventeen digits
always suffice. -/
def Binary64.shortest (tie : Tie) (x : Binary64) : Scaled :=
  ((List.range 17).findSome? fun count => Shortest.candidate tie x (count + 1)).getD ⟨0, 0⟩

end Offside
