/-!
# Words

Widths are words of 64 bits, and arithmetic on them is **checked**: an operation whose result is no
word has none. It ends in a trap, and so does every computation that it is part of.

A trap is not one of the faults that are found and reported. Where both are possible, `Halt` tells
them apart.
-/

namespace Offside

/-- Why an operation on words has no result. -/
inductive Trap where
  | divisionByZero
  | overflow
  deriving DecidableEq

namespace Word

/-- A number as a word, if it fits. -/
def check (n : Nat) : Except Trap UInt64 :=
  if n < UInt64.size then .ok (UInt64.ofNat n) else .error .overflow

/-- A sum of words. -/
def add (a b : UInt64) : Except Trap UInt64 := check (a.toNat + b.toNat)

/-- A product of words. -/
def mul (a b : UInt64) : Except Trap UInt64 := check (a.toNat * b.toNat)

/-- A quotient of words. -/
def div (a b : UInt64) : Except Trap UInt64 :=
  if b = 0 then .error .divisionByZero else .ok (a / b)

end Word

/-- Why a computation gives no result: a fault, which it reports, or a trap, which ends it. -/
inductive Halt (ε : Type) where
  | fault (error : ε)
  | trap (kind : Trap)
  deriving DecidableEq

/-- The same with another fault. -/
def Halt.map {ε δ : Type} (f : ε → δ) : Halt ε → Halt δ
  | .fault error => .fault (f error)
  | .trap kind => .trap kind

end Offside
