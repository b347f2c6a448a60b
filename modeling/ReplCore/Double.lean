/-!
# Numbers of double precision

A number of double precision is a significand of at most 53 binary digits, times a power of two.
A decimal number stands for the double nearest to it, which as a rule is another number: the double
that is written as 10²³ is less than that by 8388608. Doubles are kept exactly here, and rounding is
done on fractions of natural numbers.
-/

namespace ReplCore

/-- A quotient rounded to the nearest natural number, a half going to the even neighbour. -/
def roundedQuotient (n d : Nat) : Nat :=
  let rest := 2 * (n % d)
  if d < rest ∨ (rest = d ∧ n / d % 2 = 1) then n / d + 1 else n / d

/-- A number that is not negative, of double precision. -/
structure Double where
  significand : Nat
  exponent : Int
deriving Repr, DecidableEq

namespace Double

/-- The exponent of the smallest numbers. -/
def leastExponent : Int := -1074

/-- The numerator and the denominator of a fraction divided by a power of two. -/
def scaled (n d : Nat) (exponent : Int) : Nat × Nat :=
  (n * Nat.pow 2 (-exponent).toNat, d * Nat.pow 2 exponent.toNat)

/-- The exponent of the double nearest to a fraction: the one that leaves 53 binary digits before
the point, if there is one so small. The lengths of the two numbers tell it, but for one. -/
def exponentFor (n d : Nat) : Int :=
  let estimate : Int := (n.log2 : Int) - d.log2 - 52
  let (m, e) := scaled n d estimate
  max leastExponent (if m < Nat.pow 2 52 * e then estimate - 1 else estimate)

/-- The double nearest to a fraction. There is no greatest double here. -/
def nearest (n d : Nat) : Double :=
  let exponent := exponentFor n d
  let (m, e) := scaled n d exponent
  ⟨roundedQuotient m e, exponent⟩

/-- The double as a fraction, exactly. -/
def ratio (x : Double) : Nat × Nat := scaled x.significand 1 (-x.exponent)

end Double

end ReplCore
