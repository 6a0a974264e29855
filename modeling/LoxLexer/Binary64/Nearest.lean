import LoxLexer.Binary64
import LoxLexer.Decimal

/-!
# The number nearest to a decimal

A numeral has more digits than a floating-point number can hold, so its value
is the number nearest to it; of two that are equally near, the one whose last
bit is clear. The rounding is done once, on exact natural numbers: the
decimal is counted in units of `2 ^ -1074`, divided by the power of two that
leaves 53 bits, and rounded to a whole number. Put behind the exponent, the
result is the magnitude sought – and when rounding carries into a 54th bit,
the carry moves on into the exponent by itself.

The same holds at both ends. Below the least normal number nothing is divided
away, so that subnormal numbers and zero need no case of their own. Above the
greatest number the carry reaches the pattern of infinity, and everything
greater is cut down to it.

`ofNumeral` is what a text comes to: the number nearest to its decimal, and
for a text that is no numeral a pattern that is no number.
-/

namespace LoxLexer

/-- The whole number nearest to `num / den`. Halfway between two, it is the
even one. -/
def divRoundEven (num den : Nat) : Nat :=
  let whole := num / den
  let left := num % den
  if 2 * left < den then whole
  else if den < 2 * left then whole + 1
  else whole + whole % 2

namespace Binary64

/-- The magnitude nearest to the quotient `num / den`, for a divisor that is
not zero. -/
def nearestMagnitude (num den : Nat) : Nat :=
  let scaled := num <<< 1074
  let shift := (scaled / den).log2 - 52
  min (shift * leadingBit + divRoundEven scaled (den <<< shift)) infinity

/-- The number nearest to a decimal. It has no sign. -/
def nearest (d : Decimal) : Binary64 :=
  ofMagnitude (nearestMagnitude d.coefficient d.scale)

/-- The number that a text writes. A text that is no numeral writes none. -/
def ofNumeral (text : List Char) : Binary64 :=
  match Decimal.ofNumeral? text with
  | some d => nearest d
  | none => notANumber

/-- Rounding ends at infinity. -/
theorem nearestMagnitude_le (num den : Nat) :
    nearestMagnitude num den ≤ infinity :=
  Nat.min_le_right ..

/-- The magnitude of the nearest number is the nearest magnitude. -/
@[simp] theorem magnitude_nearest (d : Decimal) :
    (nearest d).magnitude = nearestMagnitude d.coefficient d.scale :=
  magnitude_ofMagnitude (Nat.lt_of_le_of_lt (nearestMagnitude_le ..) (by decide))

/-- The number nearest to a decimal is a number, infinity included. -/
@[simp] theorem isNaN_nearest (d : Decimal) : (nearest d).isNaN = false := by
  simpa [isNaN] using nearestMagnitude_le ..

end Binary64

end LoxLexer
