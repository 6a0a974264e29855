import LoxLexer.Binary64.Nearest

/-!
# The shortest decimal of a number

Many decimals round to the same number. The one that is printed is the one
with the fewest digits, and among those the nearest to the exact value; of
two equally near, the greater.

The search is on exact natural numbers. A value below infinity is a multiple
of `2 ^ -1074`, so counted in `10 ^ -1074` it is the natural number
`units m * 5 ^ 1074`. The decimals that round to it fill the interval between
the two points halfway to its neighbours, ends included exactly when the
magnitude is even. A decimal with few digits is a multiple of a high power of
ten, so the search goes through the powers from a high one downwards; for
each, only the two multiples on either side of the value can be the nearest.
The power `10 ^ 0` always succeeds, as the value is a multiple of it.
-/

namespace LoxLexer

namespace Binary64

/-- The value of a magnitude as a multiple of `10 ^ -1074`. -/
def decimalUnits (m : Nat) : Nat :=
  units m * Nat.pow 5 1074

/-- Whether `n`, counted in `10 ^ -1074`, rounds to the magnitude `m`. -/
def roundsTo (m n : Nat) : Bool :=
  let low := decimalUnits (m - 1) + decimalUnits m
  let high := decimalUnits m + decimalUnits (m + 1)
  if m % 2 = 0 then low ≤ 2 * n && 2 * n ≤ high
  else low < 2 * n && 2 * n < high

/-- The multiple of `10 ^ power` that rounds to `m` and is nearest to it, if
any does, as the factor of `10 ^ power`. -/
def candidate? (m power : Nat) : Option Nat :=
  let step := Nat.pow 10 power
  let value := decimalUnits m
  let below := value / step
  match roundsTo m (below * step), roundsTo m ((below + 1) * step) with
  | true, true =>
    if value - below * step < (below + 1) * step - value then some below
    else some (below + 1)
  | true, false => some below
  | false, true => some (below + 1)
  | false, false => none

/-- The first candidate among the powers of ten from `10 ^ power` downwards,
as a factor and a power. -/
def search (m : Nat) : (power : Nat) → Nat × Nat
  | 0 => ((candidate? m 0).getD 0, 0)
  | power + 1 =>
    match candidate? m (power + 1) with
    | some factor => (factor, power + 1)
    | none => search m power

/-- A power of ten above which no candidate can be. It comes from
`2 ^ 93 ≤ 10 ^ 28`. -/
def highestPower (m : Nat) : Nat :=
  (decimalUnits m).log2 * 28 / 93 + 1

/-- The shortest decimal that rounds to a magnitude below infinity. -/
def shortest (m : Nat) : Decimal :=
  if m = 0 then ⟨0, 0⟩
  else
    let (factor, power) := search m (highestPower m)
    ⟨factor * Nat.pow 10 (power - 1074), 1074 - power⟩

/-- The text of a number: a minus where the sign bit is set, and the shortest
decimal, or a word for what is not finite. What is no number has no sign. -/
def text (x : Binary64) : String :=
  if x.isNaN then "NaN"
  else
    let sign := if x.isNegative then "-" else ""
    if x.magnitude = infinity then sign ++ "inf"
    else sign ++ (shortest x.magnitude).text

end Binary64

end LoxLexer
