/-!
# Floating-point numbers of 64 bits

A number in the format binary64 is a sign bit, eleven bits of exponent and 52
bits of fraction. The last 63 bits, read as a natural number, are here called
the **magnitude** of the number. Magnitudes are ordered as the values that
they stand for: 0 is zero, then come the subnormal numbers, the normal ones,
infinity, and above infinity the patterns that are no number.

All values below infinity are multiples of `2 ^ -1074`, the least of them. So
`units` gives a value as a natural number, counted in this least one, and
every statement about values is one about natural numbers. No arithmetic of
the machine is involved.
-/

namespace LoxLexer

/-- A number in the format binary64, by its bit pattern. Two patterns are
equal only when every bit is; `equals` compares numbers. -/
structure Binary64 where
  /-- The sign, the exponent and the fraction, from the highest bit on. -/
  bits : UInt64
deriving DecidableEq, Repr

namespace Binary64

/-- The bit that holds the sign, which stands above the magnitude. -/
def signBit : Nat :=
  0x8000000000000000

/-- The lowest bit of the exponent, which stands above the fraction. It is also
the bit that a normal number has in front of its fraction. -/
def leadingBit : Nat :=
  0x10000000000000

/-- The pattern without its sign bit. -/
def magnitude (x : Binary64) : Nat :=
  x.bits.toNat % signBit

/-- Whether the sign bit is set. -/
def isNegative (x : Binary64) : Bool :=
  signBit ≤ x.bits.toNat

/-- The magnitude of infinity. -/
def infinity : Nat :=
  0x7FF0000000000000

/-- The number without a sign that has a given magnitude. -/
def ofMagnitude (m : Nat) : Binary64 :=
  ⟨UInt64.ofNat m⟩

/-- A pattern that is no number. -/
def notANumber : Binary64 :=
  ⟨0x7FF8000000000000⟩

/-- Whether a pattern is no number. -/
def isNaN (x : Binary64) : Bool :=
  infinity < x.magnitude

/-- Whether a pattern is a number other than the infinities. -/
def isFinite (x : Binary64) : Bool :=
  x.magnitude < infinity

/-- The value of a magnitude as a multiple of `2 ^ -1074`. A subnormal number
is its fraction; a normal one has a leading bit in front of its fraction and
is scaled by its exponent. At infinity the same rule gives `2 ^ 1024`, where
the next value would be. -/
def units (m : Nat) : Nat :=
  if m < leadingBit then m
  else (leadingBit + m % leadingBit) <<< (m / leadingBit - 1)

/-- Whether two patterns are equal as numbers. What is no number equals
nothing, itself included, and the two zeros are equal. -/
def equals (x y : Binary64) : Bool :=
  !x.isNaN && !y.isNaN &&
    (x.bits == y.bits || x.magnitude == 0 && y.magnitude == 0)

/-- A magnitude of 63 bits is the magnitude of its number. -/
@[simp] theorem magnitude_ofMagnitude {m : Nat} (h : m < signBit) :
    (ofMagnitude m).magnitude = m := by
  simp only [signBit] at h
  simp only [ofMagnitude, magnitude, signBit, UInt64.toNat_ofNat']
  omega

/-- A magnitude of 63 bits leaves the sign bit clear. -/
@[simp] theorem isNegative_ofMagnitude {m : Nat} (h : m < signBit) :
    (ofMagnitude m).isNegative = false := by
  simp only [signBit] at h
  simp only [ofMagnitude, isNegative, signBit, UInt64.toNat_ofNat',
    decide_eq_false_iff_not]
  omega

/-- A number equals itself exactly when it is one. -/
@[simp] theorem equals_self (x : Binary64) : x.equals x = !x.isNaN := by
  simp [equals]

end Binary64

end LoxLexer
