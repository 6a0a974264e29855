import LoxLexer.Character

/-!
# Decimal fractions

A numeral such as `12.50` denotes an exact number, and so does the text that
is printed for a floating-point value. Both are `Decimal`s: a natural number
over a power of ten, so `12.50` is `1250 / 10 ^ 2`. The number of places is
kept and not reduced, so that a decimal says which numeral it came from, up
to leading zeros of the whole part.

`ofNumeral?` reads a numeral and `text` writes one. What is read is checked to
the last character: a point needs digits on either side, and there is neither
a sign nor an exponent. Writing never uses these either: the whole part stands
in front of the point however long it is, and without places there is no point
at all.
-/

namespace LoxLexer

/-- The number `coefficient / 10 ^ places`. -/
structure Decimal where
  /-- All digits, read as one number. -/
  coefficient : Nat
  /-- How many of the digits stand after the point. -/
  places : Nat
deriving DecidableEq, Repr

namespace Decimal

/-- The decimal written with the digits `whole` before the point and the
digits `fraction` after it. -/
def ofDigits (whole fraction : List Char) : Decimal :=
  ⟨Nat.ofDigitChars 10 (whole ++ fraction) 0, fraction.length⟩

/-- Reads a numeral: digits, and perhaps a point and more digits. Any other
text is refused. -/
def ofNumeral? (text : List Char) : Option Decimal :=
  let whole := text.takeWhile isDigit
  match text.dropWhile isDigit with
  | [] => if whole = [] then none else some (ofDigits whole [])
  | '.' :: fraction =>
    if whole ≠ [] ∧ fraction ≠ [] ∧ fraction.all isDigit then
      some (ofDigits whole fraction)
    else none
  | _ => none

/-- The power of ten that the coefficient is divided by. -/
def scale (d : Decimal) : Nat :=
  Nat.pow 10 d.places

/-- The digits in front of the point. -/
def wholeDigits (d : Decimal) : List Char :=
  Nat.toDigits 10 (d.coefficient / d.scale)

/-- The digits behind the point, as many as there are places. -/
def fractionDigits (d : Decimal) : List Char :=
  if d.places = 0 then []
  else (Nat.toDigits 10 (d.coefficient % d.scale)).leftpad d.places '0'

/-- Writes a decimal: the whole part, and when there are places a point and
the digits behind it. -/
def numeral (d : Decimal) : List Char :=
  if d.places = 0 then d.wholeDigits
  else d.wholeDigits ++ '.' :: d.fractionDigits

/-- The numeral of a decimal as a text. -/
def text (d : Decimal) : String :=
  String.ofList d.numeral

/-- The digits of a natural number are digits. -/
theorem isDigit_of_mem_toDigits {n : Nat} {c : Char}
    (h : c ∈ Nat.toDigits 10 n) : isDigit c = true := by
  exact Nat.isDigit_of_mem_toDigits (by decide) (by decide) h

/-- The digits behind the point are digits. -/
theorem isDigit_of_mem_fractionDigits {d : Decimal} {c : Char}
    (h : c ∈ d.fractionDigits) : isDigit c = true := by
  rw [fractionDigits] at h
  split at h
  · cases h
  · rw [List.leftpad, List.mem_append] at h
    obtain h | h := h
    · rw [List.eq_of_mem_replicate h]
      decide
    · exact isDigit_of_mem_toDigits h

/-- A numeral is written with digits and a point. -/
theorem isDigit_or_point_of_mem_numeral {d : Decimal} {c : Char}
    (h : c ∈ d.numeral) : isDigit c = true ∨ c = '.' := by
  rw [numeral] at h
  split at h
  · exact .inl (isDigit_of_mem_toDigits h)
  · rw [List.mem_append, List.mem_cons] at h
    obtain h | rfl | h := h
    · exact .inl (isDigit_of_mem_toDigits h)
    · exact .inr rfl
    · exact .inl (isDigit_of_mem_fractionDigits h)

end Decimal

end LoxLexer
