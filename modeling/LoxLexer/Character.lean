import LoxLexer.Alphabetic

/-!
# Classes of characters

The scanner looks at a character in four ways: it may be blank, it may be a
digit of a number, it may begin a word, and it may go on with a word. Digits
and blanks are ASCII alone. Letters are those of all scripts, so a word may
be written in any of them, while a number is always written in the digits
from `0` to `9`; a digit of another script is part of neither.

The classes are told apart by small lemmas: a blank is no digit and begins no
word, a digit begins no word, and what begins a word also goes on with it.
-/

namespace LoxLexer

/-- Whether a character counts as a letter, in any script. -/
def isAlphabetic (c : Char) : Bool :=
  if c.toNat < 0x80 then c.isAlpha else alphabeticBeyondAscii.contains c.toNat

/-- Whether a character is one of the digits from `0` to `9`. -/
def isDigit (c : Char) : Bool :=
  '0' ≤ c && c ≤ '9'

/-- Whether a character separates lexemes and is skipped: a space, a carriage
return, a tab or a line feed. No other blank of Unicode is. -/
def isBlank (c : Char) : Bool :=
  c = ' ' || c = '\r' || c = '\t' || c = '\n'

/-- Whether a word may begin with a character. -/
def isWordStart (c : Char) : Bool :=
  isAlphabetic c || c = '_'

/-- Whether a character may stand in a word after its first. -/
def isWordChar (c : Char) : Bool :=
  isAlphabetic c || isDigit c || c = '_'

/-- On ASCII characters the letters are the usual ones. -/
theorem isAlphabetic_of_lt {c : Char} (h : c.toNat < 0x80) :
    isAlphabetic c = c.isAlpha := by
  simp [isAlphabetic, h]

/-- A character that begins a word also goes on with one. -/
theorem isWordChar_of_isWordStart {c : Char} (h : isWordStart c = true) :
    isWordChar c = true := by
  simp only [isWordStart, isWordChar, Bool.or_eq_true] at h ⊢
  rcases h with h | h
  · exact Or.inl (Or.inl h)
  · exact Or.inr h

/-- A character that goes on with a word begins one, or else is a digit. -/
theorem isWordChar_iff {c : Char} :
    isWordChar c = true ↔ isWordStart c = true ∨ isDigit c = true := by
  simp only [isWordStart, isWordChar, Bool.or_eq_true]
  rw [or_right_comm]

/-- A digit goes on with a word. -/
theorem isWordChar_of_isDigit {c : Char} (h : isDigit c = true) :
    isWordChar c = true :=
  isWordChar_iff.mpr (Or.inr h)

/-! ## The classes apart -/

/-- A character of a class is none that is not of it. -/
theorem ne_of_class {p : Char → Bool} {c d : Char} (hc : p c = true)
    (hd : p d = false) : c ≠ d := by
  rintro rfl
  rw [hc] at hd
  exact Bool.noConfusion hd

theorem isBlank_iff {c : Char} :
    isBlank c = true ↔ c = ' ' ∨ c = '\r' ∨ c = '\t' ∨ c = '\n' := by
  simp [isBlank, or_assoc]

/-- The digits are a range of code points. -/
theorem isDigit_iff {c : Char} :
    isDigit c = true ↔ '0'.toNat ≤ c.toNat ∧ c.toNat ≤ '9'.toNat := by
  rw [isDigit, Bool.and_eq_true, decide_eq_true_eq, decide_eq_true_eq]
  exact Iff.rfl

/-- A blank ends every word. -/
theorem isWordChar_of_isBlank {c : Char} (h : isBlank c = true) :
    isWordChar c = false := by
  obtain rfl | rfl | rfl | rfl := isBlank_iff.mp h <;> decide

/-- A blank is no digit. -/
theorem isDigit_of_isBlank {c : Char} (h : isBlank c = true) :
    isDigit c = false := by
  obtain rfl | rfl | rfl | rfl := isBlank_iff.mp h <;> decide

/-- What goes on with a word is not blank. -/
theorem isBlank_of_isWordChar {c : Char} (h : isWordChar c = true) :
    isBlank c = false := by
  refine Bool.eq_false_iff.mpr fun hblank => ?_
  rw [isWordChar_of_isBlank hblank] at h
  exact Bool.false_ne_true h

/-- A digit begins no word. -/
theorem isWordStart_of_isDigit {c : Char} (h : isDigit c = true) :
    isWordStart c = false := by
  obtain ⟨hlow, hhigh⟩ := isDigit_iff.mp h
  have hbelow : ∀ d : Char, '9'.toNat < d.toNat → ¬ c.val ≥ d.val :=
    fun d hd h => Nat.not_le_of_lt (Nat.lt_of_le_of_lt hhigh hd)
      (UInt32.le_iff_toNat_le.mp h)
  have hletter : c.isAlpha = false := by
    show (decide (c.val ≥ 'A'.val ∧ c.val ≤ 'Z'.val) ||
      (decide (c.val ≥ 'a'.val) && decide (c.val ≤ 'z'.val))) = false
    simp only [hbelow 'A' (by decide), hbelow 'a' (by decide), false_and,
      decide_false, Bool.false_and, Bool.or_self]
  have hunderscore : c ≠ '_' := ne_of_class h rfl
  rw [isWordStart, isAlphabetic_of_lt (Nat.lt_of_le_of_lt hhigh (by decide)),
    hletter]
  simpa using hunderscore

/-- What begins a word is no digit. -/
theorem isDigit_of_isWordStart {c : Char} (h : isWordStart c = true) :
    isDigit c = false := by
  refine Bool.eq_false_iff.mpr fun hdigit => ?_
  rw [isWordStart_of_isDigit hdigit] at h
  exact Bool.false_ne_true h

/-- The code points for which a property of characters holds, as maximal
ranges between two bounds. Numbers that are no characters – surrogates, and
what lies beyond U+10FFFF – have no property. -/
def charRuns (p : Char → Bool) (first last : Nat) : List (Nat × Nat) :=
  Intervals.runs (fun n => if n.isValidChar then p (Char.ofNat n) else false)
    first last

end LoxLexer
