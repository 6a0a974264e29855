import LoxLexer.Diagnostics
import LoxLexer.Proofs.Denotation
import LoxLexer.Proofs.NearestValue

/-!
# What number tokens carry

A number token carries the floating-point number nearest to what its lexeme
writes. Three things come together here. The lexeme is a numeral, so that
reading it never fails and the number that stands for a failure does not
occur. A numeral writes one rational number, which `Writes` gives by the digits
on either side of the point. And the number computed for it is the nearest one
(`isNearest_nearest`), of which there is only one, so the bits of a literal
depend on the rational number alone and not on how it is written.

Nothing here bounds the length of a lexeme. A numeral that is too large comes
to infinity and one that is too small to zero, and both are equal to
themselves, as is every token of a scan.
-/

namespace LoxLexer

/-- **A text writes a rational number**: its digits read as a natural number,
or, with a point, the digits in front of it and a fraction of as many places
as there are digits behind it. -/
inductive Writes : List Char → ℚ → Prop where
  /-- Digits. -/
  | whole {digits : List Char} (ne : digits ≠ [])
      (all : ∀ c ∈ digits, isDigit c = true) :
      Writes digits (Nat.ofDigitChars 10 digits 0 : ℕ)
  /-- Digits, a point and digits. -/
  | fraction {whole digits : List Char} (whole_ne : whole ≠ [])
      (whole_all : ∀ c ∈ whole, isDigit c = true) (ne : digits ≠ [])
      (all : ∀ c ∈ digits, isDigit c = true) :
      Writes (whole ++ '.' :: digits)
        ((Nat.ofDigitChars 10 whole 0 : ℕ) +
          (Nat.ofDigitChars 10 digits 0 : ℕ) / 10 ^ digits.length)

/-- **A token carries the number that its lexeme writes.** -/
structure Token.Carries (t : Token) (q : ℚ) : Prop where
  /-- The lexeme is a numeral, and is read as one. -/
  numeral : ∃ d, Decimal.ofNumeral? t.lexeme.toList = some d
  /-- The number is what the lexeme writes. -/
  writes : Writes t.lexeme.toList q
  /-- The lexeme writes no other. -/
  only : ∀ r, Writes t.lexeme.toList r → r = q
  /-- The literal is the floating-point number nearest to it, the only one, and
  has no leading bit or is zero where the number is too small for more. -/
  nearest : ∃ x, t.literal = .number x ∧ x.IsNearest q ∧
    (∀ y : Binary64, y.IsNearest q → y = x) ∧
    (x.exponent = 0 ↔ q < 2 ^ (-1022 : ℤ) - 2 ^ (-1075 : ℤ)) ∧
    (x.value = 0 ↔ q ≤ 2 ^ (-1075 : ℤ))

/-- **What holds of the numbers in the tokens of a scan.** -/
structure NumbersCarried (tokens : List Token) : Prop where
  /-- Every number token carries the number that its lexeme writes. -/
  carries : ∀ t ∈ tokens, t.kind = .number → ∃ q, t.Carries q
  /-- The tokens are equal to themselves, numbers being compared as
  numbers. -/
  equals_self : tokens.isEqv tokens Token.equals = true
  /-- A number token of any scan that writes the same rational number has the
  same literal, bit by bit. -/
  same : ∀ other diagnostics, ∀ t ∈ tokens,
    ∀ u ∈ (scan other diagnostics).1, t.kind = .number → u.kind = .number →
    ∀ q, Writes t.lexeme.toList q → Writes u.lexeme.toList q →
      t.literal = u.literal

/-! ## Numerals -/

namespace Writes

variable {text : List Char} {q r : ℚ}

/-- A text that writes a number is read as a decimal of its value. -/
theorem exists_decimal (h : Writes text q) :
    ∃ d, Decimal.ofNumeral? text = some d ∧ d.value = q := by
  cases h with
  | whole ne all =>
    refine ⟨_, Decimal.ofNumeral?_whole ne all, ?_⟩
    simp [Decimal.value, Decimal.ofDigits, Decimal.scale]
  | @fraction whole digits whole_ne whole_all ne all =>
    refine ⟨_, Decimal.ofNumeral?_fraction whole_ne whole_all ne all, ?_⟩
    have hpos : (10 : ℚ) ^ digits.length ≠ 0 := by positivity
    rw [Decimal.value, Decimal.ofDigits, Decimal.scale, Nat.pow_eq,
      Nat.ofDigitChars_append, Nat.ofDigitChars_eq_ofDigitChars_zero]
    push_cast
    rw [add_div, mul_div_cancel_left₀ _ hpos]

/-- A text writes one number. -/
protected theorem unique (h : Writes text q) (h' : Writes text r) : q = r := by
  obtain ⟨d, hd, rfl⟩ := h.exists_decimal
  obtain ⟨d', hd', rfl⟩ := h'.exists_decimal
  rw [Option.some.inj (hd.symm.trans hd')]

/-- What is written has no sign. -/
theorem nonneg (h : Writes text q) : 0 ≤ q := by
  obtain ⟨d, -, rfl⟩ := h.exists_decimal
  exact d.value_nonneg

/-- The number that a text comes to is the one nearest to what it writes. -/
theorem isNearest_ofNumeral (h : Writes text q) :
    (Binary64.ofNumeral text).IsNearest q := by
  obtain ⟨d, hd, rfl⟩ := h.exists_decimal
  rw [Binary64.ofNumeral_of_eq_some hd]
  exact Binary64.isNearest_nearest d

end Writes

/-- What denotes a number writes one. -/
theorem Denotes.exists_writes {text : List Char} {literal : Literal}
    (h : Denotes text .number literal) : ∃ q, Writes text q := by
  cases h with
  | whole ne all => exact ⟨_, .whole ne all⟩
  | fraction whole_ne whole_all ne all =>
    exact ⟨_, .fraction whole_ne whole_all ne all⟩

/-! ## Tokens -/

/-- A number token is denoted by its lexeme. -/
theorem denotes_of_kind_eq_number {source : String} {t : Token}
    (h : t ∈ tokensOf source) (hkind : t.kind = .number) :
    Denotes t.lexeme.toList .number t.literal := by
  obtain rfl | h := eq_eof_or_denotes_of_mem_tokensOf h
  · cases hkind
  · rwa [hkind] at h

/-- The literal of a number token is the number that its lexeme comes to. -/
theorem literal_of_kind_eq_number {source : String} {t : Token}
    (h : t ∈ tokensOf source) (hkind : t.kind = .number) :
    t.literal = .number (.ofNumeral t.lexeme.toList) :=
  (denotes_of_kind_eq_number h hkind).literal_eq

/-- A number token carries the number that its lexeme writes. -/
theorem exists_carries {source : String} {t : Token} (h : t ∈ tokensOf source)
    (hkind : t.kind = .number) : ∃ q, t.Carries q := by
  obtain ⟨q, hq⟩ := (denotes_of_kind_eq_number h hkind).exists_writes
  obtain ⟨d, hd, -⟩ := hq.exists_decimal
  have hnearest := hq.isNearest_ofNumeral
  exact ⟨q, ⟨d, hd⟩, hq, fun r hr => hr.unique hq, _,
    literal_of_kind_eq_number h hkind, hnearest,
    fun y hy => hy.unique hnearest,
    hnearest.exponent_eq_zero_iff hq.nonneg,
    hnearest.value_eq_zero_iff hq.nonneg⟩

/-- What a number token carries is a number. -/
theorem Denotes.isNaN_eq_false {text : List Char} {kind : Kind}
    {literal : Literal} (h : Denotes text kind literal) {x : Binary64}
    (hx : literal.asNumber? = some x) : x.isNaN = false := by
  cases h with
  | whole =>
    cases hx
    exact Binary64.isNaN_nearest _
  | fraction =>
    cases hx
    exact Binary64.isNaN_nearest _
  | _ => cases hx

/-- A token of a source equals itself. -/
theorem equals_self_of_mem_tokensOf {source : String} {t : Token}
    (h : t ∈ tokensOf source) : t.equals t = true := by
  have hliteral : t.literal.equals t.literal = true := by
    rw [Literal.equals_self_iff]
    intro x hx
    obtain rfl | hdenotes := eq_eof_or_denotes_of_mem_tokensOf h
    · cases hx
    · exact hdenotes.isNaN_eq_false hx
  simp [Token.equals, hliteral]

/-- Tokens that equal themselves make up a list that does. -/
theorem isEqv_self {tokens : List Token}
    (h : ∀ t ∈ tokens, t.equals t = true) :
    tokens.isEqv tokens Token.equals = true := by
  induction tokens with
  | nil => rfl
  | cons t later ih =>
    rw [List.isEqv, h t List.mem_cons_self,
      ih fun u hu => h u (List.mem_cons_of_mem t hu)]
    rfl

/-- **Numbers are carried over to the tokens of a scan**, each to the nearest
there is. -/
theorem scan_numbers_carried (source : String) (diagnostics : Diagnostics) :
    NumbersCarried (scan source diagnostics).1 := by
  rw [fst_scan]
  constructor
  case carries =>
    intro t ht hkind
    exact exists_carries ht hkind
  case equals_self =>
    exact isEqv_self fun t ht => equals_self_of_mem_tokensOf ht
  case same =>
    intro other diagnostics t ht u hu htkind hukind q hqt hqu
    rw [fst_scan] at hu
    rw [literal_of_kind_eq_number ht htkind, literal_of_kind_eq_number hu hukind,
      hqt.isNearest_ofNumeral.unique hqu.isNearest_ofNumeral]

-- zeros in front and behind change the lexeme, and not the literal
example : (scan "007.50 7.5" .empty).1.map Token.literal =
    [.number ⟨0x401E000000000000⟩, .number ⟨0x401E000000000000⟩, .none] := by
  decide +kernel

end LoxLexer
