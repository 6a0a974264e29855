import LoxLexer.Diagnostics
import LoxLexer.Proofs.MaximalMunch
import LoxLexer.Proofs.NumberValues
import LoxLexer.Proofs.ShortestDecimal

/-!
# Printed numbers scan back

A listing shows a number in its shortest decimal. Scanned by itself, this text
is one number token, and the token carries the number that was printed, bit by
bit.

One half of it is that the decimal reads back (`nearest_shortest`). The other
is that the text of a decimal is a numeral, whatever the decimal is, and writes
its value (`Decimal.writes_numeral`): the digits in front of the point are never
missing, those behind it are as many as there are places, and without places
there is no point. A lexeme that stands alone is then all there is to its
source (`scan_lone`).
-/

namespace LoxLexer

/-- **A number token is printed so that it scans back.** -/
structure Token.ScansBack (t : Token) (x : Binary64) : Prop where
  /-- A listing shows the text of the literal behind the lexeme. -/
  shown : t.text = "NUMBER " ++ t.lexeme ++ " " ++ t.literal.text
  /-- The scan of this text reports nothing and returns a number token, whose
  lexeme is the whole text and whose literal is the same bit by bit, and the
  end of the source. -/
  scanned : ∀ diagnostics, scan t.literal.text diagnostics =
    ([⟨.number, t.literal.text, .number x, 1,
        ⟨0, t.literal.text.utf8ByteSize⟩⟩,
      .eof ⟨t.literal.text.utf8ByteSize, 1⟩], diagnostics)
  /-- No decimal with fewer digits would do. -/
  shortest : ∃ (digits : ℕ) (e : ℤ),
    Writes t.literal.text.toList (digits * 10 ^ e) ∧ x.IsShortest digits e

/-! ## The text of a decimal is a numeral -/

namespace Decimal

/-- The digits behind the point are as many as there are places. -/
theorem length_fractionDigits (d : Decimal) :
    d.fractionDigits.length = d.places := by
  rw [fractionDigits]
  split
  · next h => rw [h, List.length_nil]
  · next h =>
    have hlt : d.coefficient % d.scale < 10 ^ d.places :=
      Nat.mod_lt _ (Nat.pow_pos (by decide))
    have hle : (Nat.toDigits 10 (d.coefficient % d.scale)).length ≤ d.places :=
      (Nat.length_toDigits_le_iff (by decide) (Nat.pos_of_ne_zero h)).mpr hlt
    rw [List.length_leftpad, Nat.max_eq_left hle]

/-- The digits behind the point are the remainder by the scale. -/
theorem ofDigitChars_fractionDigits (d : Decimal) :
    Nat.ofDigitChars 10 d.fractionDigits 0 = d.coefficient % d.scale := by
  rw [fractionDigits]
  split
  · next h => simp [scale, h, Nat.mod_one]
  · rw [List.leftpad, Nat.ofDigitChars_append, Nat.ofDigitChars_replicate_zero,
      Nat.mul_zero, Nat.ofDigitChars_ten_toDigits]

/-- A value is its whole part and the fraction that is left. -/
theorem value_eq_add (d : Decimal) :
    d.value = (d.coefficient / d.scale : ℕ) +
      (d.coefficient % d.scale : ℕ) / (d.scale : ℚ) := by
  have hscale : (d.scale : ℚ) ≠ 0 :=
    Nat.cast_ne_zero.mpr (Nat.pow_pos (by decide)).ne'
  rw [value, eq_comm, ← mul_left_inj' hscale, add_mul, div_mul_cancel₀ _ hscale,
    div_mul_cancel₀ _ hscale]
  exact_mod_cast Nat.div_add_mod' d.coefficient d.scale

/-- **The numeral of a decimal writes its value.** -/
theorem writes_numeral (d : Decimal) : Writes d.numeral d.value := by
  have hall : ∀ c ∈ d.wholeDigits, isDigit c = true := fun c hc =>
    isDigit_of_mem_toDigits hc
  have hne : d.wholeDigits ≠ [] := Nat.toDigits_ne_nil
  have hwhole : Nat.ofDigitChars 10 d.wholeDigits 0 = d.coefficient / d.scale :=
    Nat.ofDigitChars_ten_toDigits
  have hfraction := d.ofDigitChars_fractionDigits
  have hlength := d.length_fractionDigits
  rw [numeral, value_eq_add, ← hwhole, ← hfraction]
  split
  · next h =>
    have hnone : d.fractionDigits = [] := by rw [fractionDigits, if_pos h]
    simpa [hnone] using Writes.whole hne hall
  · next h =>
    have hsome : d.fractionDigits ≠ [] := by
      rw [← List.length_pos_iff, hlength]
      exact Nat.pos_of_ne_zero h
    have hwrites := Writes.fraction hne hall hsome fun c hc =>
      isDigit_of_mem_fractionDigits hc
    rw [hlength] at hwrites
    simpa [scale] using hwrites

example : Decimal.numeral ⟨5, 3⟩ = "0.005".toList := by decide

end Decimal

/-- What writes a number denotes the one it comes to. -/
theorem Writes.denotes {text : List Char} {q : ℚ} (h : Writes text q) :
    Denotes text .number (.number (.ofNumeral text)) := by
  cases h with
  | whole ne all => exact (Lexeme.whole ne all).denotes
  | fraction whole_ne whole_all ne all =>
    exact (Lexeme.fraction whole_ne whole_all ne all).denotes

/-! ## A lexeme that stands alone -/

/-- The scan of a lexeme that stands alone returns its token and the end of the
source, and reports nothing. -/
theorem scan_lone {text : String} {kind : Kind} {literal : Literal}
    (h : Denotes text.toList kind literal) (diagnostics : Diagnostics) :
    scan text diagnostics =
      ([⟨kind, text, literal, 1, ⟨0, text.utf8ByteSize⟩⟩,
        .eof (Position.start.after text.toList)], diagnostics) := by
  have hpieces : pieces text.toList = [⟨text.toList, .lexeme kind⟩] := by
    have hcut := h.lexeme.cutOff.pieces_append
    rwa [List.append_nil, pieces_nil] at hcut
  have htoken : Token.ofLexeme kind text.toList .start =
      ⟨kind, text, literal, 1, ⟨0, text.utf8ByteSize⟩⟩ := by
    rw [Token.ofLexeme, ← h.literal_eq, String.ofList_toList,
      Position.offset_after, byteLength_toList]
    simp [Position.start]
  rw [scan, scanWith_eq, tokensOf, errorsOf, hpieces]
  simp [collectFrom, Piece.token?, Piece.error?, htoken]

/-- A number is written on one line. -/
theorem Denotes.lineFeeds_eq_zero {text : List Char} {literal : Literal}
    (h : Denotes text .number literal) : lineFeeds text = 0 := by
  refine List.count_eq_zero.mpr fun hmem => ?_
  have hblank := h.isBlank_of_mem Kind.noConfusion '\n' hmem
  exact absurd hblank (by decide)

/-- The scan of a number that stands alone. -/
theorem scan_lone_number {text : String} {x : Binary64}
    (h : Denotes text.toList .number (.number x)) (diagnostics : Diagnostics) :
    scan text diagnostics =
      ([⟨.number, text, .number x, 1, ⟨0, text.utf8ByteSize⟩⟩,
        .eof ⟨text.utf8ByteSize, 1⟩], diagnostics) := by
  rw [scan_lone h, Position.after, byteLength_toList, h.lineFeeds_eq_zero]
  simp [Position.start]

/-! ## Numbers of a listing -/

/-- A finite number without a sign is shown as its shortest decimal. -/
theorem Binary64.toList_text {x : Binary64} (hx : x.isNegative = false)
    (hfinite : x.isFinite = true) :
    x.text.toList = (shortest x.magnitude).numeral := by
  have hlt : x.magnitude < infinity := of_decide_eq_true hfinite
  have hnumber : x.isNaN = false := decide_eq_false (Nat.not_lt.mpr hlt.le)
  simp [text, hnumber, hx, hlt.ne, Decimal.text]

/-- What is shown of it writes its shortest decimal. -/
theorem Binary64.exists_writes_text {x : Binary64} (hx : x.isNegative = false)
    (hfinite : x.isFinite = true) :
    ∃ (digits : ℕ) (e : ℤ),
      Writes x.text.toList (digits * 10 ^ e) ∧ x.IsShortest digits e := by
  obtain ⟨digits, e, hvalue, hshortest⟩ := exists_isShortest hx hfinite
  refine ⟨digits, e, ?_, hshortest⟩
  rw [toList_text hx hfinite, ← hvalue]
  exact Decimal.writes_numeral _

/-- **Printed numbers scan back**, unless they are infinite. -/
theorem scan_text_of_number {source : String} {diagnostics : Diagnostics}
    {t : Token} (h : t ∈ (scan source diagnostics).1) (hkind : t.kind = .number)
    {x : Binary64} (hliteral : t.literal = .number x)
    (hfinite : x.isFinite = true) : t.ScansBack x := by
  rw [fst_scan] at h
  obtain ⟨q, -, -, -, y, hy, hnearest, -⟩ := exists_carries h hkind
  obtain rfl : x = y := Literal.number.inj (hliteral.symm.trans hy)
  have hwritten := Binary64.exists_writes_text hnearest.unsigned hfinite
  constructor
  case shown =>
    have hname : Kind.name .number ++ " " = "NUMBER " := by decide
    have hshown : (Literal.number x).isNone = false := rfl
    rw [Token.text, hkind, hliteral, hname, hshown]
    exact String.append_assoc.symm
  case scanned =>
    obtain ⟨digits, e, hwrites, hshortest⟩ := hwritten
    have hdenotes := hwrites.denotes
    rw [hwrites.isNearest_ofNumeral.unique hshortest.nearest] at hdenotes
    rw [hliteral]
    exact scan_lone_number hdenotes
  case shortest =>
    rw [hliteral]
    exact hwritten

/-- A number with more digits than its literal can hold is printed with fewer,
and these scan back to the literal. -/
theorem scan_text_of_tenth :
    ⟨.number, "0.10000000000000000001", .number ⟨0x3FB999999999999A⟩, 1,
        ⟨2, 24⟩⟩ ∈ (scan "a<0.10000000000000000001;" .empty).1 ∧
      (Literal.number ⟨0x3FB999999999999A⟩).text = "0.1" ∧
      scan "0.1" .empty =
        ([⟨.number, "0.1", .number ⟨0x3FB999999999999A⟩, 1, ⟨0, 3⟩⟩,
          .eof ⟨3, 1⟩], .empty) := by
  have hmem : ⟨.number, "0.10000000000000000001",
      .number ⟨0x3FB999999999999A⟩, 1, ⟨2, 24⟩⟩ ∈
      (scan "a<0.10000000000000000001;" .empty).1 := by
    decide +kernel
  have htext : (Literal.number ⟨0x3FB999999999999A⟩).text = "0.1" := by
    decide +kernel
  have hscan := (scan_text_of_number hmem rfl rfl (by decide)).scanned .empty
  have hsize : "0.1".utf8ByteSize = 3 := by decide
  rw [htext, hsize] at hscan
  exact ⟨hmem, htext, hscan⟩

end LoxLexer
