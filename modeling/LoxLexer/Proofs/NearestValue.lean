import LoxLexer.Proofs.Rounding

/-!
# The number nearest to a value

The format binary64 is usually described by fields: a number has a sign, an
exponent and a fraction, and these give its value. `value` is that
description, and `IsNearest` says in its terms what it is for a number to be
nearest to a value, ties and the end of the range included. Neither mentions
units or magnitudes, nor how a number is computed.

The two views meet in `absolute_eq`: a value without its sign is the units of
its magnitude. What rounding leads to is then nearest (`RoundsTo.isNearest`),
and since no second number is (`IsNearest.unique`), the number nearest to a
value is rounded to in turn. So where a number leaves the normal range can be
read off the points halfway.
-/

namespace LoxLexer

namespace Decimal

/-- The value of a decimal. -/
def value (d : Decimal) : ℚ :=
  d.coefficient / d.scale

/-- A decimal has no sign. -/
theorem value_nonneg (d : Decimal) : 0 ≤ d.value := by
  rw [value]
  positivity

end Decimal

namespace Binary64

/-! ## Fields -/

/-- The eleven bits of the exponent. -/
def exponent (x : Binary64) : ℕ :=
  x.magnitude / leadingBit

/-- The 52 bits of the fraction. -/
def fraction (x : Binary64) : ℕ :=
  x.magnitude % leadingBit

/-- The value of a finite number but for its sign. Where the exponent is zero
there is no leading bit. -/
def absolute (x : Binary64) : ℚ :=
  if x.exponent = 0 then (x.fraction : ℚ) * 2 ^ (-1074 : ℤ)
  else (2 ^ 52 + x.fraction : ℚ) * 2 ^ ((x.exponent : ℤ) - 1075)

/-- **The value of a finite number.** -/
def value (x : Binary64) : ℚ :=
  if x.isNegative then -x.absolute else x.absolute

/-- **A number is the one nearest to a value** that is not negative: it is as
near as any finite number, and if a finite number of another value is as near,
then its own last bit is clear. Beyond the last finite number, what is nearer
to it than to `2 ^ 1024` is still rounded to it; everything from halfway on is
infinite. -/
structure IsNearest (q : ℚ) (x : Binary64) : Prop where
  /-- The sign bit is clear. -/
  unsigned : x.isNegative = false
  /-- It is a number. -/
  number : x.isNaN = false
  /-- It is infinite from the point halfway between the last finite number and
  `2 ^ 1024` on. -/
  infinite_iff : x.isFinite = false ↔ (2 ^ 1024 - 2 ^ 970 : ℚ) ≤ q
  /-- If it is finite, no finite number is nearer. -/
  nearest : x.isFinite = true → ∀ y : Binary64, y.isFinite = true →
    |x.value - q| ≤ |y.value - q|
  /-- If it is finite and another value is as near, its last bit is clear. -/
  even : x.isFinite = true → ∀ y : Binary64, y.isFinite = true →
    y.value ≠ x.value → |y.value - q| = |x.value - q| → x.fraction % 2 = 0

/-! ## Values and units -/

variable {x y : Binary64} {q : ℚ} {m k : ℕ}

/-- The last bit of the fraction is that of the magnitude. -/
theorem fraction_mod_two (x : Binary64) : x.fraction % 2 = x.magnitude % 2 := by
  simp only [fraction, leadingBit]
  omega

/-- **A value is the units of its magnitude**, but for its sign. -/
theorem absolute_eq (x : Binary64) :
    x.absolute = (units x.magnitude : ℚ) / 2 ^ 1074 := by
  rw [absolute]
  split
  · next h =>
    have hlt : x.magnitude < leadingBit :=
      (Nat.div_eq_zero_iff_lt (by decide)).mp h
    rw [units, if_pos hlt, fraction, Nat.mod_eq_of_lt hlt, zpow_neg,
      div_eq_mul_inv]
    rfl
  · next h =>
    have hle : ¬ x.magnitude < leadingBit := fun hlt =>
      h (Nat.div_eq_of_lt hlt)
    obtain ⟨e, he⟩ : ∃ e, x.exponent = e + 1 :=
      ⟨x.exponent - 1, (Nat.succ_pred_eq_of_ne_zero h).symm⟩
    have hunits : (units x.magnitude : ℚ) = (2 ^ 52 + x.fraction) * 2 ^ e := by
      have hlead : (leadingBit : ℚ) = 2 ^ 52 := by norm_num [leadingBit]
      rw [units, if_neg hle, ← exponent, ← fraction, he, Nat.add_sub_cancel,
        Nat.shiftLeft_eq]
      push_cast
      rw [hlead]
    have hexponent : ((e + 1 : ℕ) : ℤ) - 1075 = (e : ℤ) - (1074 : ℕ) := by
      push_cast
      omega
    rw [hunits, he, hexponent, zpow_sub₀ two_ne_zero, zpow_natCast, zpow_natCast,
      mul_div_assoc]

/-- Without its sign no value is negative. -/
theorem absolute_nonneg (x : Binary64) : 0 ≤ x.absolute := by
  rw [absolute_eq]
  positivity

/-- Without a sign, the value is the units of the magnitude. -/
theorem value_eq_units (hx : x.isNegative = false) :
    x.value = (units x.magnitude : ℚ) / 2 ^ 1074 := by
  rw [value, hx, absolute_eq]
  rfl

/-- Without signs, the greater magnitude has the greater value. -/
theorem value_lt_value (hx : x.isNegative = false) (hy : y.isNegative = false)
    (h : x.magnitude < y.magnitude) : x.value < y.value := by
  have hunits : (units x.magnitude : ℚ) < units y.magnitude :=
    Nat.cast_lt.mpr (strictMono_units h)
  rw [value_eq_units hx, value_eq_units hy]
  exact div_lt_div_of_pos_right hunits (by positivity)

/-- Without a sign, only zero has the value zero. -/
theorem value_eq_zero_iff_magnitude (hx : x.isNegative = false) :
    x.value = 0 ↔ x.magnitude = 0 := by
  have hunits : units x.magnitude = units 0 ↔ x.magnitude = 0 :=
    strictMono_units.injective.eq_iff
  rw [value_eq_units hx, div_eq_zero_iff, or_iff_left (by positivity),
    Nat.cast_eq_zero, ← hunits]
  rfl

/-- Without signs, the magnitude decides on every bit. -/
theorem eq_of_magnitude_eq (hx : x.isNegative = false)
    (hy : y.isNegative = false) (h : x.magnitude = y.magnitude) : x = y := by
  rw [isNegative, decide_eq_false_iff_not, not_le] at hx hy
  rw [magnitude, magnitude, Nat.mod_eq_of_lt hx, Nat.mod_eq_of_lt hy] at h
  cases x
  cases y
  exact congrArg mk (UInt64.toNat_inj.mp h)

/-- Between two finite numbers that are not neighbours there is a third. -/
theorem exists_value_between (hx : x.isNegative = false)
    (hy : y.isNegative = false) (hfinite : y.isFinite = true)
    (h : x.magnitude + 1 < y.magnitude) :
    ∃ z : Binary64, z.isFinite = true ∧ x.value < z.value ∧
      z.value < y.value := by
  have hlt : x.magnitude + 1 < infinity := h.trans (of_decide_eq_true hfinite)
  have hsignBit : x.magnitude + 1 < signBit := hlt.trans (by decide)
  have hz := isNegative_ofMagnitude hsignBit
  have hmagnitude := magnitude_ofMagnitude hsignBit
  refine ⟨ofMagnitude (x.magnitude + 1), ?_, value_lt_value hx hz ?_,
    value_lt_value hz hy ?_⟩
  · rw [isFinite, hmagnitude]
    exact decide_eq_true hlt
  · rw [hmagnitude]
    exact Nat.lt_succ_self _
  · rwa [hmagnitude]

/-- A distance counted in units. -/
theorem abs_div_sub (a q : ℚ) :
    |a / 2 ^ 1074 - q| = |a - q * 2 ^ 1074| / 2 ^ 1074 := by
  have hscale : (0 : ℚ) < 2 ^ 1074 := by positivity
  rw [← abs_of_pos hscale, ← abs_div, abs_of_pos hscale, sub_div,
    mul_div_cancel_right₀ _ hscale.ne']

/-- A number is no further without its sign from what is not negative, and is
as far only if it has no sign to lose or the other is zero. -/
theorem abs_absolute_sub_le (x : Binary64) (hq : 0 ≤ q) :
    |x.absolute - q| ≤ |x.value - q| ∧
      (|x.absolute - q| = |x.value - q| → x.absolute = x.value ∨ q = 0) := by
  have hpos := x.absolute_nonneg
  rw [value]
  split
  · have hneg : |-x.absolute - q| = x.absolute + q := by
      rw [abs_of_nonpos (by linarith)]
      ring
    rw [hneg]
    refine ⟨abs_le.mpr ⟨by linarith, by linarith⟩, fun htie => ?_⟩
    obtain h | h := abs_choice (x.absolute - q) <;> rw [h] at htie
    · exact .inr (by linarith)
    · exact .inl (by linarith)
  · exact ⟨le_rfl, fun _ => .inl rfl⟩

/-! ## There is one nearest number -/

namespace IsNearest

/-- What is nearest and not finite is infinity. -/
theorem magnitude_eq_infinity (h : IsNearest q x) (hx : x.isFinite = false) :
    x.magnitude = infinity := by
  have hnumber := h.number
  simp only [isNaN, isFinite, decide_eq_false_iff_not] at hnumber hx
  omega

/-- Of two finite numbers that are nearest to a value, neither is greater.
Being even they are no neighbours, and what is between them is nearer. -/
theorem not_magnitude_lt (h : IsNearest q x) (h' : IsNearest q y)
    (hx : x.isFinite = true) (hy : y.isFinite = true) :
    ¬ x.magnitude < y.magnitude := by
  intro hlt
  have hvalue := value_lt_value h.unsigned h'.unsigned hlt
  have htie : |x.value - q| = |y.value - q| :=
    le_antisymm (h.nearest hx y hy) (h'.nearest hy x hx)
  have hmid := (abs_sub_le_abs_sub_iff_ge hvalue).mp htie.ge
  have hx_even := h.even hx y hy hvalue.ne' htie.symm
  have hy_even := h'.even hy x hx hvalue.ne htie
  rw [fraction_mod_two] at hx_even hy_even
  obtain ⟨z, hz, hxz, hzy⟩ :=
    exists_value_between h.unsigned h'.unsigned hy (by omega)
  have hnearer := (abs_sub_le_abs_sub_iff_le hxz).mp (h.nearest hx z hz)
  linarith

/-- **Only one number is nearest to a value**, down to its bits. -/
protected theorem unique (h : IsNearest q x) (h' : IsNearest q y) : x = y := by
  refine eq_of_magnitude_eq h.unsigned h'.unsigned ?_
  cases hx : x.isFinite with
  | false =>
    have hy := h'.infinite_iff.mpr (h.infinite_iff.mp hx)
    rw [h.magnitude_eq_infinity hx, h'.magnitude_eq_infinity hy]
  | true =>
    have hy : y.isFinite = true := by
      rw [← Bool.not_eq_false, h'.infinite_iff, ← h.infinite_iff, hx]
      decide
    exact Nat.le_antisymm (Nat.le_of_not_lt (h'.not_magnitude_lt h hy hx))
      (Nat.le_of_not_lt (h.not_magnitude_lt h' hx hy))

end IsNearest

/-! ## What is rounded to is nearest -/

/-- The point halfway between the last finite number and where the next value
would be. -/
theorem halfway_infinity_sub_one :
    halfway (infinity - 1) = (2 ^ 1024 - 2 ^ 970) * 2 ^ 1074 := by
  have hlow : (units (infinity - 1) : ℚ) = (2 * leadingBit - 1 : ℕ) * 2 ^ 2045 :=
    cast_units_add (e := 2045) (r := 2 * leadingBit - 1) ⟨by decide, by decide⟩
  have hhigh : (units (infinity - 1 + 1) : ℚ) = leadingBit * 2 ^ 2046 :=
    cast_units_add (e := 2046) (r := leadingBit) ⟨by decide, by decide⟩
  -- The powers are split by hand: they are too large to be worked out.
  have hsplit : ∀ a b c : ℕ, a = b + c → (2 : ℚ) ^ a = 2 ^ b * 2 ^ c :=
    fun a b c h => h ▸ pow_add 2 b c
  rw [halfway, hlow, hhigh, hsplit 1024 54 970 rfl, hsplit 2046 1 2045 rfl,
    hsplit 2045 971 1074 rfl, hsplit 971 1 970 rfl]
  generalize (2 : ℚ) ^ 970 = a
  generalize (2 : ℚ) ^ 1074 = b
  norm_num [leadingBit]
  ring

/-- A magnitude that is cut down to infinity is one of 63 bits. -/
theorem min_infinity_lt (m : ℕ) : min m infinity < signBit :=
  (Nat.min_le_right m infinity).trans_lt (by decide)

/-- Magnitudes below infinity are not cut down. -/
theorem isFinite_min_infinity :
    (ofMagnitude (min m infinity)).isFinite = true ↔ m < infinity := by
  rw [isFinite, magnitude_ofMagnitude (min_infinity_lt m), decide_eq_true_eq]
  omega

/-- The value of a magnitude below infinity. -/
theorem value_min_infinity (h : m < infinity) :
    (ofMagnitude (min m infinity)).value = (units m : ℚ) / 2 ^ 1074 := by
  rw [value_eq_units (isNegative_ofMagnitude (min_infinity_lt m)),
    magnitude_ofMagnitude (min_infinity_lt m), Nat.min_eq_left h.le]

namespace RoundsTo

/-- What a value is rounded to is no further from it than any number without
its sign. -/
theorem abs_sub_le (h : RoundsTo (q * 2 ^ 1074) m) (y : Binary64) :
    |(units m : ℚ) / 2 ^ 1074 - q| ≤ |y.absolute - q| := by
  rw [absolute_eq, abs_div_sub, abs_div_sub]
  exact div_le_div_of_nonneg_right (h.dist_le y.magnitude).1 (by positivity)

/-- What a value is rounded to is finite up to the last point halfway. -/
theorem lt_infinity_iff (h : RoundsTo (q * 2 ^ 1074) m) :
    m < infinity ↔ q < 2 ^ 1024 - 2 ^ 970 := by
  have hle : m < infinity ↔ m ≤ infinity - 1 := by
    simp only [infinity]
    omega
  rw [hle, h.le_iff, within_iff_of_odd (by decide), halfway_infinity_sub_one]
  exact mul_lt_mul_iff_left₀ (by positivity)

/-- **What a value is rounded to is the number nearest to it.** -/
theorem isNearest (hq : 0 ≤ q) (h : RoundsTo (q * 2 ^ 1074) m) :
    IsNearest q (ofMagnitude (min m infinity)) := by
  have hmagnitude := magnitude_ofMagnitude (min_infinity_lt m)
  constructor
  case unsigned => exact isNegative_ofMagnitude (min_infinity_lt m)
  case number =>
    rw [isNaN, hmagnitude]
    simp
  case infinite_iff =>
    rw [← Bool.not_eq_true, isFinite_min_infinity, h.lt_infinity_iff, not_lt]
  case nearest =>
    intro hx y _
    rw [value_min_infinity (isFinite_min_infinity.mp hx)]
    exact (h.abs_sub_le y).trans (y.abs_absolute_sub_le hq).1
  case even =>
    intro hx y _ hne htie
    have hlt := isFinite_min_infinity.mp hx
    rw [fraction_mod_two, hmagnitude, Nat.min_eq_left hlt.le]
    rw [value_min_infinity hlt] at hne htie
    obtain ⟨hle, hsign⟩ := y.abs_absolute_sub_le hq
    -- Either the other number loses no sign, or the value is zero.
    obtain habsolute | rfl :=
      hsign (hle.antisymm (htie.le.trans (h.abs_sub_le y)))
    · rw [← habsolute, absolute_eq] at hne htie
      rw [abs_div_sub, abs_div_sub, div_left_inj' (by positivity)] at htie
      exact (h.dist_le y.magnitude).2 (fun heq => hne (by rw [heq])) htie
    · rw [zero_mul] at h
      rw [h.unique .zero]

end RoundsTo

/-- **The number computed for a decimal is the one nearest to its value.** -/
theorem isNearest_nearest (d : Decimal) : IsNearest d.value (nearest d) := by
  have hscale : 0 < d.scale := Nat.pow_pos (by decide)
  obtain ⟨m, hm, h⟩ := exists_nearestMagnitude d.coefficient hscale
  rw [nearest, hm]
  exact RoundsTo.isNearest d.value_nonneg h

/-! ## Underflow -/

namespace IsNearest

/-- What is nearest to a value is what the value is rounded to, cut down to
infinity. -/
theorem exists_roundsTo (h : IsNearest q x) (hq : 0 ≤ q) :
    ∃ m, RoundsTo (q * 2 ^ 1074) m ∧ x.magnitude = min m infinity := by
  obtain ⟨m, hm⟩ := Binary64.exists_roundsTo hq
  rw [h.unique (hm.isNearest hq), magnitude_ofMagnitude (min_infinity_lt m)]
  exact ⟨m, hm, rfl⟩

/-- A value is rounded to the finite number nearest to it. -/
theorem roundsTo (h : IsNearest q x) (hq : 0 ≤ q) (hx : x.isFinite = true) :
    RoundsTo (q * 2 ^ 1074) x.magnitude := by
  obtain ⟨m, hm, hmagnitude⟩ := h.exists_roundsTo hq
  have hlt : x.magnitude < infinity := of_decide_eq_true hx
  obtain rfl : x.magnitude = m := by omega
  exact hm

/-- The magnitude of the nearest number compares with any finite one as the
value does with the point halfway. -/
theorem magnitude_le_iff (h : IsNearest q x) (hq : 0 ≤ q) (hk : k < infinity) :
    x.magnitude ≤ k ↔ Within (q * 2 ^ 1074) k := by
  obtain ⟨m, hm, hmagnitude⟩ := h.exists_roundsTo hq
  rw [hmagnitude, ← hm.le_iff]
  omega

/-- **Gradual underflow**: the nearest number has no leading bit when the value
is less than halfway from the last such number to the first normal one. -/
theorem exponent_eq_zero_iff (h : IsNearest q x) (hq : 0 ≤ q) :
    x.exponent = 0 ↔ q < 2 ^ (-1022 : ℤ) - 2 ^ (-1075 : ℤ) := by
  have hexponent : x.exponent = 0 ↔ x.magnitude ≤ leadingBit - 1 := by
    simp only [exponent, leadingBit]
    omega
  have hhalfway : halfway (leadingBit - 1) =
      (2 ^ (-1022 : ℤ) - 2 ^ (-1075 : ℤ)) * 2 ^ (1074 : ℤ) := by
    rw [sub_mul, ← zpow_add₀ two_ne_zero, ← zpow_add₀ two_ne_zero]
    norm_num [halfway, units, leadingBit]
  have hscale : (0 : ℚ) < 2 ^ (1074 : ℤ) := zpow_pos two_pos _
  rw [hexponent, h.magnitude_le_iff hq (by decide),
    within_iff_of_odd (by decide), hhalfway]
  exact mul_lt_mul_iff_left₀ hscale

/-- **Underflow to zero**: the nearest number is zero when the value is no
more than half the least one. -/
theorem value_eq_zero_iff (h : IsNearest q x) (hq : 0 ≤ q) :
    x.value = 0 ↔ q ≤ 2 ^ (-1075 : ℤ) := by
  have hhalfway : halfway 0 = 2 ^ (-1075 : ℤ) * 2 ^ (1074 : ℤ) := by
    rw [halfway_zero, ← zpow_add₀ two_ne_zero]
    norm_num
  have hscale : (0 : ℚ) < 2 ^ (1074 : ℤ) := zpow_pos two_pos _
  rw [value_eq_zero_iff_magnitude h.unsigned, ← Nat.le_zero,
    h.magnitude_le_iff hq (by decide), within_iff_of_even rfl, hhalfway]
  exact mul_le_mul_iff_left₀ hscale

end IsNearest

end Binary64

end LoxLexer
