import LoxLexer.Binary64.Shortest
import LoxLexer.Proofs.NearestValue
import Mathlib.Algebra.Order.Field.Power
import Mathlib.Tactic.FieldSimp
import Mathlib.Tactic.NormNum

/-!
# The shortest decimal reads back, and none is shorter

The search goes through the powers of ten from a high one downwards and looks,
at each, at the two multiples on either side of a value. It stops at the first
that rounds to the number (`roundsTo_iff`). This module says what it has found
by then: a decimal that reads back as the number (`nearest_shortest`), and one
with the fewest digits of all that do (`exists_isShortest`).

The numbers that round to a magnitude have no gaps between them
(`roundsTo_of_between`). From this everything follows. If any multiple of a
power rounds to a number, then one of the two beside its value does, so a power
that is passed over has none (`roundsTo_eq_false_of_candidate?`). And a decimal
with fewer digits than the one found, however small its last place is, would
leave a power of ten between the two, which is a multiple of a power that has
been passed over.
-/

namespace LoxLexer

namespace Binary64

variable {m n k p factor power : ℕ}

/-! ## The test of the search -/

/-- A number that is counted in a fraction of a unit is compared with twice
the point halfway in whole ones. -/
theorem within_div_iff {parts : ℕ} (hparts : 0 < parts) :
    Within (n / parts) k ↔
      2 * n < units k * parts + units (k + 1) * parts ∨
        2 * n = units k * parts + units (k + 1) * parts ∧ k % 2 = 0 := by
  have hcast : (0 : ℚ) < parts := Nat.cast_pos.mpr hparts
  have hhalfway : halfway k * parts * 2 =
      (units k * parts + units (k + 1) * parts : ℕ) := by
    rw [halfway]
    push_cast
    ring
  have hlt : (n / parts : ℚ) < halfway k ↔
      2 * n < units k * parts + units (k + 1) * parts := by
    rw [div_lt_iff₀ hcast, ← mul_lt_mul_iff_left₀ (two_pos : (0 : ℚ) < 2),
      hhalfway, mul_comm]
    exact_mod_cast Iff.rfl
  have heq : (n / parts : ℚ) = halfway k ↔
      2 * n = units k * parts + units (k + 1) * parts := by
    rw [div_eq_iff hcast.ne', ← mul_left_inj' (two_ne_zero : (2 : ℚ) ≠ 0),
      hhalfway, mul_comm]
    exact_mod_cast Iff.rfl
  rw [Within, hlt, heq]

/-- How many times `10 ^ -exponent` goes into `2 ^ -exponent`. -/
@[irreducible] def decimalParts (exponent : ℕ) : ℕ :=
  Nat.pow 5 exponent

/-- There is at least one. -/
theorem decimalParts_pos (exponent : ℕ) : 0 < decimalParts exponent := by
  unfold decimalParts
  exact Nat.pow_pos (by decide)

/-- The value of a magnitude in the smaller units. -/
theorem decimalUnits_eq (m : ℕ) :
    decimalUnits m = units m * decimalParts 1074 := by
  have hpow : ∀ k, units m * Nat.pow 5 k = units m * decimalParts k := fun k => by
    rw [decimalParts]
  exact hpow 1074

/-- Zero is zero in all units. -/
theorem decimalUnits_zero : decimalUnits 0 = 0 := by
  rw [decimalUnits_eq]
  exact Nat.zero_mul _

/-- Values grow with their magnitudes in the smaller units, too. -/
theorem strictMono_decimalUnits : StrictMono decimalUnits := by
  intro a b hab
  rw [decimalUnits_eq, decimalUnits_eq]
  exact Nat.mul_lt_mul_of_pos_right (strictMono_units hab)
    (decimalParts_pos 1074)

/-- The test compares with twice the points halfway on either side. Each of
them counts when the magnitude is even. -/
theorem roundsTo_eq_true_iff : roundsTo m n = true ↔
    (decimalUnits (m - 1) + decimalUnits m < 2 * n ∨
      decimalUnits (m - 1) + decimalUnits m = 2 * n ∧ m % 2 = 0) ∧
    (2 * n < decimalUnits m + decimalUnits (m + 1) ∨
      2 * n = decimalUnits m + decimalUnits (m + 1) ∧ m % 2 = 0) := by
  rw [roundsTo]
  split <;> rw [Bool.and_eq_true, decide_eq_true_eq, decide_eq_true_eq] <;> omega

/-- **The test of the search decides on rounding.** -/
theorem roundsTo_iff :
    roundsTo m n = true ↔ RoundsTo (n / decimalParts 1074) m := by
  rw [RoundsTo.iff_within, within_div_iff (decimalParts_pos 1074),
    roundsTo_eq_true_iff]
  simp only [within_div_iff (decimalParts_pos 1074), ← decimalUnits_eq]
  cases m with
  | zero =>
    rw [decimalUnits_zero, and_comm, and_congr_right_iff]
    intro _
    exact ⟨fun _ k hk => absurd hk (Nat.succ_ne_zero k), fun _ => by omega⟩
  | succ k =>
    simp only [Nat.add_sub_cancel, Nat.add_right_cancel_iff, forall_eq]
    omega

/-- The value of a number itself passes the test. -/
theorem roundsTo_decimalUnits (m : ℕ) : roundsTo m (decimalUnits m) = true := by
  have hhigh : decimalUnits m < decimalUnits (m + 1) :=
    strictMono_decimalUnits (Nat.lt_succ_self m)
  have hlow : decimalUnits (m - 1) ≤ decimalUnits m :=
    strictMono_decimalUnits.monotone (Nat.sub_le m 1)
  have hodd : m ≠ 0 → decimalUnits (m - 1) < decimalUnits m := fun hm =>
    strictMono_decimalUnits (Nat.sub_one_lt hm)
  rw [roundsTo_eq_true_iff]
  omega

/-- What is between two numbers that pass the test passes it. -/
theorem roundsTo_of_between {a b c : ℕ} (ha : roundsTo m a = true)
    (hc : roundsTo m c = true) (hab : a ≤ b) (hbc : b ≤ c) :
    roundsTo m b = true := by
  rw [roundsTo_eq_true_iff] at *
  omega

/-! ## One power -/

/-- What the search finds at a power passes the test. -/
theorem roundsTo_of_candidate? (h : candidate? m p = some factor) :
    roundsTo m (factor * Nat.pow 10 p) = true := by
  simp only [candidate?] at h
  split at h
  · next hbelow habove =>
    split at h <;> cases h
    · exact hbelow
    · exact habove
  · next hbelow _ =>
    cases h
    exact hbelow
  · next _ habove =>
    cases h
    exact habove
  · cases h

/-- Where it finds none, neither of the two beside the value passes. -/
theorem roundsTo_beside_of_candidate? (h : candidate? m p = none) :
    roundsTo m (decimalUnits m / Nat.pow 10 p * Nat.pow 10 p) = false ∧
      roundsTo m ((decimalUnits m / Nat.pow 10 p + 1) * Nat.pow 10 p) =
        false := by
  simp only [candidate?] at h
  split at h
  · split at h <;> cases h
  · cases h
  · cases h
  · next hbelow habove => exact ⟨hbelow, habove⟩

/-- **Where it finds none there is none**, near the value or not. -/
theorem roundsTo_eq_false_of_candidate? (h : candidate? m p = none)
    (factor : ℕ) : roundsTo m (factor * Nat.pow 10 p) = false := by
  obtain ⟨hbelow, habove⟩ := roundsTo_beside_of_candidate? h
  have hpos : 0 < Nat.pow 10 p := Nat.pow_pos (by decide)
  have hvalue := roundsTo_decimalUnits m
  rw [← Bool.not_eq_true] at hbelow habove ⊢
  intro hfactor
  -- the multiple beside the value is between it and the one that is tried
  obtain hlt | hle := Nat.lt_or_ge (decimalUnits m) (factor * Nat.pow 10 p)
  · refine habove (roundsTo_of_between hvalue hfactor ?_ ?_)
    · exact ((Nat.div_lt_iff_lt_mul hpos).mp (Nat.lt_succ_self _)).le
    · exact Nat.mul_le_mul_right _ ((Nat.div_lt_iff_lt_mul hpos).mpr hlt)
  · refine hbelow (roundsTo_of_between hfactor hvalue ?_ ?_)
    · exact Nat.mul_le_mul_right _ ((Nat.le_div_iff_mul_le hpos).mpr hle)
    · exact Nat.div_mul_le_self _ _

/-- At the lowest power there always is one. -/
theorem candidate?_zero_ne_none (m : ℕ) : candidate? m 0 ≠ none := by
  intro h
  have hvalue := roundsTo_eq_false_of_candidate? h (decimalUnits m)
  have hone : decimalUnits m * Nat.pow 10 0 = decimalUnits m := Nat.mul_one _
  rw [hone, roundsTo_decimalUnits] at hvalue
  cases hvalue

/-! ## All powers -/

/-- **What the search ends with passes the test**, and no multiple of a higher
power does, up to the one it began with. -/
theorem search_spec (h : search m power = (factor, p)) :
    roundsTo m (factor * Nat.pow 10 p) = true ∧
      ∀ k, p < k → k ≤ power → candidate? m k = none := by
  induction power with
  | zero =>
    obtain ⟨least, hleast⟩ :=
      Option.ne_none_iff_exists'.mp (candidate?_zero_ne_none m)
    rw [search, hleast] at h
    cases h
    exact ⟨roundsTo_of_candidate? hleast, fun k hlt hle => by omega⟩
  | succ power ih =>
    rw [search] at h
    split at h
    · next hfound =>
      cases h
      exact ⟨roundsTo_of_candidate? hfound, fun k hlt hle => by omega⟩
    · next hnone =>
      obtain ⟨hfactor, hhigher⟩ := ih h
      refine ⟨hfactor, fun k hlt hle => ?_⟩
      obtain hle | rfl := Nat.le_succ_iff.mp hle
      · exact hhigher k hlt hle
      · exact hnone

/-- Above zero the next value is at most twice as great. -/
theorem units_succ_le (hm : m ≠ 0) : units (m + 1) ≤ 2 * units m := by
  have hunit : 2 ^ (m / leadingBit - 1) ≤ units m := by
    rw [units]
    split
    · next hlt =>
      rw [Nat.div_eq_of_lt hlt]
      exact Nat.pos_of_ne_zero hm
    · rw [Nat.shiftLeft_eq]
      exact Nat.le_mul_of_pos_left _ (Nat.add_pos_left (by decide) _)
  rw [units_succ]
  omega

/-- What rounds to a number other than zero is positive and less than twice
its value. -/
theorem lt_of_roundsTo (hm : m ≠ 0) (h : roundsTo m n = true) :
    0 < n ∧ n < 2 * decimalUnits m := by
  have hpos : decimalUnits 0 < decimalUnits m :=
    strictMono_decimalUnits (Nat.pos_of_ne_zero hm)
  have hsucc : decimalUnits (m + 1) ≤ 2 * decimalUnits m := by
    rw [decimalUnits_eq, decimalUnits_eq, ← Nat.mul_assoc]
    exact Nat.mul_le_mul_right _ (units_succ_le hm)
  rw [decimalUnits_zero] at hpos
  rw [roundsTo_eq_true_iff] at h
  omega

/-- A power of ten beyond the highest one is beyond all that is less than twice
a value. -/
theorem lt_pow_of_highestPower_lt (h : highestPower m < p) :
    2 * decimalUnits m < 10 ^ p := by
  have hlog : 2 * decimalUnits m < 2 ^ ((decimalUnits m).log2 + 2) := by
    have := Nat.lt_log2_self (n := decimalUnits m)
    rw [Nat.pow_succ]
    omega
  rw [highestPower] at h
  generalize (decimalUnits m).log2 = log at h hlog
  -- compared to the power of 93, as `2 ^ 93` is just below `10 ^ 28`
  refine hlog.trans_le ((Nat.pow_le_pow_iff_left (n := 93) (by decide)).mp ?_)
  calc (2 ^ (log + 2)) ^ 93
      = (2 ^ 93) ^ log * 2 ^ 186 := by
        rw [← Nat.pow_mul, ← Nat.pow_mul, ← Nat.pow_add]
        congr 1
        omega
    _ ≤ (10 ^ 28) ^ log * 10 ^ 94 :=
        Nat.mul_le_mul (Nat.pow_le_pow_left (by norm_num) log) (by norm_num)
    _ = 10 ^ (28 * log + 94) := by rw [← Nat.pow_mul, ← Nat.pow_add]
    _ ≤ 10 ^ (p * 93) := Nat.pow_le_pow_right (by decide) (by omega)
    _ = (10 ^ p) ^ 93 := Nat.pow_mul ..

/-- **No multiple of a higher power rounds to the number.** -/
theorem le_of_roundsTo (hm : m ≠ 0)
    (hfound : search m (highestPower m) = (factor, p)) {other : ℕ}
    (h : roundsTo m (other * Nat.pow 10 k) = true) : k ≤ p := by
  obtain ⟨-, hhigher⟩ := search_spec hfound
  by_contra hlt
  obtain hbeyond | hle := Nat.lt_or_ge (highestPower m) k
  · obtain ⟨hpos, hvalue⟩ := lt_of_roundsTo hm h
    have hpow := lt_pow_of_highestPower_lt hbeyond
    have hother : 10 ^ k ≤ other * Nat.pow 10 k :=
      Nat.le_mul_of_pos_left _ (Nat.pos_of_mul_pos_right hpos)
    omega
  · have hnone := hhigher k (Nat.lt_of_not_le hlt) hle
    rw [roundsTo_eq_false_of_candidate? hnone] at h
    cases h

/-! ## Decimals on a grid -/

/-- A multiple of a power of ten in units of `2 ^ -exponent`. -/
theorem grid_units (factor power exponent : ℕ) :
    (factor : ℚ) * 10 ^ ((power : ℤ) - exponent) * 2 ^ exponent =
      (factor * Nat.pow 10 power : ℕ) / decimalParts exponent := by
  have hten : (10 : ℚ) ^ exponent = 2 ^ exponent * 5 ^ exponent := by
    rw [← mul_pow]
    norm_num
  rw [zpow_sub₀ (by norm_num), zpow_natCast, zpow_natCast, hten, decimalParts,
    Nat.pow_eq, Nat.pow_eq]
  push_cast
  field_simp

/-- A multiple of a power of ten is written with zeros behind it or with
places, as the power is above or below the unit. -/
theorem value_grid (factor power exponent : ℕ) :
    (⟨factor * Nat.pow 10 (power - exponent), exponent - power⟩ : Decimal).value =
      (factor : ℚ) * 10 ^ ((power : ℤ) - exponent) := by
  rw [Decimal.value, Decimal.scale, Nat.pow_eq, Nat.pow_eq]
  push_cast
  obtain hle | hle := Nat.le_total power exponent
  · obtain ⟨k, rfl⟩ := Nat.exists_eq_add_of_le hle
    have hexponent : (power : ℤ) - (power + k : ℕ) = -(k : ℤ) := by omega
    rw [hexponent, zpow_neg, zpow_natCast, Nat.sub_eq_zero_of_le hle,
      Nat.add_sub_cancel_left, pow_zero, mul_one, div_eq_mul_inv]
  · obtain ⟨k, rfl⟩ := Nat.exists_eq_add_of_le hle
    have hexponent : ((exponent + k : ℕ) : ℤ) - exponent = (k : ℤ) := by omega
    rw [hexponent, zpow_natCast, Nat.sub_eq_zero_of_le hle,
      Nat.add_sub_cancel_left, pow_zero, div_one]

/-- A multiple of a power of ten rounds to a magnitude when it passes the
test. -/
theorem roundsTo_grid_iff :
    RoundsTo ((factor : ℚ) * 10 ^ ((power : ℤ) - (1074 : ℕ)) * 2 ^ 1074) m ↔
      roundsTo m (factor * Nat.pow 10 power) = true := by
  rw [grid_units, roundsTo_iff]

/-- The shortest decimal is a multiple of the power that the search ends
with. -/
theorem exists_shortest (hm : m ≠ 0) :
    ∃ factor power, search m (highestPower m) = (factor, power) ∧
      (shortest m).value = (factor : ℚ) * 10 ^ ((power : ℤ) - (1074 : ℕ)) := by
  rw [shortest, if_neg hm]
  generalize highestPower m = highest
  cases hfound : search m highest with
  | mk factor power => exact ⟨factor, power, rfl, value_grid factor power 1074⟩

/-- **The shortest decimal rounds to its number.** -/
theorem roundsTo_shortest (m : ℕ) :
    RoundsTo ((shortest m).value * 2 ^ 1074) m := by
  by_cases hm : m = 0
  · have hvalue : (shortest 0).value = 0 := by simp [shortest, Decimal.value]
    rw [hm, hvalue, zero_mul]
    exact .zero
  · obtain ⟨factor, power, hfound, hvalue⟩ := exists_shortest hm
    rw [hvalue, roundsTo_grid_iff]
    exact (search_spec hfound).1

/-- A number without a sign is the one that its magnitude stands for. -/
theorem ofMagnitude_magnitude {x : Binary64} (hx : x.isNegative = false) :
    ofMagnitude x.magnitude = x := by
  have hlt : x.magnitude < signBit := Nat.mod_lt _ (by decide)
  exact eq_of_magnitude_eq (isNegative_ofMagnitude hlt) hx
    (magnitude_ofMagnitude hlt)

/-- **The number nearest to the shortest decimal of a number is that number.** -/
theorem nearest_shortest (h : m < infinity) :
    nearest (shortest m) = ofMagnitude m := by
  have hscale : 0 < (shortest m).scale := Nat.pow_pos (by decide)
  obtain ⟨m', hm', h'⟩ :=
    exists_nearestMagnitude (shortest m).coefficient hscale
  rw [nearest, hm', h'.unique (roundsTo_shortest m), Nat.min_eq_left h.le]

/-! ## Digits -/

/-- No decimal that rounds to a number other than zero has its last place above
that of the one found. -/
theorem le_of_roundsTo_grid (hm : m ≠ 0)
    (hfound : search m (highestPower m) = (factor, p)) {other : ℕ} {e : ℤ}
    (h : RoundsTo ((other : ℚ) * 10 ^ e * 2 ^ 1074) m) :
    e ≤ (p : ℤ) - (1074 : ℕ) := by
  by_contra hlt
  obtain ⟨k, rfl⟩ : ∃ k : ℕ, e = (k : ℤ) - (1074 : ℕ) :=
    ⟨(e + 1074).toNat, by omega⟩
  have hle := le_of_roundsTo hm hfound (roundsTo_grid_iff.mp h)
  omega

/-- No decimal that rounds to a number other than zero has fewer digits than
the one found: a power of ten between the two would have its last place
above. -/
theorem length_toDigits_le (hm : m ≠ 0)
    (hfound : search m (highestPower m) = (factor, p)) {other : ℕ} {e : ℤ}
    (h : RoundsTo ((other : ℚ) * 10 ^ e * 2 ^ 1074) m) :
    (Nat.toDigits 10 factor).length ≤ (Nat.toDigits 10 other).length := by
  have hfactor := roundsTo_grid_iff.mpr (search_spec hfound).1
  have hplace := le_of_roundsTo_grid hm hfound h
  have hdigits : 0 < (Nat.toDigits 10 other).length := Nat.length_toDigits_pos
  have hother : other < 10 ^ (Nat.toDigits 10 other).length :=
    (Nat.length_toDigits_le_iff (by decide) hdigits).mp le_rfl
  generalize (Nat.toDigits 10 other).length = count at hdigits hother ⊢
  rw [Nat.length_toDigits_le_iff (by decide) hdigits]
  by_contra hmany
  -- one with zeros behind it, at the place of the one found, is between the two
  have hlow : (other : ℚ) * 10 ^ e ≤ 10 ^ count * 10 ^ ((p : ℤ) - (1074 : ℕ)) :=
    mul_le_mul (by exact_mod_cast hother.le)
      (zpow_le_zpow_right₀ (by norm_num) hplace) (by positivity) (by positivity)
  have hhigh : (10 : ℚ) ^ count * 10 ^ ((p : ℤ) - (1074 : ℕ)) ≤
      factor * 10 ^ ((p : ℤ) - (1074 : ℕ)) :=
    mul_le_mul_of_nonneg_right (by exact_mod_cast Nat.le_of_not_lt hmany)
      (by positivity)
  have hpower : (10 : ℚ) ^ count * 10 ^ ((p : ℤ) - (1074 : ℕ)) =
      (1 : ℕ) * 10 ^ ((count + p : ℕ) - (1074 : ℕ) : ℤ) := by
    rw [Nat.cast_one, one_mul, Nat.cast_add, add_sub_assoc,
      zpow_add₀ (by norm_num), zpow_natCast]
  rw [hpower] at hlow hhigh
  have hbetween := h.of_between hfactor
    (mul_le_mul_of_nonneg_right hlow (by positivity))
    (mul_le_mul_of_nonneg_right hhigh (by positivity))
  have habove := le_of_roundsTo_grid hm hfound hbetween
  omega

/-- **A number in its shortest decimal**: a multiple of a power of ten to which
the number is nearest, and no multiple of any power that it is nearest to has
fewer digits. -/
structure IsShortest (x : Binary64) (digits : ℕ) (e : ℤ) : Prop where
  /-- It reads back. -/
  nearest : x.IsNearest (digits * 10 ^ e)
  /-- Nothing shorter does. -/
  fewest : ∀ (other : ℕ) (e' : ℤ), x.IsNearest (other * 10 ^ e') →
    (Nat.toDigits 10 digits).length ≤ (Nat.toDigits 10 other).length

/-- **The shortest decimal of a finite number without a sign is its
shortest.** -/
theorem exists_isShortest {x : Binary64} (hx : x.isNegative = false)
    (hfinite : x.isFinite = true) :
    ∃ (digits : ℕ) (e : ℤ),
      (shortest x.magnitude).value = digits * 10 ^ e ∧
      x.IsShortest digits e := by
  have hnearest : x.IsNearest (shortest x.magnitude).value := by
    have h := isNearest_nearest (shortest x.magnitude)
    rwa [nearest_shortest (of_decide_eq_true hfinite),
      ofMagnitude_magnitude hx] at h
  by_cases hm : x.magnitude = 0
  · have hvalue : (shortest x.magnitude).value = (0 : ℕ) * 10 ^ (0 : ℤ) := by
      simp [hm, shortest, Decimal.value]
    refine ⟨0, 0, hvalue, hvalue ▸ hnearest, fun other e' _ => ?_⟩
    exact Nat.length_toDigits_pos
  · obtain ⟨factor, power, hfound, hvalue⟩ := exists_shortest hm
    refine ⟨factor, _, hvalue, hvalue ▸ hnearest, fun other e' h => ?_⟩
    exact length_toDigits_le hm hfound (h.roundsTo (by positivity) hfinite)

end Binary64

end LoxLexer
