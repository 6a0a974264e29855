import LoxLexer.Binary64.Nearest
import Mathlib.Algebra.Order.Field.Basic
import Mathlib.Algebra.Order.Ring.Abs
import Mathlib.Algebra.Order.Ring.Rat
import Mathlib.Order.Bounds.Basic
import Mathlib.Tactic.Linarith
import Mathlib.Tactic.Positivity
import Mathlib.Tactic.Ring

/-!
# The magnitude that a number is rounded to

Magnitudes are natural numbers, and their values grow with them
(`strictMono_units`). Rounding to the nearest value therefore needs no
distances. A number is rounded to `k` or below when it lies below the point
halfway between the values of `k` and `k + 1`, or on that point with `k` even
(`Within`); what it is rounded to is the least such `k` (`RoundsTo`). So a
statement that compares the result with a fixed magnitude is one that compares
the number with a fixed point, and the ends of the format – zero, the first
normal number, infinity – are magnitudes like any others.

What is computed is found in another way, by one division that leaves 53 bits.
That the result is the least `k` takes two steps: the quotient is off by half
a unit of its last place (`divRoundEven_spec`), and around a significand of
53 bits this unit is the distance to the next value
(`RoundsTo.of_significand`). Only below the least normal significand are the
values closer together; but what was rounded up to it has not been below it.
-/

namespace LoxLexer

/-! ## Distances -/

section Distance

variable {a b u : ℚ}

/-- What is not past the middle is nearer to the lower end. -/
theorem abs_sub_le_abs_sub_iff_le (h : a < b) :
    |a - u| ≤ |b - u| ↔ u ≤ (a + b) / 2 := by
  have hsquares : (b - u) ^ 2 - (a - u) ^ 2 = (b - a) * (a + b - 2 * u) := by
    ring
  rw [← sq_le_sq, ← sub_nonneg, hsquares,
    mul_nonneg_iff_of_pos_left (sub_pos.mpr h), sub_nonneg, le_div_iff₀' two_pos]

/-- What is past the middle is nearer to the upper end. -/
theorem abs_sub_le_abs_sub_iff_ge (h : a < b) :
    |b - u| ≤ |a - u| ↔ (a + b) / 2 ≤ u := by
  have hsquares : (a - u) ^ 2 - (b - u) ^ 2 = (b - a) * (2 * u - (a + b)) := by
    ring
  rw [← sq_le_sq, ← sub_nonneg, hsquares,
    mul_nonneg_iff_of_pos_left (sub_pos.mpr h), sub_nonneg, div_le_iff₀' two_pos]

end Distance

/-- A rounded quotient is off by half a divisor at most, and it is even if it
is off by as much. -/
theorem divRoundEven_spec (num : ℕ) {den : ℕ} (h : 0 < den) :
    2 * (divRoundEven num den * den) ≤ 2 * num + den ∧
      2 * num ≤ 2 * (divRoundEven num den * den) + den ∧
      (2 * num = 2 * (divRoundEven num den * den) + den ∨
        2 * num + den = 2 * (divRoundEven num den * den) →
        divRoundEven num den % 2 = 0) := by
  have hnum := Nat.div_add_mod' num den
  have hleft := Nat.mod_lt num h
  unfold divRoundEven
  simp only
  generalize num / den = whole at hnum ⊢
  generalize num % den = left at hnum hleft ⊢
  have hsucc : (whole + 1) * den = whole * den + den := Nat.succ_mul whole den
  split
  · omega
  split
  · rw [hsucc]
    omega
  obtain heven | hodd := Nat.mod_two_eq_zero_or_one whole
  · rw [heven, Nat.add_zero]
    omega
  · rw [hodd, hsucc]
    omega

namespace Binary64

/-! ## Significands -/

/-- **A significand at an exponent**: a number of 53 bits, or the next one, to
which rounding can carry. -/
structure IsSignificand (e r : ℕ) : Prop where
  /-- It has 53 bits at most, or is the first with more. -/
  le : r ≤ 2 * leadingBit
  /-- It has no fewer, unless the exponent is the least. -/
  normal : e = 0 ∨ leadingBit ≤ r

section Significand

variable {e r : ℕ}

/-- A significand put behind its exponent is the magnitude of the scaled
significand, also when it carries into the exponent. -/
theorem units_add (h : IsSignificand e r) :
    units (e * leadingBit + r) = r * 2 ^ e := by
  obtain ⟨hle, hnormal⟩ := h
  rw [units, Nat.shiftLeft_eq]
  by_cases hsub : e * leadingBit + r < leadingBit
  · obtain rfl : e = 0 := by
      simp only [leadingBit] at *
      omega
    simp [show r < leadingBit by omega]
  rw [if_neg hsub]
  obtain hlt | rfl := hle.lt_or_eq
  · have hdiv : (e * leadingBit + r) / leadingBit - 1 = e := by
      simp only [leadingBit] at *
      omega
    have hmod : leadingBit + (e * leadingBit + r) % leadingBit = r := by
      simp only [leadingBit] at *
      omega
    rw [hmod, hdiv]
  · have hdiv : (e * leadingBit + 2 * leadingBit) / leadingBit - 1 = e + 1 := by
      simp only [leadingBit]
      omega
    have hmod : (e * leadingBit + 2 * leadingBit) % leadingBit = 0 := by
      simp only [leadingBit]
      omega
    rw [hmod, hdiv, Nat.pow_succ]
    ring

/-- The same as an equation of rational numbers. -/
theorem cast_units_add (h : IsSignificand e r) :
    (units (e * leadingBit + r) : ℚ) = r * 2 ^ e := by
  exact_mod_cast units_add h

/-- From one magnitude to the next, the value grows by the unit of its last
place. -/
theorem units_succ (m : ℕ) :
    units (m + 1) = units m + 2 ^ (m / leadingBit - 1) := by
  obtain ⟨r, hm, h⟩ : ∃ r, m = (m / leadingBit - 1) * leadingBit + r ∧
      r < 2 * leadingBit ∧ (m / leadingBit - 1 = 0 ∨ leadingBit ≤ r) := by
    refine ⟨m - (m / leadingBit - 1) * leadingBit, ?_⟩
    simp only [leadingBit]
    omega
  generalize m / leadingBit - 1 = e at hm h ⊢
  subst hm
  rw [Nat.add_assoc, units_add ⟨by omega, by omega⟩, units_add ⟨by omega, h.2⟩]
  ring

/-- Values grow with their magnitudes. -/
theorem strictMono_units : StrictMono units :=
  strictMono_nat_of_lt_succ fun m => by
    rw [units_succ]
    exact Nat.lt_add_of_pos_right (Nat.two_pow_pos _)

/-- Above a significand, the distance to the next value is no less than the
unit of its last place. -/
theorem add_le_units_add (h : IsSignificand e r) :
    r * 2 ^ e + 2 ^ e ≤ units (e * leadingBit + r + 1) := by
  rw [units_succ, units_add h]
  obtain ⟨hle, hnormal⟩ := h
  refine Nat.add_le_add_left (Nat.pow_le_pow_right (by decide) ?_) _
  simp only [leadingBit] at *
  omega

end Significand

/-! ## Rounding by points halfway -/

/-- The point halfway between the values of two magnitudes that follow on one
another. -/
def halfway (k : ℕ) : ℚ :=
  ((units k : ℚ) + units (k + 1)) / 2

/-- **A number is rounded to a magnitude or below**: it is less than the point
halfway to the next one, or is that point and the magnitude is even. Numbers
are counted in units of `2 ^ -1074`. -/
def Within (u : ℚ) (k : ℕ) : Prop :=
  u < halfway k ∨ u = halfway k ∧ k % 2 = 0

/-- **A number is rounded to a magnitude**: it is the least one that the
number is rounded to or below. -/
def RoundsTo (u : ℚ) (m : ℕ) : Prop :=
  IsLeast {k | Within u k} m

/-- Halfway between zero and the least value is half that value. -/
theorem halfway_zero : halfway 0 = 1 / 2 := by
  norm_num [halfway, units, leadingBit]

/-- The points halfway grow with their magnitudes. -/
theorem strictMono_halfway : StrictMono halfway :=
  strictMono_nat_of_lt_succ fun k => by
    have h : units k < units (k + 2) := strictMono_units (by omega)
    have hcast : (units k : ℚ) < units (k + 2) := Nat.cast_lt.mpr h
    simp only [halfway]
    linarith

variable {u : ℚ} {m n k : ℕ}

/-- At an odd magnitude the point halfway belongs to the next one. -/
theorem within_iff_of_odd (h : k % 2 = 1) : Within u k ↔ u < halfway k := by
  rw [Within, h]
  simp

/-- At an even magnitude the point halfway belongs to it. -/
theorem within_iff_of_even (h : k % 2 = 0) : Within u k ↔ u ≤ halfway k := by
  rw [Within, le_iff_lt_or_eq]
  simp [h]

/-- What is rounded to a magnitude or below is so for every greater one. -/
theorem Within.mono (h : Within u k) (hle : k ≤ n) : Within u n := by
  obtain rfl | hlt := hle.eq_or_lt
  · exact h
  · have hhalfway := strictMono_halfway hlt
    obtain h | ⟨h, -⟩ := h
    · exact .inl (h.trans hhalfway)
    · exact .inl (h.trans_lt hhalfway)

/-- A lesser number is rounded to the same magnitude or below. -/
theorem Within.of_le {v : ℚ} (h : Within v k) (hle : u ≤ v) : Within u k := by
  obtain rfl | hlt := hle.eq_or_lt
  · exact h
  · obtain h | ⟨h, -⟩ := h
    · exact .inl (hlt.trans h)
    · exact .inl (hlt.trans_eq h)

namespace RoundsTo

/-- It is enough to look at one magnitude and the one in front of it. -/
theorem iff_within : RoundsTo u m ↔
    Within u m ∧ ∀ k, k + 1 = m → ¬ Within u k := by
  constructor
  · intro h
    exact ⟨h.1, fun k hk hwithin => absurd (h.2 hwithin) (by omega)⟩
  · rintro ⟨high, low⟩
    refine ⟨high, fun k hk => ?_⟩
    by_contra hlt
    exact low (m - 1) (by omega) (hk.mono (by omega))

/-- What a number is rounded to compares with any magnitude as the number does
with the point halfway. -/
theorem le_iff (h : RoundsTo u m) : m ≤ k ↔ Within u k :=
  ⟨fun hle => h.1.mono hle, fun hk => h.2 hk⟩

/-- What is between two numbers that are rounded to a magnitude is rounded to
it. -/
theorem of_between {v w : ℚ} (hv : RoundsTo v m) (hw : RoundsTo w m)
    (hle : v ≤ u) (hle' : u ≤ w) : RoundsTo u m :=
  ⟨hw.1.of_le hle', fun _ hk => hv.2 (Within.of_le hk hle)⟩

/-- Zero is rounded to zero. -/
theorem zero : RoundsTo 0 0 :=
  iff_within.mpr ⟨.inl (by norm_num [halfway_zero]), fun _ hk => by omega⟩

/-- A number is rounded to one magnitude only. -/
protected theorem unique (h : RoundsTo u m) (h' : RoundsTo u n) : m = n :=
  IsLeast.unique h h'

/-- A number is not past the point halfway to the next value, and is on it
only if it is rounded to even. -/
theorem le_halfway (h : RoundsTo u m) :
    u ≤ halfway m ∧ (u = halfway m → m % 2 = 0) := by
  obtain hlt | ⟨heq, heven⟩ := h.1
  · exact ⟨hlt.le, fun heq => absurd heq hlt.ne⟩
  · exact ⟨heq.le, fun _ => heven⟩

/-- A number is past the point halfway from the value in front, and is on it
only if it is rounded to even. -/
theorem halfway_le (h : RoundsTo u (k + 1)) :
    halfway k ≤ u ∧ (u = halfway k → (k + 1) % 2 = 0) := by
  have hnot : ¬ Within u k := fun hk => absurd (h.2 hk) (by omega)
  rw [Within, not_or, not_lt] at hnot
  refine ⟨hnot.1, fun heq => ?_⟩
  have hodd : ¬ k % 2 = 0 := fun heven => hnot.2 ⟨heq, heven⟩
  omega

/-- **What a number is rounded to is nearest**: no value is nearer to the
number, and if another is as near, then the magnitude is even. -/
theorem dist_le (h : RoundsTo u m) (n : ℕ) :
    |(units m : ℚ) - u| ≤ |(units n : ℚ) - u| ∧
      (n ≠ m → |(units n : ℚ) - u| = |(units m : ℚ) - u| → m % 2 = 0) := by
  have hmono : ∀ {a b}, a ≤ b → (units a : ℚ) ≤ units b := fun hab =>
    Nat.cast_le.mpr (strictMono_units.monotone hab)
  have hstrict : ∀ {a b}, a < b → (units a : ℚ) < units b := fun hab =>
    Nat.cast_lt.mpr (strictMono_units hab)
  obtain hlt | rfl | hgt := Nat.lt_trichotomy n m
  · obtain ⟨k, rfl⟩ : ∃ k, m = k + 1 := ⟨m - 1, by omega⟩
    obtain ⟨hlow, heven⟩ := h.halfway_le
    have hmid : ((units n : ℚ) + units (k + 1)) / 2 ≤ halfway k := by
      have := hmono (Nat.le_of_lt_succ hlt)
      simp only [halfway]
      linarith
    refine ⟨(abs_sub_le_abs_sub_iff_ge (hstrict hlt)).mpr (hmid.trans hlow),
      fun _ htie => heven (le_antisymm ?_ hlow)⟩
    exact ((abs_sub_le_abs_sub_iff_le (hstrict hlt)).mp htie.le).trans hmid
  · exact ⟨le_rfl, fun hne => absurd rfl hne⟩
  · obtain ⟨hhigh, heven⟩ := h.le_halfway
    have hmid : halfway m ≤ ((units m : ℚ) + units n) / 2 := by
      have := hmono (Nat.succ_le_of_lt hgt)
      simp only [halfway]
      linarith
    refine ⟨(abs_sub_le_abs_sub_iff_le (hstrict hgt)).mpr (hhigh.trans hmid),
      fun _ htie => heven (le_antisymm hhigh ?_)⟩
    exact hmid.trans ((abs_sub_le_abs_sub_iff_ge (hstrict hgt)).mp htie.le)

end RoundsTo

/-! ## The computed magnitude -/

section Computed

variable {e r : ℕ}

/-- A number that exceeds a significand by half a unit at most is rounded to
it or below. -/
theorem within_of_le (h : IsSignificand e r)
    (high : u ≤ (r : ℚ) * 2 ^ e + 2 ^ e / 2)
    (even : u = (r : ℚ) * 2 ^ e + 2 ^ e / 2 → r % 2 = 0) :
    Within u (e * leadingBit + r) := by
  have hsucc : (r : ℚ) * 2 ^ e + 2 ^ e ≤ units (e * leadingBit + r + 1) := by
    exact_mod_cast add_le_units_add h
  have hhalfway : (r : ℚ) * 2 ^ e + 2 ^ e / 2 ≤ halfway (e * leadingBit + r) := by
    rw [halfway, cast_units_add h]
    linarith
  obtain hlt | heq := (high.trans hhalfway).lt_or_eq
  · exact .inl hlt
  · have hr := even (le_antisymm high (heq ▸ hhalfway))
    refine .inr ⟨heq, ?_⟩
    simp only [leadingBit]
    omega

/-- A number that falls short of a significand by half a unit at most is not
rounded to the magnitude in front. Where the values in front are closer
together, the number has to be no less than the significand. -/
theorem not_within_of_le (h : IsSignificand e r)
    (floor : e = 0 ∨ (leadingBit * 2 ^ e : ℚ) ≤ u)
    (low : (r : ℚ) * 2 ^ e - 2 ^ e / 2 ≤ u)
    (even : u = (r : ℚ) * 2 ^ e - 2 ^ e / 2 → r % 2 = 0)
    (hk : k + 1 = e * leadingBit + r) : ¬ Within u k := by
  intro hwithin
  have hhalfway : halfway k = (units k + r * 2 ^ e) / 2 := by
    rw [halfway, hk, cast_units_add h]
  have hle := h.le
  -- only in front of the least significand are values closer than behind it
  by_cases hsame : e = 0 ∨ leadingBit < r
  · obtain ⟨s, rfl⟩ : ∃ s, r = s + 1 := by
      refine ⟨r - 1, ?_⟩
      simp only [leadingBit] at *
      omega
    have hk' : k = e * leadingBit + s := by omega
    rw [hk', cast_units_add ⟨by omega, by omega⟩, Nat.cast_succ] at hhalfway
    rw [Nat.cast_succ] at low even
    obtain hlt | ⟨heq, heven⟩ := hwithin
    · rw [hk', hhalfway] at hlt
      linarith
    · rw [hk', hhalfway] at heq
      have hs := even (by linarith)
      simp only [leadingBit] at *
      omega
  · obtain ⟨he, hr⟩ := not_or.mp hsame
    obtain rfl : r = leadingBit :=
      Nat.le_antisymm (Nat.le_of_not_lt hr) (h.normal.resolve_left he)
    have hfloor := floor.resolve_left he
    have hlt : (units k : ℚ) < leadingBit * 2 ^ e := by
      rw [← cast_units_add h, ← hk]
      exact Nat.cast_lt.mpr (strictMono_units (Nat.lt_succ_self k))
    obtain hlt' | ⟨heq, -⟩ := hwithin <;> linarith

/-- A number that is off a significand by half a unit at most is rounded to
it. -/
theorem RoundsTo.of_significand (h : IsSignificand e r)
    (floor : e = 0 ∨ (leadingBit * 2 ^ e : ℚ) ≤ u)
    (high : u ≤ (r : ℚ) * 2 ^ e + 2 ^ e / 2)
    (low : (r : ℚ) * 2 ^ e - 2 ^ e / 2 ≤ u)
    (even : u = (r : ℚ) * 2 ^ e + 2 ^ e / 2 ∨
      u = (r : ℚ) * 2 ^ e - 2 ^ e / 2 → r % 2 = 0) :
    RoundsTo u (e * leadingBit + r) :=
  RoundsTo.iff_within.mpr
    ⟨within_of_le h high fun heq => even (.inl heq), fun _ =>
      not_within_of_le h floor low fun heq => even (.inr heq)⟩

/-- A quotient of 53 bits, rounded to a whole number, is a significand. -/
theorem isSignificand_divRoundEven {num den : ℕ} (hden : 0 < den)
    (hlt : num < 2 * leadingBit * den) (hle : e = 0 ∨ leadingBit * den ≤ num) :
    IsSignificand e (divRoundEven num den) := by
  obtain ⟨hup, hdown, -⟩ := divRoundEven_spec num hden
  generalize divRoundEven num den = r at hup hdown ⊢
  constructor
  · have hmul : 2 * r * den < (4 * leadingBit + 1) * den := by linarith
    have hr := Nat.lt_of_mul_lt_mul_right hmul
    omega
  · refine hle.imp_right fun hle => ?_
    have hmul : 2 * leadingBit * den ≤ (2 * r + 1) * den := by linarith
    have hr := Nat.le_of_mul_le_mul_right hmul hden
    omega

/-- A quotient is rounded to what its division by the unit leaves, behind the
exponent of that unit. -/
theorem roundsTo_divRoundEven {num den : ℕ} (hden : 0 < den)
    (hlt : num < 2 * leadingBit * (den * 2 ^ e))
    (hle : e = 0 ∨ leadingBit * (den * 2 ^ e) ≤ num) :
    RoundsTo (num / den) (e * leadingBit + divRoundEven num (den * 2 ^ e)) := by
  have hunit : 0 < den * 2 ^ e := Nat.mul_pos hden (Nat.two_pow_pos e)
  have hsignificand := isSignificand_divRoundEven hunit hlt hle
  obtain ⟨hup, hdown, heven⟩ := divRoundEven_spec num hunit
  generalize divRoundEven num (den * 2 ^ e) = r at *
  have hcast : (0 : ℚ) < den := Nat.cast_pos.mpr hden
  have hup : (2 : ℚ) * (r * (den * 2 ^ e)) ≤ 2 * num + den * 2 ^ e := by
    exact_mod_cast hup
  have hdown : (2 : ℚ) * num ≤ 2 * (r * (den * 2 ^ e)) + den * 2 ^ e := by
    exact_mod_cast hdown
  have heven : (2 : ℚ) * num = 2 * (r * (den * 2 ^ e)) + den * 2 ^ e ∨
      (2 : ℚ) * num + den * 2 ^ e = 2 * (r * (den * 2 ^ e)) → r % 2 = 0 := by
    exact_mod_cast heven
  refine .of_significand hsignificand ?_ ?_ ?_ fun h => heven ?_
  · refine hle.imp_right fun hle => ?_
    have hle : (leadingBit : ℚ) * (den * 2 ^ e) ≤ num := by exact_mod_cast hle
    rw [le_div_iff₀ hcast]
    linarith
  · rw [div_le_iff₀ hcast]
    linarith
  · rw [le_div_iff₀ hcast]
    linarith
  · rw [div_eq_iff hcast.ne', div_eq_iff hcast.ne'] at h
    exact h.imp (fun h => by linarith) fun h => by linarith

end Computed

/-- The power of two that is divided away leaves 53 bits of a quotient, or
fewer where nothing is divided away. -/
theorem log2_bounds (num : ℕ) {den : ℕ} (hden : 0 < den) :
    num < 2 * leadingBit * (den * 2 ^ ((num / den).log2 - 52)) ∧
      ((num / den).log2 - 52 = 0 ∨
        leadingBit * (den * 2 ^ ((num / den).log2 - 52)) ≤ num) := by
  have hlead : leadingBit = 2 ^ 52 := by decide
  have hassoc : ∀ a e, 2 ^ a * (den * 2 ^ e) = 2 ^ (a + e) * den := fun a e => by
    rw [Nat.pow_add]
    ring
  generalize hlog : (num / den).log2 = log
  rw [hlead, ← Nat.pow_succ', hassoc, hassoc]
  constructor
  · rw [← Nat.div_lt_iff_lt_mul hden]
    have hlt : num / den < 2 ^ (log + 1) := hlog ▸ Nat.lt_log2_self
    exact hlt.trans_le (Nat.pow_le_pow_right (by decide) (by omega))
  · obtain hlt | hle := Nat.lt_or_ge 52 log
    · have hne : num / den ≠ 0 := fun hzero => by
        rw [hzero, Nat.log2_zero] at hlog
        omega
      refine .inr ((Nat.le_div_iff_mul_le hden).mp ?_)
      rw [Nat.add_sub_cancel' hlt.le, ← hlog]
      exact Nat.log2_self_le hne
    · exact .inl (Nat.sub_eq_zero_of_le hle)

/-- **What is computed is what is rounded to**, cut down to infinity. -/
theorem exists_nearestMagnitude (num : ℕ) {den : ℕ} (hden : 0 < den) :
    ∃ m, nearestMagnitude num den = min m infinity ∧
      RoundsTo ((num : ℚ) / den * 2 ^ 1074) m := by
  refine ⟨_, rfl, ?_⟩
  have hshift : ∀ s : ℕ, ((num <<< s : ℕ) : ℚ) = num * 2 ^ s := fun s => by
    simp [Nat.shiftLeft_eq]
  rw [div_mul_eq_mul_div, ← hshift, Nat.shiftLeft_eq den]
  obtain ⟨hlt, hle⟩ := log2_bounds (num <<< 1074) hden
  exact roundsTo_divRoundEven hden hlt hle

/-- Every number that is not negative is rounded to some magnitude. -/
theorem exists_roundsTo {q : ℚ} (hq : 0 ≤ q) :
    ∃ m, RoundsTo (q * 2 ^ 1074) m := by
  obtain ⟨m, -, h⟩ := exists_nearestMagnitude q.num.toNat q.den_pos
  have hnum : (q.num.toNat : ℚ) = q.num := by
    exact_mod_cast Int.toNat_of_nonneg (Rat.num_nonneg.mpr hq)
  rw [hnum, Rat.num_div_den] at h
  exact ⟨m, h⟩

end Binary64

end LoxLexer
