import Mathlib.Data.Nat.Log
import Segmentation.Decimal.ReadBack

/-!
# Rounding does not cross a magnitude

A fraction that is at most a magnitude rounds to at most that magnitude, and one that is at least a
magnitude to at least that magnitude. So a whole number and the shortest decimal of what it rounds to
are on the same side of every magnitude, although they may differ. Main statements:

* `units_injective`: magnitudes of the same size are the same;
* `units_le_of_nearest?`, `le_units_of_nearest?`: the two sides, for fractions;
* `units_le_of_magnitude?`, `le_units_of_magnitude?`: the two sides, for whole numbers.
-/

namespace Segmentation.Decimal

/-! ## Quotients -/

theorem div_le_roundHalfEven (n d : Nat) : n / d ≤ roundHalfEven n d := by
  simp only [roundHalfEven]
  split
  · exact Nat.le_refl _
  · exact Nat.le_succ _

theorem le_roundHalfEven {n d k : Nat} (hd : 0 < d) (h : k * d ≤ n) : k ≤ roundHalfEven n d :=
  Nat.le_trans ((Nat.le_div_iff_mul_le hd).2 h) (div_le_roundHalfEven n d)

theorem roundHalfEven_le {n d k : Nat} (hd : 0 < d) (h : n ≤ k * d) : roundHalfEven n d ≤ k := by
  have hq : n / d ≤ k := Nat.div_le_of_le_mul (Nat.mul_comm k d ▸ h)
  rcases Nat.lt_or_eq_of_le hq with hlt | heq
  · simp only [roundHalfEven]
    split
    · exact hq
    · exact hlt
  · -- A quotient that is the bound already leaves no rest to be rounded up.
    have hn : n = k * d := Nat.le_antisymm h (heq ▸ Nat.div_mul_le_self n d)
    exact Nat.le_of_eq (hn ▸ roundHalfEven_mul k d hd)

namespace Magnitude

variable {m bound : Magnitude}

/-! ## Sizes -/

/-- Magnitudes of the same size are the same. -/
theorem units_injective (h : m.units = bound.units) : m = bound := by
  have he : m.exponent = bound.exponent := by rw [← m.log2_units, h, bound.log2_units]
  have hm : m.mantissa = bound.mantissa := by
    rw [units_eq, units_eq, he] at h
    exact Nat.eq_of_mul_eq_mul_right (Nat.two_pow_pos _) h
  cases m
  cases bound
  cases he
  cases hm
  rfl

theorem units_of_make? {mantissa exponent : Nat} (h : ofParts?.make? mantissa exponent = some m) :
    m.units = mantissa * 2 ^ exponent := by
  unfold ofParts?.make? at h
  split at h
  · rw [← Option.some.inj h, units_eq]
  · cases h

theorem units_of_ofParts? {mantissa exponent : Nat} (h : ofParts? mantissa exponent = some m) :
    m.units = mantissa * 2 ^ exponent := by
  unfold ofParts? at h
  split at h
  · rename_i hmantissa
    rw [units_of_make? h, hmantissa, Nat.pow_succ', ← Nat.mul_assoc]
  · exact units_of_make? h

/-- A magnitude in units of a power of two that is at most its own. -/
theorem units_eq_mul_pow (m : Magnitude) {e : Nat} (h : e ≤ m.exponent) :
    m.units = m.mantissa * 2 ^ (m.exponent - e) * 2 ^ e := by
  rw [units_eq, Nat.mul_assoc, Nat.pow_sub_mul_pow 2 h]

/-- Under an exponent that is greater than its own a magnitude is below all normal ones. -/
theorem units_le_of_exponent_lt (m : Magnitude) {e : Nat} (h : m.exponent < e) :
    m.units ≤ 2 ^ 52 * 2 ^ e := by
  have hpow : 2 ^ 53 * 2 ^ m.exponent ≤ 2 ^ 52 * 2 ^ e := by
    rw [← Nat.pow_add, ← Nat.pow_add]
    exact Nat.pow_le_pow_right (by decide) (by omega)
  rw [units_eq]
  exact Nat.le_trans (Nat.mul_le_mul_right _ (Nat.le_of_lt m.mantissa_lt_pow)) hpow

/-! ## Fractions

A fraction is rounded as a multiple `s / d` of the smallest magnitude. -/

theorem rounded_le {s d : Nat} (hd : 0 < d) (hle : s ≤ bound.units * d) :
    roundHalfEven s (d * 2 ^ ((s / d).log2 - 52)) * 2 ^ ((s / d).log2 - 52) ≤ bound.units := by
  have he : (s / d).log2 - 52 ≤ bound.exponent := by
    have hquotient : s / d ≤ bound.units := Nat.div_le_of_le_mul (Nat.mul_comm _ d ▸ hle)
    rw [← bound.log2_units, Nat.log2_eq_log_two, Nat.log2_eq_log_two]
    exact Nat.sub_le_sub_right (Nat.log_mono_right hquotient) 52
  generalize (s / d).log2 - 52 = e at he
  rw [bound.units_eq_mul_pow he] at hle ⊢
  refine Nat.mul_le_mul_right _ (roundHalfEven_le (Nat.mul_pos hd (Nat.two_pow_pos e)) ?_)
  rwa [Nat.mul_comm d, ← Nat.mul_assoc]

theorem le_rounded {s d : Nat} (hd : 0 < d) (hle : bound.units * d ≤ s) :
    bound.units ≤ roundHalfEven s (d * 2 ^ ((s / d).log2 - 52)) * 2 ^ ((s / d).log2 - 52) := by
  rcases Nat.lt_or_ge bound.exponent ((s / d).log2 - 52) with hlt | hge
  · -- The fraction has more binary digits than the bound, and so has what it rounds to.
    refine Nat.le_trans (bound.units_le_of_exponent_lt hlt) (Nat.mul_le_mul_right _ ?_)
    have hne : s / d ≠ 0 := by
      intro hzero
      rw [hzero] at hlt
      exact Nat.not_lt_zero _ hlt
    have hpow : 2 ^ 52 * 2 ^ ((s / d).log2 - 52) ≤ s / d := by
      rw [← Nat.pow_add, show 52 + ((s / d).log2 - 52) = (s / d).log2 by omega]
      exact Nat.log2_self_le hne
    refine le_roundHalfEven (Nat.mul_pos hd (Nat.two_pow_pos _)) ?_
    rw [Nat.mul_comm d, ← Nat.mul_assoc]
    exact (Nat.le_div_iff_mul_le hd).1 hpow
  · generalize (s / d).log2 - 52 = e at hge
    rw [bound.units_eq_mul_pow hge] at hle ⊢
    refine Nat.mul_le_mul_right _ (le_roundHalfEven (Nat.mul_pos hd (Nat.two_pow_pos e)) ?_)
    rwa [Nat.mul_comm d, ← Nat.mul_assoc]

theorem units_of_nearest? {n d : Nat} (h : nearest? n d = some m) :
    m.units = roundHalfEven (n * 2 ^ 1074) (d * 2 ^ ((n * 2 ^ 1074 / d).log2 - 52)) *
      2 ^ ((n * 2 ^ 1074 / d).log2 - 52) := by
  rw [nearest?_eq] at h
  exact units_of_ofParts? h

theorem units_le_of_nearest? {n d : Nat} (hd : 0 < d) (h : nearest? n d = some m)
    (hle : n * 2 ^ 1074 ≤ bound.units * d) : m.units ≤ bound.units := by
  rw [units_of_nearest? h]
  exact rounded_le hd hle

theorem le_units_of_nearest? {n d : Nat} (hd : 0 < d) (h : nearest? n d = some m)
    (hle : bound.units * d ≤ n * 2 ^ 1074) : bound.units ≤ m.units := by
  rw [units_of_nearest? h]
  exact le_rounded hd hle

end Magnitude

/-! ## Whole numbers -/

open Magnitude

variable {n : Nat} {m bound : Magnitude}

/-- A whole number rounds as the fraction with the denominator one. -/
theorem nearest?_of_magnitude? (h : (Decimal.mk n 0).magnitude? = some m) :
    nearest? n 1 = some m := by
  rw [magnitude?_eq] at h
  split at h
  · rename_i hzero
    have hn : n = 0 := hzero.resolve_right fun hscale => by
      simp only [scale] at hscale
      omega
    rw [← Option.some.inj h, hn]
    exact zero.nearest?_of_mul_eq Nat.one_pos (Nat.zero_mul _)
  · split at h
    · cases h
    · rw [if_neg (Int.lt_irrefl 0), Int.natAbs_zero, Nat.pow_zero, Nat.mul_one] at h
      exact h

theorem units_le_of_magnitude? (h : (Decimal.mk n 0).magnitude? = some m)
    (hle : n * 2 ^ 1074 ≤ bound.units) : m.units ≤ bound.units := by
  refine units_le_of_nearest? Nat.one_pos (nearest?_of_magnitude? h) ?_
  rwa [Nat.mul_one]

theorem le_units_of_magnitude? (h : (Decimal.mk n 0).magnitude? = some m)
    (hle : bound.units ≤ n * 2 ^ 1074) : bound.units ≤ m.units := by
  refine le_units_of_nearest? Nat.one_pos (nearest?_of_magnitude? h) ?_
  rwa [Nat.mul_one]

end Segmentation.Decimal
