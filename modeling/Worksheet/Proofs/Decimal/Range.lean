import Mathlib.Algebra.Order.Ring.Nat
import Mathlib.Tactic.SplitIfs
import Worksheet.Decimal.Reader
/-!
# The range of doubles

An integer of 64 bits is within the range of doubles, so that it is never read as out of range.

* `ratioScale_natural`, `scaledNearest_natural_le`: scale and digits of the double next to an integer;
* **`isFinite_ofDecimal_natural`**: that double is finite.
-/

namespace Worksheet.Binary64

variable {n : Nat}

theorem divNearest_le (num den : Nat) : divNearest num den ≤ num / den + 1 := by
  simp only [divNearest]
  split_ifs <;> omega

theorem ratioScale_natural (hn : 0 < n) : ratioScale n 1 = n.log2 - 52 := by
  have hfits : ¬ n < 2 ^ n.log2 := not_lt.mpr (Nat.log2_self_le hn.ne')
  have hlog : (1 : Nat).log2 = 0 := by decide
  have hscale : ((n.log2 : Int) - (0 : Nat) - 53 + 53).toNat = n.log2 := by omega
  have hnonneg : (0 : Int) ≤ (n.log2 : Int) - (0 : Nat) - 53 + 53 := by omega
  simp only [ratioScale, hlog, if_pos hnonneg, hscale, one_mul, Nat.pow_eq, hfits, decide_false, Bool.false_eq_true,
    if_false]
  omega

theorem scaledNearest_natural_le (n : Nat) : scaledNearest n 1 (n.log2 - 52) ≤ 2 ^ 53 := by
  have hlt : n < 2 ^ (n.log2 + 1) := Nat.lt_log2_self
  unfold scaledNearest
  split_ifs with hk
  · have hsplit : 2 ^ (n.log2 + 1) = 2 ^ 53 * 2 ^ ((n.log2 : Int) - 52).toNat := by
      rw [← Nat.pow_add]
      congr 1
      omega
    have hdiv : n / (1 * Nat.pow 2 ((n.log2 : Int) - 52).toNat) < 2 ^ 53 := by
      rw [one_mul, Nat.pow_eq, Nat.div_lt_iff_lt_mul (Nat.pow_pos (by decide)), ← hsplit]
      exact hlt
    have := divNearest_le n (1 * Nat.pow 2 ((n.log2 : Int) - 52).toNat)
    omega
  · have hdivided : ∀ m, divNearest m 1 = m := fun m => by simp [divNearest, Nat.mod_one]
    have hsplit : 2 ^ (n.log2 + 1) * 2 ^ (-((n.log2 : Int) - 52)).toNat = 2 ^ 53 := by
      rw [← Nat.pow_add]
      congr 1
      omega
    rw [hdivided, ← hsplit, Nat.pow_eq]
    exact Nat.mul_le_mul_right _ hlt.le

theorem isFinite_signed {magnitude : Nat} (h : magnitude < infinityBits) (negative : Bool) :
    (signed negative magnitude).isFinite = true := by
  have hinfinity : infinityBits = 2047 * 2 ^ 52 := rfl
  rw [hinfinity] at h
  have hfield : (signed negative magnitude).exponentField = magnitude / 2 ^ 52 := by
    simp only [signed, ofNatBits, exponentField, UInt64.toNat_ofNat', Nat.pow_eq]
    split_ifs <;> omega
  have hne : magnitude / 2 ^ 52 ≠ 2047 := by omega
  simpa [isFinite, hfield] using hne

/-- **An integer of 64 bits is in the range of doubles.** -/
theorem isFinite_ofDecimal_natural (hn : n < 2 ^ 64) (negative : Bool) : (ofDecimal negative n 0).isFinite = true := by
  rcases Nat.eq_zero_or_pos n with rfl | hpos
  · exact isFinite_signed (by decide) negative
  · have hdigits : (Nat.toDigits 10 n).length ≤ 20 :=
      (Nat.length_toDigits_le_iff (by decide) (by decide)).mpr (hn.trans (by decide))
    have hlog : n.log2 < 64 := (Nat.log2_lt hpos.ne').mpr hn
    have hm := scaledNearest_natural_le n
    have hdecimal : ofDecimal negative n 0 = signed negative (ratioBits n 1) := by
      rw [ofDecimal, if_neg hpos.ne', if_neg (by omega), if_neg (by omega), if_pos (le_refl 0)]
      simp [ofRatio]
    rw [hdecimal, ratioBits, if_neg hpos.ne', ratioScale_natural hpos]
    refine isFinite_signed ?_ negative
    have hinfinity : infinityBits = 2047 * 2 ^ 52 := rfl
    simp only [hinfinity, Nat.pow_eq]
    split_ifs <;> omega

end Worksheet.Binary64
