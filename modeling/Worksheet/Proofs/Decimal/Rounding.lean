import Mathlib.Algebra.Order.Field.Power
import Mathlib.Data.Rat.Cast.Order
import Mathlib.Tactic.FieldSimp
import Mathlib.Tactic.Linarith
import Mathlib.Tactic.NormNum
import Mathlib.Tactic.Positivity
import Mathlib.Tactic.Ring
import Worksheet.Decimal.Shortest
/-!
# Rounding to doubles

A quotient is rounded to the double whose interval it lies in. Ends of an interval count when the
mantissa is even.

* `divNearest_eq`, `scaledNearest_eq`: the nearest natural number, a tie going to the even one;
* `ratioScale_eq`: the scale of the result;
* `Near`: a rational number in the interval of a double;
* **`ofRatio_near`**, **`ofDecimal_near`**: what is near a double is rounded to it.
-/

namespace Worksheet.Binary64

/-! ## Natural numbers -/

/-- `v` is at most one half away from `m`, and less than that if `m` is odd. -/
structure HalfNear (m : Nat) (v : ℚ) : Prop where
  low : (m : ℚ) - 1 / 2 ≤ v
  high : v ≤ m + 1 / 2
  odd : m % 2 = 1 → (m : ℚ) - 1 / 2 < v ∧ v < m + 1 / 2

theorem divNearest_eq {num den m : Nat} (hden : 0 < den) (h : HalfNear m ((num : ℚ) / den)) :
    divNearest num den = m := by
  have hden' : (0 : ℚ) < den := by exact_mod_cast hden
  have hsplit : (num : ℚ) = den * (num / den : ℕ) + (num % den : ℕ) := by
    exact_mod_cast (Nat.div_add_mod num den).symm
  have hv : (num : ℚ) / den = (num / den : ℕ) + ((num % den : ℕ) : ℚ) / den := by
    rw [div_eq_iff hden'.ne', add_mul, div_mul_cancel₀ _ hden'.ne', mul_comm ((num / den : ℕ) : ℚ)]
    exact hsplit
  have hfrac : ((num % den : ℕ) : ℚ) / den < 1 := by
    rw [div_lt_one hden']
    exact_mod_cast Nat.mod_lt num hden
  have hfrac0 : 0 ≤ ((num % den : ℕ) : ℚ) / den := by positivity
  have hdown : 2 * (num % den) < den ↔ ((num % den : ℕ) : ℚ) / den < 1 / 2 := by
    rw [div_lt_div_iff₀ hden' two_pos, one_mul, mul_comm]
    exact_mod_cast Iff.rfl
  have hup : den < 2 * (num % den) ↔ 1 / 2 < ((num % den : ℕ) : ℚ) / den := by
    rw [div_lt_div_iff₀ two_pos hden', one_mul, mul_comm _ (2 : ℚ)]
    exact_mod_cast Iff.rfl
  obtain ⟨hlow, hhigh, hodd⟩ := hv ▸ h
  unfold divNearest
  simp only [hdown, hup]
  generalize ((num % den : ℕ) : ℚ) / den = f at *
  generalize num / den = q at *
  have hle : m < q + 2 := by
    have : (m : ℚ) < (q + 2 : ℕ) := by push_cast; linarith
    exact_mod_cast this
  have hge : q < m + 1 := by
    have : (q : ℚ) < (m + 1 : ℕ) := by push_cast; linarith
    exact_mod_cast this
  -- the remainder is less than one half, more than one half, or one half
  split_ifs with hd hu heven
  · have : (m : ℚ) < (q + 1 : ℕ) := by push_cast; linarith
    have : m < q + 1 := by exact_mod_cast this
    omega
  · have : (q : ℚ) < m := by linarith
    have : q < m := by exact_mod_cast this
    omega
  · by_contra hne
    have hm : m = q + 1 := by omega
    have := (hodd (by omega)).1
    rw [hm] at this
    push_cast at this
    linarith
  · by_contra hne
    have hm : m = q := by omega
    have := (hodd (by omega)).2
    rw [hm] at this
    linarith

theorem zpow_eq_div (b : ℚ) (hb : b ≠ 0) (k : Int) : b ^ k = b ^ k.toNat / b ^ (-k).toNat := by
  rw [eq_div_iff (pow_ne_zero _ hb), ← zpow_natCast, ← zpow_natCast, ← zpow_add₀ hb]
  congr 1
  omega

theorem scaledNearest_eq {num den m : Nat} {k : Int} (hden : 0 < den)
    (h : HalfNear m ((num : ℚ) / den / 2 ^ k)) : scaledNearest num den k = m := by
  unfold scaledNearest
  split_ifs with hk
  · refine divNearest_eq (Nat.mul_pos hden (Nat.pow_pos two_pos)) ?_
    have : (2 : ℚ) ^ k = 2 ^ k.toNat := by rw [← zpow_natCast, Int.toNat_of_nonneg hk]
    rw [this, div_div] at h
    exact_mod_cast h
  · refine divNearest_eq hden ?_
    have : (2 : ℚ) ^ k = (2 ^ (-k).toNat)⁻¹ := by
      rw [← zpow_natCast, ← zpow_neg, Int.toNat_of_nonneg (by omega), neg_neg]
    rw [this, div_inv_eq_mul, div_mul_eq_mul_div] at h
    exact_mod_cast h

/-! ## The scale -/

variable {num den : Nat} {k : Int}

theorem div_between (hnum : 0 < num) (hden : 0 < den) :
    (2 : ℚ) ^ ((num.log2 : Int) - den.log2 - 1) < num / den ∧
      (num : ℚ) / den < 2 ^ ((num.log2 : Int) - den.log2 + 1) := by
  have hden' : (0 : ℚ) < den := by exact_mod_cast hden
  have h2 : (2 : ℚ) ≠ 0 := two_ne_zero
  have hn1 : (2 : ℚ) ^ num.log2 ≤ num := by exact_mod_cast Nat.log2_self_le hnum.ne'
  have hn2 : (num : ℚ) < 2 ^ (num.log2 + 1) := by exact_mod_cast Nat.lt_log2_self
  have hd1 : (2 : ℚ) ^ den.log2 ≤ den := by exact_mod_cast Nat.log2_self_le hden.ne'
  have hd2 : (den : ℚ) < 2 ^ (den.log2 + 1) := by exact_mod_cast Nat.lt_log2_self
  constructor
  · rw [lt_div_iff₀ hden']
    calc (2 : ℚ) ^ ((num.log2 : Int) - den.log2 - 1) * den
        < 2 ^ ((num.log2 : Int) - den.log2 - 1) * 2 ^ (den.log2 + 1) := by gcongr
      _ = 2 ^ num.log2 := by
        rw [← zpow_natCast, ← zpow_natCast, ← zpow_add₀ h2]
        congr 1
        push_cast
        ring
      _ ≤ num := hn1
  · rw [div_lt_iff₀ hden']
    calc (num : ℚ) < 2 ^ (num.log2 + 1) := hn2
      _ = 2 ^ ((num.log2 : Int) - den.log2 + 1) * 2 ^ den.log2 := by
        rw [← zpow_natCast, ← zpow_natCast, ← zpow_add₀ h2]
        congr 1
        push_cast
        ring
      _ ≤ 2 ^ ((num.log2 : Int) - den.log2 + 1) * den := by gcongr

theorem fits_iff (hden : 0 < den) (k : Int) :
    (if 0 ≤ k then decide (num < den * Nat.pow 2 k.toNat)
      else decide (num * Nat.pow 2 (-k).toNat < den)) = true ↔ (num : ℚ) / den < 2 ^ k := by
  have hden' : (0 : ℚ) < den := by exact_mod_cast hden
  rw [div_lt_iff₀ hden']
  split_ifs with hk
  · have : (2 : ℚ) ^ k = 2 ^ k.toNat := by rw [← zpow_natCast, Int.toNat_of_nonneg hk]
    rw [this, decide_eq_true_eq, mul_comm _ (den : ℚ)]
    exact_mod_cast Iff.rfl
  · have : (2 : ℚ) ^ k = (2 ^ (-k).toNat)⁻¹ := by
      rw [← zpow_natCast, ← zpow_neg, Int.toNat_of_nonneg (by omega), neg_neg]
    have hpos : (0 : ℚ) < 2 ^ (-k).toNat := by positivity
    rw [this, decide_eq_true_eq, ← div_eq_inv_mul, lt_div_iff₀ hpos]
    exact_mod_cast Iff.rfl

/-- The scale is the one under which the quotient has 53 binary digits, or the subnormal one. -/
theorem ratioScale_eq (hnum : 0 < num) (hden : 0 < den) (hk : -1074 ≤ k)
    (hhigh : (num : ℚ) / den < 2 ^ (k + 53)) (hlow : k = -1074 ∨ 2 ^ (k + 52) ≤ (num : ℚ) / den) :
    ratioScale num den = k := by
  obtain ⟨hmore, hless⟩ := div_between hnum hden
  have hlt : ∀ {i j : Int}, (2 : ℚ) ^ i < 2 ^ j → i < j := fun h =>
    (zpow_lt_zpow_iff_right₀ one_lt_two).mp h
  -- every scale with 53 binary digits is this one, or below the subnormal one
  have key : ∀ j : Int, (2 : ℚ) ^ (j + 52) ≤ num / den → (num : ℚ) / den < 2 ^ (j + 53) →
      max (-1074) j = k := by
    intro j hj1 hj2
    have hjk := hlt (hj1.trans_lt hhigh)
    rcases hlow with rfl | hlow
    · omega
    · have hkj := hlt (hlow.trans_lt hj2)
      omega
  unfold ratioScale
  simp only [fits_iff hden]
  split_ifs with hfits
  · refine key _ ?_ hfits
    rw [show (num.log2 : Int) - den.log2 - 53 + 52 = num.log2 - den.log2 - 1 by ring]
    exact hmore.le
  · refine key _ ?_ ?_
    · rw [show (num.log2 : Int) - den.log2 - 53 + 1 + 52 = num.log2 - den.log2 - 53 + 53 by ring]
      exact not_lt.mp hfits
    · rw [show (num.log2 : Int) - den.log2 - 53 + 1 + 53 = num.log2 - den.log2 + 1 by ring]
      exact hless

/-! ## The fields of a double -/

variable {x : Binary64} {v : ℚ}

theorem exponentField_lt (x : Binary64) : x.exponentField < 2048 :=
  Nat.mod_lt _ (by decide)

theorem fractionField_lt (x : Binary64) : x.fractionField < 2 ^ 52 :=
  Nat.mod_lt _ (by decide)

theorem exponentField_lt_of_isFinite (h : x.isFinite = true) : x.exponentField < 2047 := by
  have hne : x.exponentField ≠ 2047 := by simpa [isFinite] using h
  have := exponentField_lt x
  omega

theorem signed_fields (x : Binary64) :
    signed x.isNegative (x.exponentField * 2 ^ 52 + x.fractionField) = x := by
  have hbits : (if x.isNegative = true then Nat.pow 2 63 + (x.exponentField * 2 ^ 52 + x.fractionField)
      else x.exponentField * 2 ^ 52 + x.fractionField) = x.bits.toNat := by
    have hlt := x.bits.toNat_lt
    simp only [isNegative, exponentField, fractionField, decide_eq_true_eq, Nat.pow_eq] at hlt ⊢
    split_ifs <;> omega
  unfold signed ofNatBits
  rw [hbits, UInt64.ofNat_toNat]

theorem mantissa_lt (x : Binary64) : x.mantissa < 2 ^ 53 := by
  have := fractionField_lt x
  unfold mantissa
  simp only [Nat.pow_eq]
  split_ifs <;> omega

theorem scale_ge (x : Binary64) : -1074 ≤ x.scale := by
  unfold scale
  split_ifs <;> omega

/-! ## Near a double -/

/-- The number lies in the interval of the double. Its ends count if the mantissa is even. -/
structure Near (x : Binary64) (v : ℚ) : Prop where
  low : (x.interval.1 : ℚ) * 2 ^ (x.scale - 2) ≤ v
  high : v ≤ x.interval.2.2 * 2 ^ (x.scale - 2)
  odd : x.mantissa % 2 = 1 →
    (x.interval.1 : ℚ) * 2 ^ (x.scale - 2) < v ∧ v < x.interval.2.2 * 2 ^ (x.scale - 2)

theorem interval_low (hm : 0 < x.mantissa) :
    (x.interval.1 : ℚ) =
      if x.mantissa = 2 ^ 52 ∧ 1 < x.exponentField then 4 * (x.mantissa : ℚ) - 1 else 4 * x.mantissa - 2 := by
  unfold interval
  simp only [Nat.pow_eq]
  split_ifs
  · rw [Nat.cast_sub (by omega)]
    push_cast
    rfl
  · rw [Nat.cast_sub (by omega)]
    push_cast
    rfl

theorem interval_high (x : Binary64) : (x.interval.2.2 : ℚ) = 4 * x.mantissa + 2 := by
  simp [interval]

theorem zpow_quarter (k : Int) : (2 : ℚ) ^ (k - 2) = 2 ^ k / 4 := by
  rw [zpow_sub₀ two_ne_zero]
  norm_num

/-- In units of its scale, a number near a double is near the mantissa. -/
theorem Near.halfNear (h : x.Near v) (hm : 0 < x.mantissa) : HalfNear x.mantissa (v / 2 ^ x.scale) := by
  have hunit : (0 : ℚ) < 2 ^ x.scale := by positivity
  have hlow : 4 * (x.mantissa : ℚ) - 2 ≤ x.interval.1 := by
    rw [interval_low hm]
    split_ifs <;> linarith
  have hhigh := interval_high x
  obtain ⟨h1, h2, hodd⟩ := h
  rw [zpow_quarter] at h1 h2 hodd
  rw [hhigh] at h2 hodd
  refine ⟨?_, ?_, fun ho => ?_⟩
  · rw [le_div_iff₀ hunit]
    nlinarith
  · rw [div_le_iff₀ hunit]
    linarith
  · obtain ⟨h1, h2⟩ := hodd ho
    constructor
    · rw [lt_div_iff₀ hunit]
      nlinarith
    · rw [div_lt_iff₀ hunit]
      linarith

theorem Near.pos (h : x.Near v) (hm : 0 < x.mantissa) : 0 < v := by
  have hunit : (0 : ℚ) < 2 ^ x.scale := by positivity
  have hm' : (1 : ℚ) ≤ x.mantissa := by exact_mod_cast hm
  have hlow := (h.halfNear hm).low
  rw [le_div_iff₀ hunit] at hlow
  nlinarith

/-- A number near a double but below its binade: the double is a power of two, above the subnormal
ones, and the number is at most a quarter away. -/
theorem Near.below_binade (h : x.Near v) (hm : 0 < x.mantissa) (hscale : x.scale ≠ -1074)
    (hless : v < 2 ^ (x.scale + 52)) :
    1 < x.exponentField ∧ x.mantissa = 2 ^ 52 ∧ x.fractionField = 0 ∧
      (2 ^ 54 - 1) * (2 ^ x.scale / 4) ≤ v := by
  have hunit : (0 : ℚ) < 2 ^ x.scale := by positivity
  have hexp : 1 < x.exponentField := by
    unfold scale at hscale
    split_ifs at hscale <;> omega
  have hmantissa : x.mantissa = x.fractionField + 2 ^ 52 := if_neg (by omega)
  have hzero : x.fractionField = 0 := by
    by_contra hne
    have hF : (2 : ℚ) ^ 52 + 1 ≤ x.mantissa := by
      rw [hmantissa]
      exact_mod_cast (by omega : 2 ^ 52 + 1 ≤ x.fractionField + 2 ^ 52)
    have hhalf := (h.halfNear hm).low
    rw [le_div_iff₀ hunit] at hhalf
    rw [zpow_add₀ two_ne_zero] at hless
    norm_num at hless
    nlinarith
  rw [hzero, zero_add] at hmantissa
  refine ⟨hexp, hmantissa, hzero, ?_⟩
  have hquarter := h.low
  rw [interval_low hm, if_pos ⟨hmantissa, hexp⟩, hmantissa, zpow_quarter] at hquarter
  push_cast at hquarter
  norm_num at hquarter ⊢
  linarith

theorem HalfNear.lt_binade (h : HalfNear x.mantissa (v / 2 ^ x.scale)) : v < 2 ^ (x.scale + 53) := by
  have hunit : (0 : ℚ) < 2 ^ x.scale := by positivity
  have hM : (x.mantissa : ℚ) + 1 ≤ 2 ^ 53 := by exact_mod_cast mantissa_lt x
  have hv := h.high
  rw [div_le_iff₀ hunit] at hv
  have hsplit : (2 : ℚ) ^ (x.scale + 53) = 2 ^ x.scale * 2 ^ 53 := by
    rw [zpow_add₀ two_ne_zero]
    norm_num
  rw [hsplit]
  nlinarith

/-- Just below the power of two that a double is, the scale is one less, and rounding carries into the next
binade. -/
theorem Near.carry (hm : 0 < x.mantissa) (hnum : 0 < num) (hden : 0 < den) (h : x.Near ((num : ℚ) / den))
    (hscale : x.scale ≠ -1074) (hless : (num : ℚ) / den < 2 ^ (x.scale + 52)) :
    ratioScale num den = x.scale - 1 ∧ scaledNearest num den (x.scale - 1) = 2 ^ 53 := by
  have hunit : (0 : ℚ) < 2 ^ x.scale := by positivity
  obtain ⟨-, -, -, hquarter⟩ := h.below_binade hm hscale hless
  constructor
  · refine ratioScale_eq hnum hden (by have := scale_ge x; omega) ?_ (.inr ?_)
    · rw [show x.scale - 1 + 53 = x.scale + 52 by ring]
      exact hless
    · rw [show x.scale - 1 + 52 = x.scale + 51 by ring, zpow_add₀ two_ne_zero]
      norm_num at hquarter ⊢
      nlinarith
  · have hprev : (2 : ℚ) ^ (x.scale - 1) = 2 ^ x.scale / 2 := by
      rw [zpow_sub₀ two_ne_zero, zpow_one]
    have hsplit : (2 : ℚ) ^ (x.scale + 52) = 2 ^ x.scale * 2 ^ 52 := by
      rw [zpow_add₀ two_ne_zero]
      norm_num
    refine scaledNearest_eq hden ⟨?_, ?_, fun hodd => absurd hodd (by decide)⟩
    · rw [hprev, le_div_iff₀ (by positivity)]
      push_cast
      nlinarith
    · rw [hprev, div_le_iff₀ (by positivity)]
      rw [hsplit] at hless
      push_cast
      nlinarith

/-- **A quotient near a double has its bits.** -/
theorem ratioBits_near (hfin : x.isFinite = true) (hm : 0 < x.mantissa) (hden : 0 < den)
    (h : x.Near ((num : ℚ) / den)) :
    ratioBits num den = x.exponentField * 2 ^ 52 + x.fractionField := by
  have hhalf := h.halfNear hm
  have hnum : 0 < num := by
    rcases Nat.eq_zero_or_pos num with rfl | hpos
    · have := h.pos hm
      simp at this
    · exact hpos
  have hE := exponentField_lt_of_isFinite hfin
  have hF := fractionField_lt x
  have hbits : ∀ bits : Nat, bits = x.exponentField * 2 ^ 52 + x.fractionField →
      min bits infinityBits = x.exponentField * 2 ^ 52 + x.fractionField := by
    rintro bits rfl
    have : infinityBits = 2047 * 2 ^ 52 := rfl
    omega
  unfold ratioBits
  rw [if_neg hnum.ne']
  by_cases hlow : x.scale = -1074 ∨ 2 ^ (x.scale + 52) ≤ (num : ℚ) / den
  · -- the scale of the double itself
    simp only [ratioScale_eq hnum hden (scale_ge x) hhalf.lt_binade hlow, scaledNearest_eq hden hhalf]
    refine hbits _ ?_
    unfold mantissa scale
    simp only [Nat.pow_eq]
    split_ifs <;> omega
  · -- just below a power of two: the scale is one less, and the mantissa is carried
    rw [not_or, not_le] at hlow
    obtain ⟨hscale, hless⟩ := hlow
    obtain ⟨hexp, hmantissa, hzero, -⟩ := h.below_binade hm hscale hless
    obtain ⟨hscale', hcarry⟩ := h.carry hm hnum hden hscale hless
    dsimp only
    rw [hscale', hcarry]
    refine hbits _ ?_
    have hexponent : x.scale = x.exponentField - 1075 := if_neg (by omega)
    rw [hzero, hexponent, if_neg (by decide), Nat.pow_eq]
    omega

/-- **A quotient near a double is rounded to it.** -/
theorem ofRatio_near (hfin : x.isFinite = true) (hm : 0 < x.mantissa) (hden : 0 < den)
    (h : x.Near ((num : ℚ) / den)) : ofRatio x.isNegative num den = x := by
  rw [ofRatio, ratioBits_near hfin hm hden h, signed_fields]

/-! ## Decimals -/

theorem scale_le (hfin : x.isFinite = true) : x.scale ≤ 971 := by
  have := exponentField_lt_of_isFinite hfin
  unfold scale
  split_ifs <;> omega

theorem Near.lt_max (h : x.Near v) (hfin : x.isFinite = true) (hm : 0 < x.mantissa) :
    v < 10 ^ (309 : Int) := by
  have hunit : (0 : ℚ) < 2 ^ x.scale := by positivity
  have hM : (x.mantissa : ℚ) + 1 ≤ 2 ^ 53 := by exact_mod_cast mantissa_lt x
  have hhigh := (h.halfNear hm).high
  rw [div_le_iff₀ hunit] at hhigh
  calc v ≤ (x.mantissa + 1 / 2) * 2 ^ x.scale := hhigh
    _ ≤ 2 ^ 53 * 2 ^ x.scale := by gcongr; linarith
    _ ≤ 2 ^ 53 * 2 ^ (971 : Int) := by
      gcongr
      · norm_num
      · exact scale_le hfin
    _ < 10 ^ (309 : Int) := by exact_mod_cast (by decide +kernel : 2 ^ 53 * 2 ^ 971 < 10 ^ 309)

theorem Near.gt_min (h : x.Near v) (hm : 0 < x.mantissa) : 10 ^ (-325 : Int) < v := by
  have hunit : (0 : ℚ) < 2 ^ x.scale := by positivity
  have hM : (1 : ℚ) ≤ x.mantissa := by exact_mod_cast hm
  have hlow := (h.halfNear hm).low
  rw [le_div_iff₀ hunit] at hlow
  have hpow : (2 : ℚ) ^ (1075 : Int) < 10 ^ (325 : Int) := by
    exact_mod_cast (by decide +kernel : 2 ^ 1075 < 10 ^ 325)
  have hhalf : (1 / 2 : ℚ) = 2 ^ (-1 : Int) := by norm_num
  calc (10 : ℚ) ^ (-325 : Int) = (10 ^ (325 : Int))⁻¹ := zpow_neg _ _
    _ < (2 ^ (1075 : Int))⁻¹ := inv_strictAnti₀ (zpow_pos two_pos _) hpow
    _ = 2 ^ (-1075 : Int) := (zpow_neg _ _).symm
    _ = 1 / 2 * 2 ^ (-1074 : Int) := by
      rw [hhalf, ← zpow_add₀ two_ne_zero, show (-1 : Int) + -1074 = -1075 by norm_num]
    _ ≤ (x.mantissa - 1 / 2) * 2 ^ x.scale :=
      mul_le_mul (by linarith) (zpow_le_zpow_right₀ one_le_two (scale_ge x)) (zpow_pos two_pos _).le
        (by linarith)
    _ ≤ v := hlow

theorem toDigits_between {n : Nat} (hn : 0 < n) :
    (10 : ℚ) ^ (((Nat.toDigits 10 n).length : Int) - 1) ≤ n ∧
      (n : ℚ) < 10 ^ ((Nat.toDigits 10 n).length : Int) := by
  have hpos : 0 < (Nat.toDigits 10 n).length := Nat.length_toDigits_pos
  constructor
  · by_contra hlt
    have hcast : ((Nat.toDigits 10 n).length : Int) - 1 = (((Nat.toDigits 10 n).length - 1 : ℕ) : Int) := by
      omega
    rw [not_le, hcast, zpow_natCast] at hlt
    have hlt' : n < 10 ^ ((Nat.toDigits 10 n).length - 1) := by exact_mod_cast hlt
    rcases Nat.eq_zero_or_pos ((Nat.toDigits 10 n).length - 1) with h0 | hpos'
    · rw [h0] at hlt'
      omega
    · have := (Nat.length_toDigits_le_iff (by decide) hpos').mpr hlt'
      omega
  · rw [zpow_natCast]
    exact_mod_cast (Nat.length_toDigits_le_iff (by decide) hpos).mp (Nat.le_refl _)

/-- **A decimal near a double is rounded to it.** -/
theorem ofDecimal_near {digits : Nat} {exponent : Int} (hfin : x.isFinite = true) (hm : 0 < x.mantissa)
    (h : x.Near (digits * 10 ^ exponent)) : ofDecimal x.isNegative digits exponent = x := by
  have h10 : (10 : ℚ) ≠ 0 := by norm_num
  have hdigits : 0 < digits := by
    rcases Nat.eq_zero_or_pos digits with rfl | hpos
    · have := h.pos hm
      simp at this
    · exact hpos
  obtain ⟨hlow, hhigh⟩ := toDigits_between hdigits
  have hten : (0 : ℚ) < 10 ^ exponent := by positivity
  have hnotMore : ¬ ((Nat.toDigits 10 digits).length : Int) + exponent > 310 := by
    intro hmore
    have hv : (10 : ℚ) ^ (309 : Int) ≤ digits * 10 ^ exponent := by
      calc (10 : ℚ) ^ (309 : Int) ≤ 10 ^ (((Nat.toDigits 10 digits).length : Int) - 1 + exponent) :=
            zpow_le_zpow_right₀ (by norm_num) (by omega)
        _ = 10 ^ (((Nat.toDigits 10 digits).length : Int) - 1) * 10 ^ exponent := zpow_add₀ h10 _ _
        _ ≤ digits * 10 ^ exponent := by gcongr
    exact absurd (h.lt_max hfin hm) (not_lt.mpr hv)
  have hnotLess : ¬ ((Nat.toDigits 10 digits).length : Int) + exponent < -330 := by
    intro hless
    have hv : (digits : ℚ) * 10 ^ exponent ≤ 10 ^ (-325 : Int) := by
      calc (digits : ℚ) * 10 ^ exponent ≤ 10 ^ ((Nat.toDigits 10 digits).length : Int) * 10 ^ exponent := by
            gcongr
        _ = 10 ^ (((Nat.toDigits 10 digits).length : Int) + exponent) := (zpow_add₀ h10 _ _).symm
        _ ≤ 10 ^ (-325 : Int) := zpow_le_zpow_right₀ (by norm_num) (by omega)
    exact absurd (h.gt_min hm) (not_lt.mpr hv)
  rw [ofDecimal, if_neg hdigits.ne', if_neg hnotMore, if_neg hnotLess]
  split_ifs with hexp
  · refine ofRatio_near hfin hm Nat.one_pos ?_
    have : (10 : ℚ) ^ exponent = 10 ^ exponent.toNat := by rw [← zpow_natCast, Int.toNat_of_nonneg hexp]
    rw [this] at h
    simpa using h
  · refine ofRatio_near hfin hm (Nat.pow_pos (by decide)) ?_
    have : (10 : ℚ) ^ exponent = (10 ^ (-exponent).toNat)⁻¹ := by
      rw [← zpow_natCast, ← zpow_neg, Int.toNat_of_nonneg (by omega), neg_neg]
    rw [this, ← div_eq_mul_inv] at h
    simpa using h

end Worksheet.Binary64
