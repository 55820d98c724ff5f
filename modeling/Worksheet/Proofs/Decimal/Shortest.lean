import Mathlib.Data.Nat.Cast.Order.Field
import Worksheet.Proofs.Decimal.Rounding
/-!
# Shortest digits read back

The digits that are chosen for a double lie in its interval, and seventeen of them are always enough to
hit it.

* `twoSide_lt_iff`, `tenSide_lt_iff`, `twoSide_eq_iff`: comparing multiples of `2 ^ q` and `10 ^ e`;
* `onGrid?_near`: what is found on a grid is near the double;
* `onGrid?_isSome`: a fine grid has a point that is near;
* **`shortest_near`**: the shortest digits are near the double.
-/

namespace Worksheet.Binary64

variable {x : Binary64} {e : Int}

/-- The value of a finite double, without the sign. -/
def magnitude (x : Binary64) : ℚ :=
  x.mantissa * 2 ^ x.scale

theorem magnitude_eq (x : Binary64) : x.magnitude = (4 * x.mantissa : ℕ) * 2 ^ (x.scale - 2) := by
  rw [magnitude, zpow_quarter]
  push_cast
  ring

/-! ## One grid -/

/-- `2 ^ q` with its denominator and that of `10 ^ e` cleared. -/
def twoSide (q e : Int) : Nat :=
  Nat.pow 2 q.toNat * Nat.pow 10 (-e).toNat

/-- `10 ^ e` with its denominator and that of `2 ^ q` cleared. -/
def tenSide (q e : Int) : Nat :=
  Nat.pow 2 (-q).toNat * Nat.pow 10 e.toNat

/-- Clearing both denominators is one and the same multiplication. -/
theorem exists_cleared (q e : Int) : ∃ d : ℚ, 0 < d ∧ (twoSide q e : ℚ) = 2 ^ q * d ∧
    (tenSide q e : ℚ) = 10 ^ e * d := by
  refine ⟨2 ^ (-q).toNat * 10 ^ (-e).toNat, by positivity, ?_, ?_⟩
  · rw [zpow_eq_div 2 two_ne_zero q, twoSide]
    push_cast [Nat.pow_eq]
    field_simp
  · rw [zpow_eq_div 10 (by norm_num) e, tenSide]
    push_cast [Nat.pow_eq]
    field_simp

variable {a b : Nat} {q : Int}

theorem twoSide_lt_iff : a * twoSide q e < b * tenSide q e ↔ (a : ℚ) * 2 ^ q < b * 10 ^ e := by
  obtain ⟨d, hd, htwo, hten⟩ := exists_cleared q e
  rw [← Nat.cast_lt (α := ℚ), Nat.cast_mul, Nat.cast_mul, htwo, hten, ← mul_assoc, ← mul_assoc,
    mul_lt_mul_iff_left₀ hd]

theorem tenSide_lt_iff : b * tenSide q e < a * twoSide q e ↔ (b : ℚ) * 10 ^ e < a * 2 ^ q := by
  obtain ⟨d, hd, htwo, hten⟩ := exists_cleared q e
  rw [← Nat.cast_lt (α := ℚ), Nat.cast_mul, Nat.cast_mul, htwo, hten, ← mul_assoc, ← mul_assoc,
    mul_lt_mul_iff_left₀ hd]

theorem twoSide_eq_iff : a * twoSide q e = b * tenSide q e ↔ (a : ℚ) * 2 ^ q = b * 10 ^ e := by
  obtain ⟨d, hd, htwo, hten⟩ := exists_cleared q e
  rw [← Nat.cast_inj (R := ℚ), Nat.cast_mul, Nat.cast_mul, htwo, hten, ← mul_assoc, ← mul_assoc,
    mul_left_inj' hd.ne']

theorem tenSide_pos (q e : Int) : 0 < tenSide q e :=
  Nat.mul_pos (Nat.pow_pos two_pos) (Nat.pow_pos (by decide))

/-- The grid point below a double. -/
def gridBelow (x : Binary64) (e : Int) : Nat :=
  4 * x.mantissa * twoSide (x.scale - 2) e / tenSide (x.scale - 2) e

theorem gridBelow_between (x : Binary64) (e : Int) :
    (x.gridBelow e : ℚ) * 10 ^ e ≤ x.magnitude ∧ x.magnitude < (x.gridBelow e + 1 : ℕ) * 10 ^ e := by
  rw [magnitude_eq, ← not_lt, ← twoSide_lt_iff, ← twoSide_lt_iff, not_lt]
  exact ⟨Nat.div_mul_le_self _ _, Nat.lt_mul_of_div_lt (Nat.lt_succ_self _) (tenSide_pos _ _)⟩

/-- What is found on a grid is the neighbour below, and it is above the lower end of the interval, or
the neighbour above, and it is below the upper end. -/
theorem onGrid?_cases {n : Nat} (h : x.onGrid? e = some n) :
    (n = x.gridBelow e ∧ ((x.interval.1 : ℚ) * 2 ^ (x.scale - 2) < n * 10 ^ e ∨
        x.mantissa % 2 = 0 ∧ (x.interval.1 : ℚ) * 2 ^ (x.scale - 2) = n * 10 ^ e)) ∨
      (n = x.gridBelow e + 1 ∧ ((n : ℚ) * 10 ^ e < x.interval.2.2 * 2 ^ (x.scale - 2) ∨
        x.mantissa % 2 = 0 ∧ x.interval.2.2 * 2 ^ (x.scale - 2) = (n : ℚ) * 10 ^ e)) := by
  simp only [← twoSide_lt_iff, ← twoSide_eq_iff, ← tenSide_lt_iff]
  unfold onGrid? at h
  simp only [Bool.and_eq_true, Bool.or_eq_true, decide_eq_true_eq, beq_iff_eq] at h
  split_ifs at h with hboth hnearer hbelow habove
  · exact .inr ⟨(Option.some.inj h).symm, by
      rw [← Option.some.inj h]
      exact hboth.2.imp_right (And.imp_right Eq.symm)⟩
  · exact .inl ⟨(Option.some.inj h).symm, by
      rw [← Option.some.inj h]
      exact hboth.1⟩
  · exact .inl ⟨(Option.some.inj h).symm, by
      rw [← Option.some.inj h]
      exact hbelow⟩
  · exact .inr ⟨(Option.some.inj h).symm, by
      rw [← Option.some.inj h]
      exact habove.imp_right (And.imp_right Eq.symm)⟩

/-- When a grid has nothing, the neighbours of the double lie on the ends of its interval or outside. -/
theorem onGrid?_eq_none (h : x.onGrid? e = none) :
    (x.gridBelow e : ℚ) * 10 ^ e ≤ x.interval.1 * 2 ^ (x.scale - 2) ∧
      x.interval.2.2 * 2 ^ (x.scale - 2) ≤ (x.gridBelow e + 1 : ℕ) * (10 : ℚ) ^ e := by
  rw [← not_lt, ← not_lt, ← twoSide_lt_iff, ← tenSide_lt_iff]
  unfold onGrid? at h
  simp only [Bool.and_eq_true, Bool.or_eq_true, decide_eq_true_eq, beq_iff_eq] at h
  split_ifs at h with hboth hbelow habove
  exact ⟨fun hlow => hbelow (.inl hlow), fun hhigh => habove (.inl hhigh)⟩

theorem magnitude_between (hm : 0 < x.mantissa) :
    (x.interval.1 : ℚ) * 2 ^ (x.scale - 2) < x.magnitude ∧
      x.magnitude < x.interval.2.2 * 2 ^ (x.scale - 2) := by
  rw [magnitude_eq, interval_high, interval_low hm]
  constructor
  · gcongr
    push_cast
    split_ifs <;> linarith
  · gcongr
    push_cast
    linarith

theorem onGrid?_near (hm : 0 < x.mantissa) {n : Nat} (h : x.onGrid? e = some n) :
    x.Near (n * 10 ^ e) := by
  obtain ⟨hlow, hhigh⟩ := magnitude_between hm
  obtain ⟨hbelow, habove⟩ := gridBelow_between x e
  rcases onGrid?_cases h with ⟨rfl, hn⟩ | ⟨rfl, hn⟩
  · refine ⟨?_, (hbelow.trans_lt hhigh).le, fun hodd => ⟨?_, hbelow.trans_lt hhigh⟩⟩
    · rcases hn with hn | ⟨-, hn⟩
      exacts [hn.le, hn.le]
    · rcases hn with hn | ⟨heven, -⟩
      exacts [hn, by omega]
  · refine ⟨(hlow.trans habove).le, ?_, fun hodd => ⟨hlow.trans habove, ?_⟩⟩
    · rcases hn with hn | ⟨-, hn⟩
      exacts [hn.le, hn.ge]
    · rcases hn with hn | ⟨heven, -⟩
      exacts [hn, by omega]

/-- Seventeen digits are enough: the grid is then finer than the interval is long. -/
theorem onGrid?_isSome (hm : 0 < x.mantissa) (h : (10 : ℚ) ^ e * 10 ^ 16 ≤ x.magnitude) :
    (x.onGrid? e).isSome = true := by
  by_contra hnone
  have hunit : (0 : ℚ) < 2 ^ (x.scale - 2) := by positivity
  obtain ⟨hlow, hhigh⟩ := onGrid?_eq_none (Option.not_isSome_iff_eq_none.mp hnone)
  have hM : (x.mantissa : ℚ) + 1 ≤ 2 ^ 53 := by exact_mod_cast mantissa_lt x
  rw [magnitude_eq] at h
  rw [interval_low hm] at hlow
  rw [interval_high] at hhigh
  push_cast at h hhigh
  split_ifs at hlow with hpower
  · rw [hpower.1] at h hlow hhigh
    push_cast at h hlow hhigh
    linarith
  · nlinarith

/-! ## All grids -/

theorem pointPlace_le (hm : 0 < x.mantissa) : (10 : ℚ) ^ (x.pointPlace - 1) ≤ x.magnitude := by
  have hden : 0 < Nat.pow 2 (-x.scale).toNat := Nat.pow_pos two_pos
  have hnum : 0 < x.mantissa * Nat.pow 2 x.scale.toNat := Nat.mul_pos hm (Nat.pow_pos two_pos)
  have hvalue : x.magnitude =
      (x.mantissa * Nat.pow 2 x.scale.toNat : ℕ) / (Nat.pow 2 (-x.scale).toNat : ℕ) := by
    rw [magnitude, zpow_eq_div 2 two_ne_zero]
    push_cast [Nat.pow_eq]
    rw [mul_div_assoc]
  unfold pointPlace
  rw [hvalue]
  generalize x.mantissa * Nat.pow 2 x.scale.toNat = num at *
  generalize Nat.pow 2 (-x.scale).toNat = den at *
  dsimp only
  have hden' : (0 : ℚ) < den := by exact_mod_cast hden
  have hnum' : (0 : ℚ) < num := by exact_mod_cast hnum
  split_ifs with hle
  · calc (10 : ℚ) ^ (((Nat.toDigits 10 (num / den)).length : Int) - 1)
        ≤ (num / den : ℕ) := (toDigits_between (Nat.div_pos hle hden)).1
      _ ≤ (num : ℚ) / den := Nat.cast_div_le
  · have hquot : 0 < (den - 1) / num := Nat.div_pos (by omega) hnum
    have hless := (toDigits_between hquot).2
    generalize (Nat.toDigits 10 ((den - 1) / num)).length = len at *
    rw [zpow_natCast] at hless
    have hless' : (den - 1) / num < 10 ^ len := by exact_mod_cast hless
    have hle' : den ≤ 10 ^ len * num := by
      have := (Nat.div_lt_iff_lt_mul hnum).mp hless'
      omega
    rw [show (1 : Int) - len - 1 = -len by ring, zpow_neg, zpow_natCast, le_div_iff₀ hden',
      inv_mul_le_iff₀ (by positivity)]
    exact_mod_cast hle'

theorem shortestFrom_near (hm : 0 < x.mantissa) {point : Int}
    (hpoint : (10 : ℚ) ^ (point - 1) ≤ x.magnitude) (tries : Nat) :
    ∀ digits : Nat, digits + tries = 17 →
      ∃ n e, x.shortestFrom point digits (tries + 1) = Digits.ofScaled n e ∧ x.Near (n * 10 ^ e) := by
  induction tries with
  | zero =>
    intro digits hcount
    have hfine : (10 : ℚ) ^ (point - digits) * 10 ^ 16 ≤ x.magnitude := by
      have h16 : (10 : ℚ) ^ 16 = 10 ^ (16 : Int) := by norm_num
      rw [h16, ← zpow_add₀ (by norm_num), show point - digits + 16 = point - 1 by omega]
      exact hpoint
    obtain ⟨n, hn⟩ := Option.isSome_iff_exists.mp (onGrid?_isSome hm hfine)
    exact ⟨n, _, by rw [shortestFrom, hn], onGrid?_near hm hn⟩
  | succ tries ih =>
    intro digits hcount
    rw [shortestFrom]
    cases hn : x.onGrid? (point - digits) with
    | some n => exact ⟨n, _, rfl, onGrid?_near hm hn⟩
    | none => exact ih (digits + 1) (by omega)

/-- **The shortest digits are near the double.** -/
theorem shortest_near (hm : 0 < x.mantissa) :
    ∃ n e, x.shortest = Digits.ofScaled n e ∧ x.Near (n * 10 ^ e) :=
  shortestFrom_near hm (pointPlace_le hm) 16 1 rfl

end Worksheet.Binary64
