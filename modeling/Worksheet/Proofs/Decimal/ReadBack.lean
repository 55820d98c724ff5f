import Worksheet.Decimal.Layout
import Worksheet.Proofs.Decimal.Notation
import Worksheet.Proofs.Decimal.Shortest
/-!
# Printing and reading doubles

The text of a finite double reads back as the double.

* `Writes`: digits before and after a point, and the number that they write;
* `positional_writes`: the layout without exponent writes the number of its digits;
* `plain_writes`: the plain text of a double writes a number near it;
* **`read?_plain`**: the plain text of a finite double is read as this double.
-/

namespace Worksheet

/-- The digits before and after the point write the number. -/
structure Writes (whole fraction : List Char) (v : ℚ) : Prop where
  whole_ne_nil : whole ≠ []
  whole_digits : AllDigits whole
  fraction_digits : AllDigits fraction
  value : (digitsValue (whole ++ fraction) : ℚ) * 10 ^ (-(fraction.length : Int)) = v

variable {whole fraction : List Char} {v : ℚ}

theorem Writes.point_zero (h : Writes whole [] v) : Writes whole ['0'] v := by
  refine ⟨h.whole_ne_nil, h.whole_digits, allDigits_replicate 1, ?_⟩
  have hzero : digitsValue ['0'] = 0 := rfl
  rw [← h.value, digitsValue_append, hzero, List.append_nil]
  simp [mul_right_comm]

/-! ## Layouts -/

namespace Digits

/-- The number that a decimal stands for. -/
def value (d : Digits) : ℚ :=
  digitsValue d.digits * 10 ^ (d.point - d.digits.length)

theorem exists_zeros (cs : List Char) :
    ∃ k, cs = (cs.reverse.dropWhile (· == '0')).reverse ++ List.replicate k '0' := by
  refine ⟨(cs.reverse.takeWhile (· == '0')).length, ?_⟩
  have hzeros : cs.reverse.takeWhile (· == '0') =
      List.replicate (cs.reverse.takeWhile (· == '0')).length '0' :=
    List.eq_replicate_iff.mpr ⟨rfl, fun c hc => beq_iff_eq.mp (List.mem_takeWhile_imp (p := (· == '0')) hc)⟩
  rw [← List.reverse_inj, List.reverse_append, List.reverse_reverse, List.reverse_replicate, ← hzeros,
    List.takeWhile_append_dropWhile]

variable {n : Nat} {e : Int}

theorem ofScaled_value (n : Nat) (e : Int) : (ofScaled n e).value = n * 10 ^ e := by
  obtain ⟨k, hk⟩ := exists_zeros (Nat.toDigits 10 n)
  have hvalue := digitsValue_toDigits n
  rw [value, ofScaled]
  dsimp only
  generalize ((Nat.toDigits 10 n).reverse.dropWhile (· == '0')).reverse = digits at hk ⊢
  rw [hk] at hvalue ⊢
  rw [digitsValue_append, digitsValue_replicate, List.length_replicate, Nat.add_zero] at hvalue
  have hpoint : ((digits ++ List.replicate k '0').length : Int) + e - digits.length = k + e := by
    rw [List.length_append, List.length_replicate]
    omega
  rw [hpoint, zpow_add₀ (by norm_num), zpow_natCast, ← mul_assoc, ← hvalue]
  push_cast
  ring

theorem ofScaled_digits (n : Nat) (e : Int) : AllDigits (ofScaled n e).digits := by
  intro c hc
  refine allDigits_toDigits n c ?_
  rw [ofScaled, List.mem_reverse] at hc
  exact List.mem_reverse.mp ((List.dropWhile_sublist _).subset hc)

theorem ofScaled_ne_nil (hn : 0 < n) : (ofScaled n e).digits ≠ [] := by
  intro hnil
  obtain ⟨k, hk⟩ := exists_zeros (Nat.toDigits 10 n)
  have hvalue := digitsValue_toDigits n
  replace hnil : ((Nat.toDigits 10 n).reverse.dropWhile (· == '0')).reverse = [] := hnil
  rw [hk, hnil, List.nil_append, digitsValue_replicate] at hvalue
  omega

theorem positional_writes (d : Digits) (hne : d.digits ≠ []) (hdigits : AllDigits d.digits) :
    ∃ whole fraction, d.positional = pointed whole fraction ∧ Writes whole fraction d.value := by
  unfold positional
  dsimp only
  split_ifs with hsmall hlarge
  · -- a point before all digits
    have hfraction : AllDigits (List.replicate (-d.point).toNat '0' ++ d.digits) :=
      (allDigits_replicate _).append hdigits
    refine ⟨['0'], List.replicate (-d.point).toNat '0' ++ d.digits, ?_, by simp, allDigits_replicate 1,
      hfraction, ?_⟩
    · rw [pointed, if_neg (by simp [hne])]
      simp
    · have hzero : digitsValue ['0'] = 0 := rfl
      rw [value, digitsValue_append, digitsValue_append, hzero, digitsValue_replicate, Nat.mul_zero,
        Nat.mul_zero, Nat.zero_add, Nat.zero_add, List.length_append, List.length_replicate]
      congr 2
      omega
  · -- no point
    refine ⟨d.digits ++ List.replicate (d.point.toNat - d.digits.length) '0', [], rfl, by simp [hne],
      hdigits.append (allDigits_replicate _), allDigits_nil, ?_⟩
    rw [value, List.append_nil, digitsValue_append, digitsValue_replicate, List.length_replicate,
      Nat.add_zero, mul_comm (10 ^ _), List.length_nil, Int.natCast_zero, neg_zero, zpow_zero, mul_one]
    push_cast
    rw [← zpow_natCast]
    congr 2
    omega
  · -- a point among the digits
    refine ⟨d.digits.take d.point.toNat, d.digits.drop d.point.toNat, ?_, ?_,
      fun c hc => hdigits c (List.mem_of_mem_take hc), fun c hc => hdigits c (List.mem_of_mem_drop hc), ?_⟩
    · rw [pointed, if_neg, List.append_assoc]
      · rfl
      · simp only [List.isEmpty_iff, List.drop_eq_nil_iff]
        omega
    · simp only [ne_eq, List.take_eq_nil_iff, hne, or_false]
      omega
    · rw [value, List.take_append_drop, List.length_drop]
      congr 2
      omega

end Digits

/-! ## Doubles -/

namespace Binary64

variable {x : Binary64}

/-- The plain text of a double other than zero writes a number near it. -/
theorem plain_writes (hfin : x.isFinite = true) (hm : 0 < x.mantissa) :
    ∃ whole fraction v, x.plain = minus x.isNegative (pointed whole fraction) ∧
      Writes whole fraction v ∧ x.Near v := by
  obtain ⟨n, e, hshortest, hnear⟩ := shortest_near hm
  have hn : 0 < n := by
    rcases Nat.eq_zero_or_pos n with rfl | hpos
    · have := hnear.pos hm
      simp at this
    · exact hpos
  obtain ⟨whole, fraction, htext, hwrites⟩ :=
    (Digits.ofScaled n e).positional_writes (Digits.ofScaled_ne_nil hn) (Digits.ofScaled_digits n e)
  rw [Digits.ofScaled_value] at hwrites
  have hzero : x.isZero = false := by simp [isZero, hm.ne']
  refine ⟨whole, fraction, _, ?_, hwrites, hnear⟩
  rw [plain, hfin, hzero, hshortest, htext]
  rfl

theorem ofDecimal_writes (hfin : x.isFinite = true) (hm : 0 < x.mantissa) (hnear : x.Near v)
    (h : Writes whole fraction v) :
    ofDecimal x.isNegative (digitsValue (whole ++ fraction)) (-(fraction.length : Int)) = x :=
  ofDecimal_near hfin hm (h.value ▸ hnear)

theorem signed_zero (hm : x.mantissa = 0) : signed x.isNegative 0 = x := by
  have hfields : x.exponentField = 0 ∧ x.fractionField = 0 := by
    unfold mantissa at hm
    by_cases hexponent : x.exponentField = 0
    · exact ⟨hexponent, by rwa [if_pos hexponent] at hm⟩
    · rw [if_neg hexponent] at hm
      have hpos : 0 < Nat.pow 2 52 := Nat.pow_pos two_pos
      exact absurd (Nat.add_eq_zero_iff.mp hm).2 hpos.ne'
  have := signed_fields x
  rwa [hfields.1, hfields.2, Nat.zero_mul] at this

/-- **The plain text of a finite double is read as this double.** -/
theorem read?_plain (hfin : x.isFinite = true) : Binary64.read? x.plain = some x := by
  rcases Nat.eq_zero_or_pos x.mantissa with hm | hm
  · have hzero : x.isZero = true := by simp [isZero, hfin, hm]
    have hplain : x.plain = minus x.isNegative (pointed ['0'] []) := by
      rw [plain, hfin, hzero]
      rfl
    have hdigits : AllDigits ['0'] := allDigits_replicate 1
    rw [hplain, read?_pointed _ (by simp) hdigits allDigits_nil]
    exact congrArg some (signed_zero hm)
  · obtain ⟨whole, fraction, v, hplain, hwrites, hnear⟩ := plain_writes hfin hm
    rw [hplain, read?_pointed _ hwrites.whole_ne_nil hwrites.whole_digits hwrites.fraction_digits,
      ofDecimal_writes hfin hm hnear hwrites]

end Binary64

end Worksheet
