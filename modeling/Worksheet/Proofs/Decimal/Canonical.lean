import Worksheet.Proofs.Decimal.ReadBack
import Worksheet.Proofs.Formula.NumberLiteral
import Worksheet.Proofs.Text.Trimmed
/-!
# The canonical text of a number

The text that shows a finite number is read as this number, so showing it a second time changes nothing.

* `magnitude_of_whole?`, `read?_whole`: the digits of a number without a fraction;
* `text_pointed`: the text of a finite number is a decimal number that is read as this number;
* `read?_text`, `canonical?_text`: what is read from the text, and what is shown for it;
* `canonical?_canonical`: the canonical text is its own canonical text.
-/

namespace Worksheet

open Worksheet.Text

namespace Binary64

variable {x : Binary64} {n : Nat}

/-- A number without a fraction is worth its magnitude. -/
theorem magnitude_of_whole? (h : x.whole? = some n) : x.magnitude = n := by
  have hscale : x.magnitude = (x.mantissa : ℚ) * (2 ^ x.scale.toNat / 2 ^ (-x.scale).toNat) := by
    rw [magnitude, zpow_eq_div 2 two_ne_zero]
  simp only [whole?] at h
  split_ifs at h with hfin hpos hwhole
  · cases h
    rw [hscale, show (-x.scale).toNat = 0 by omega]
    push_cast [Nat.pow_eq]
    ring
  · cases h
    have hunit : (0 : ℚ) < 2 ^ (-x.scale).toNat := by positivity
    have hsplit := Nat.div_mul_cancel (Nat.dvd_of_mod_eq_zero hwhole)
    rw [hscale, show x.scale.toNat = 0 by omega, pow_zero, mul_one_div, div_eq_iff hunit.ne']
    exact_mod_cast hsplit.symm

theorem near_magnitude (hm : 0 < x.mantissa) : x.Near x.magnitude :=
  have h := magnitude_between hm
  ⟨h.1.le, h.2.le, fun _ => h⟩

/-- The digits of a number without a fraction are read as this number, with its sign. -/
theorem read?_whole (h : x.whole? = some n) :
    Binary64.read? (minus x.isNegative (pointed (Nat.toDigits 10 n) [])) = some x := by
  have hfin : x.isFinite = true := by
    by_contra hnot
    rw [whole?, if_pos (by simpa using hnot)] at h
    cases h
  have hdigits := allDigits_toDigits n
  have hne : Nat.toDigits 10 n ≠ [] := List.ne_nil_of_length_pos Nat.length_toDigits_pos
  rw [read?_pointed _ hne hdigits allDigits_nil, List.append_nil, digitsValue_toDigits]
  refine congrArg some ?_
  rcases Nat.eq_zero_or_pos x.mantissa with hm | hm
  · -- the digits of a zero say nothing about its sign, but the sign in front does
    obtain rfl : n = 0 := Option.some.inj (h.symm.trans (Formula.whole?_of_mantissa_eq_zero hfin hm))
    exact signed_zero hm
  · have hnear := near_magnitude hm
    rw [magnitude_of_whole? h] at hnear
    exact ofDecimal_near hfin hm (by simpa using hnear)

end Binary64

namespace CellNumber

variable {x : Binary64} {t : String}

theorem isFinite_of_read? (h : read? t = some x) : x.isFinite = true :=
  (Option.filter_eq_some_iff.mp h).2

theorem not_special (hfin : x.isFinite = true) : x.isNaN = false ∧ x.isInfinite = false := by
  have hfield : (x.exponentField == 2047) = false := by simpa [Binary64.isFinite] using hfin
  simp [Binary64.isNaN, Binary64.isInfinite, hfield]

/-- **The text of a finite number is a decimal number that is read as this number.** -/
theorem text_pointed (hfin : x.isFinite = true) : ∃ whole fraction,
    (text x).toList = minus x.isNegative (pointed whole fraction) ∧ whole ≠ [] ∧ AllDigits whole ∧
      AllDigits fraction ∧ Binary64.read? (text x).toList = some x := by
  obtain ⟨hnan, hinfinite⟩ := not_special hfin
  by_cases hsmall : ∃ n, x.whole? = some n ∧ n < Nat.pow 2 53
  · obtain ⟨n, hn, hlt⟩ := hsmall
    have htext : (text x).toList = minus x.isNegative (pointed (Nat.toDigits 10 n) []) := by
      simp only [text, hnan, hinfinite, smallWhole?, hn, if_pos hlt, Bool.false_eq_true, if_false,
        String.toList_ofList]
      rfl
    refine ⟨Nat.toDigits 10 n, [], htext, List.ne_nil_of_length_pos Nat.length_toDigits_pos,
      allDigits_toDigits n, allDigits_nil, ?_⟩
    rw [htext]
    exact Binary64.read?_whole hn
  · have hm : 0 < x.mantissa := by
      refine Nat.pos_of_ne_zero fun hm => hsmall ⟨0, Formula.whole?_of_mantissa_eq_zero hfin hm, ?_⟩
      exact Nat.pow_pos two_pos
    obtain ⟨hnone, -⟩ := Formula.float_of_not_small fun n hn hlt => hsmall ⟨n, hn, hlt⟩
    have htext : (text x).toList = x.plain := by
      simp only [text, hnan, hinfinite, hnone, Bool.false_eq_true, if_false, String.toList_ofList]
    obtain ⟨whole, fraction, v, hplain, hwrites, -⟩ := Binary64.plain_writes hfin hm
    refine ⟨whole, fraction, htext.trans hplain, hwrites.whole_ne_nil, hwrites.whole_digits,
      hwrites.fraction_digits, ?_⟩
    rw [htext]
    exact Binary64.read?_plain hfin

theorem not_blank_pointed {whole fraction : List Char} {negative : Bool} (hwhole : AllDigits whole)
    (hfraction : AllDigits fraction) : ∀ c ∈ minus negative (pointed whole fraction), isBlank c = false := by
  have hdigit : ∀ c : Char, c.isDigit = true → isBlank c = false := fun c hc => (Formula.digit_starts hc).2.1
  have hbody : ∀ c ∈ pointed whole fraction, isBlank c = false := by
    intro c hc
    unfold pointed at hc
    split_ifs at hc
    · exact hdigit c (hwhole c hc)
    · rcases List.mem_append.mp hc with hc | hc
      · exact hdigit c (hwhole c hc)
      · rcases List.mem_cons.mp hc with rfl | hc
        exacts [by decide, hdigit c (hfraction c hc)]
  intro c hc
  cases negative with
  | false => exact hbody c hc
  | true =>
    rcases List.mem_cons.mp hc with rfl | hc
    exacts [by decide, hbody c hc]

/-- **The text of a finite number is read as this number.** -/
theorem read?_text (hfin : x.isFinite = true) : read? (text x) = some x := by
  obtain ⟨whole, fraction, htext, -, hwhole, hfraction, hread⟩ := text_pointed hfin
  have hblank : ∀ c ∈ (text x).toList, isBlank c = false := htext ▸ not_blank_pointed hwhole hfraction
  rw [read?, trim_of_not_blank hblank, hread, Option.filter_some, if_pos hfin]

theorem canonical?_text (hfin : x.isFinite = true) : canonical? (text x) = some (text x) := by
  rw [canonical?, read?_text hfin, Option.map_some]

theorem canonical?_of_read? (h : read? t = some x) : canonical? t = some (text x) := by
  rw [canonical?, h, Option.map_some]

/-- **The canonical text is its own canonical text.** -/
theorem canonical?_canonical {u : String} (h : canonical? t = some u) : canonical? u = some u := by
  obtain ⟨x, hx, rfl⟩ := Option.map_eq_some_iff.mp h
  exact canonical?_text (isFinite_of_read? hx)

/-- Zero keeps its sign, the first number that is not small has the digits of the shortest decimal, and a number out
of range has no canonical text. -/
example : canonical? " -0.0 " = some "-0" ∧ canonical? "9007199254740993" = some "9007199254740992" ∧
    canonical? "1e400" = none := by decide +kernel

end CellNumber

end Worksheet
