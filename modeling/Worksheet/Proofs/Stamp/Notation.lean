import Worksheet.Proofs.Decimal.Notation
import Worksheet.Stamp.Notation
/-!
# Stamps read back

A stamp of the years 0 to 9999 is read back from its text, down to the nanosecond and in leap seconds.

* `readDigits_padded`: a number on its places;
* `readFraction_fractionText`: nanoseconds, in groups of three digits;
* **`read?_text`**: the whole stamp.
-/

namespace Worksheet.Stamp

open Worksheet.Text

variable {width n : Nat}

/-! ## Numbers on their places -/

theorem allDigits_padded (width n : Nat) : AllDigits (padded width n) :=
  (allDigits_replicate _).append (allDigits_toDigits n)

theorem digitsValue_padded (width n : Nat) : digitsValue (padded width n) = n := by
  simp [padded, digitsValue_append]

theorem length_padded (hwidth : 0 < width) (hn : n < 10 ^ width) : (padded width n).length = width := by
  have hle : (Nat.toDigits 10 n).length ≤ width := (Nat.length_toDigits_le_iff (by decide) hwidth).mpr hn
  simp only [padded, List.length_append, List.length_replicate]
  omega

theorem exists_padded (width n : Nat) : ∃ c cs, padded width n = c :: cs ∧ c.isDigit = true := by
  have hne : padded width n ≠ [] := by
    simp [padded, Nat.toDigits_ne_nil]
  obtain ⟨c, cs, hcons⟩ := List.exists_cons_of_ne_nil hne
  exact ⟨c, cs, hcons, allDigits_padded width n c (hcons ▸ List.mem_cons_self)⟩

theorem readDigits_padded (hwidth : 0 < width) (hn : n < 10 ^ width) (rest : List Char) :
    readDigits width (padded width n ++ rest) = some (n, rest) := by
  have hlength := length_padded hwidth hn
  have htake : (padded width n ++ rest).take width = padded width n := List.take_left' hlength
  have hdrop : (padded width n ++ rest).drop width = rest := List.drop_left' hlength
  have hdigits : (padded width n).takeWhile Char.isDigit = padded width n :=
    List.takeWhile_eq_self_iff.mpr (allDigits_padded width n)
  have hne : (padded width n).isEmpty = false := by
    obtain ⟨c, cs, hcons, -⟩ := exists_padded width n
    rw [hcons]
    rfl
  simp [readDigits, htake, hdigits, hne, hlength, hdrop, digitsValue_padded]

theorem not_isBlank_of_isDigit {c : Char} (hc : c.isDigit = true) : isBlank c = false := by
  have hrange : 48 ≤ c.toNat ∧ c.toNat ≤ 57 := by
    simpa [Char.isDigit, UInt32.le_iff_toNat_le] using hc
  simp only [isBlank, Bool.or_eq_false_iff, Bool.and_eq_false_iff, decide_eq_false_iff_not, beq_eq_false_iff_ne]
  omega

theorem trimStart_padded (width n : Nat) (rest : List Char) :
    trimStart (padded width n ++ rest) = padded width n ++ rest := by
  obtain ⟨c, cs, hcons, hc⟩ := exists_padded width n
  rw [hcons]
  exact List.dropWhile_cons_of_neg (by simp [not_isBlank_of_isDigit hc])

/-! ## Parts -/

theorem readPart_padded (hn : n < 100) (rest : List Char) : readPart (padded 2 n ++ rest) = some (n, rest) := by
  rw [readPart, trimStart_padded, readDigits_padded (by decide) hn]

theorem readMark_cons {mark : Char} (hmark : isBlank mark = false) (rest : List Char) :
    readMark mark (mark :: rest) = some rest := by
  have htrim : trimStart (mark :: rest) = mark :: rest := List.dropWhile_cons_of_neg (by simp [hmark])
  simp [readMark, htrim]

theorem readYear_yearText {year : Int} (hfirst : 0 ≤ year) (hlast : year ≤ 9999) (rest : List Char) :
    readYear (yearText year ++ rest) = some (year, rest) := by
  have hread := readDigits_padded (by decide) (show year.toNat < 10 ^ 4 by omega) rest
  obtain ⟨c, cs, hcons, hc⟩ := exists_padded 4 year.toNat
  have htrim := trimStart_padded 4 year.toNat rest
  rw [yearText, if_pos ⟨hfirst, hlast⟩, readYear, htrim]
  rw [hcons, List.cons_append] at hread ⊢
  split
  · rename_i heq
    obtain rfl := (List.cons.inj heq).1
    exact absurd hc (by decide)
  · rename_i heq
    obtain rfl := (List.cons.inj heq).1
    exact absurd hc (by decide)
  · simp [hread, Int.toNat_of_nonneg hfirst]

theorem readDay_chars {d : Day} (hfirst : 0 ≤ d.year) (hlast : d.year ≤ 9999) (hday : d.IsValid) (rest : List Char) :
    readDay (yearText d.year ++ '-' :: (padded 2 d.month ++ '-' :: (padded 2 d.day ++ rest))) = some (d, rest) := by
  obtain ⟨-, -, -, hmonth, -, hdays⟩ := hday
  have hdays' : Calendar.daysIn d.year d.month ≤ 31 := by
    unfold Calendar.daysIn
    split_ifs <;> decide
  have hhyphen : ∀ rest, readMark '-' ('-' :: rest) = some rest := readMark_cons (by decide)
  simp [readDay, readYear_yearText hfirst hlast, hhyphen, readPart_padded (show d.month < 100 by omega),
    readPart_padded (show d.day < 100 by omega)]

theorem readFraction_padded (hwidth : 0 < width) (hle : width ≤ 9) (hn : n < 10 ^ width) :
    readFraction ('.' :: padded width n ++ ['Z']) = some (n * 10 ^ (9 - width), ['Z']) := by
  have hlength := length_padded hwidth hn
  have hspan : (padded width n ++ ['Z']).span Char.isDigit = (padded width n, ['Z']) :=
    span_digits (allDigits_padded width n) (by rintro c ⟨⟩; decide)
  have hne : (padded width n).isEmpty = false := by
    obtain ⟨c, cs, hcons, -⟩ := exists_padded width n
    rw [hcons]
    rfl
  have htake : (padded width n).take 9 = padded width n := List.take_of_length_le (by omega)
  rw [List.cons_append, readFraction]
  simp only [hspan, hne, nanoseconds, htake, hlength, digitsValue_padded]
  rfl

theorem readFraction_fractionText (hn : n < 1000000000) :
    readFraction (fractionText n ++ ['Z']) = some (n, ['Z']) := by
  unfold fractionText
  split_ifs with hzero hmillis hmicros
  · rw [hzero]
    rfl
  · rw [readFraction_padded (by decide) (by decide) (by omega)]
    congr 2
    omega
  · rw [readFraction_padded (by decide) (by decide) (by omega)]
    congr 2
    omega
  · rw [readFraction_padded (by decide) (by decide) (by omega), Nat.sub_self, Nat.pow_zero, Nat.mul_one]

/-! ## Stamps -/

theorem ofLocal?_zero (s : Stamp) : ofLocal? s.day s.hour s.minute s.second s.nanosecond 0 = some s := by
  obtain ⟨day, hour, minute, second, nanosecond, hvalid⟩ := s
  obtain ⟨hday, hhour, hminute, -⟩ := id hvalid
  have hneg : ¬((hour * 60 + minute : Nat) - 0 : Int) < 0 := by omega
  have hover : ¬(1440 : Int) ≤ (hour * 60 + minute : Nat) - 0 := by omega
  have htotal : (((hour * 60 + minute : Nat) - 0 : Int) % 1440).toNat = hour * 60 + minute := by omega
  have hparts : (hour * 60 + minute) / 60 = hour ∧ (hour * 60 + minute) % 60 = minute := by omega
  simp only [ofLocal?, if_pos (And.intro hday (And.intro hhour hminute)), if_neg hneg, if_neg hover, htotal, hparts]
  exact dif_pos hvalid

/-- **A stamp is read back from its text.** -/
theorem read?_text {s : Stamp} (hfirst : 0 ≤ s.day.year) (hlast : s.day.year ≤ 9999) : read? s.text = some s := by
  obtain ⟨hday, hhour, hminute, hsecond, hnano⟩ := s.isValid
  have hchars : s.text.toList = yearText s.day.year ++ '-' :: (padded 2 s.day.month ++ '-' :: (padded 2 s.day.day ++
      'T' :: (padded 2 s.hour ++ ':' :: (padded 2 s.minute ++ ':' :: (padded 2 s.second ++
        (fractionText s.nanosecond ++ ['Z'])))))) := by
    simp [text, chars]
  have hcolon : ∀ rest, readMark ':' (':' :: rest) = some rest := readMark_cons (by decide)
  have hseparator : ∀ rest, readSeparator ('T' :: rest) = some rest := fun rest => rfl
  have hoffset : readOffset (trimStart ['Z']) = some (0, []) := by decide
  rw [read?, hchars, readDay_chars hfirst hlast hday]
  have hblank : isAllBlank [] = true := rfl
  simp only [Option.bind_eq_bind, Option.bind_some, hseparator, readPart_padded (show s.hour < 100 by omega), hcolon,
    readPart_padded (show s.minute < 100 by omega), readPart_padded (show s.second < 100 by omega),
    readFraction_fractionText hnano, hoffset, hblank, if_true, ofLocal?_zero]

end Worksheet.Stamp
