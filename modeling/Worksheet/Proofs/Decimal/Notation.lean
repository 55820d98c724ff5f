import Mathlib.Algebra.Group.Nat.Defs
import Mathlib.Data.List.TakeDrop
import Mathlib.Data.List.TakeWhile
import Mathlib.Tactic.SplitIfs
import Worksheet.Decimal.Reader
/-!
# Decimal notation

Digits with a point and a sign, and what they are read as.

* `digitsValue_append`, `digitsValue_toDigits`: the number of a row of digits;
* `pointed`: digits before and after a point, `minus` with a sign;
* **`Decimal.read?_pointed`**: such a text is read as the number that it writes.
-/

namespace Worksheet

/-! ## Rows of digits -/

/-- Nothing but digits. -/
def AllDigits (cs : List Char) : Prop :=
  ∀ c ∈ cs, c.isDigit = true

variable {cs ds : List Char}

theorem allDigits_nil : AllDigits [] :=
  fun _ h => absurd h List.not_mem_nil

theorem AllDigits.append (hcs : AllDigits cs) (hds : AllDigits ds) : AllDigits (cs ++ ds) := by
  intro c hc
  rcases List.mem_append.mp hc with hc | hc
  · exact hcs c hc
  · exact hds c hc

theorem allDigits_toDigits (n : Nat) : AllDigits (Nat.toDigits 10 n) :=
  fun _ hc => Nat.isDigit_of_mem_toDigits (by decide) (by decide) hc

theorem allDigits_replicate (n : Nat) : AllDigits (List.replicate n '0') := by
  intro c hc
  rw [List.eq_of_mem_replicate hc]
  decide

theorem digitsValue_append (cs ds : List Char) :
    digitsValue (cs ++ ds) = 10 ^ ds.length * digitsValue cs + digitsValue ds := by
  show Nat.ofDigitChars 10 (cs ++ ds) 0 = _
  rw [Nat.ofDigitChars_append, Nat.ofDigitChars_eq_ofDigitChars_zero]
  rfl

@[simp] theorem digitsValue_toDigits (n : Nat) : digitsValue (Nat.toDigits 10 n) = n :=
  Nat.ofDigitChars_ten_toDigits

@[simp] theorem digitsValue_replicate (n : Nat) : digitsValue (List.replicate n '0') = 0 := by
  show Nat.ofDigitChars 10 (List.replicate n '0') 0 = 0
  rw [Nat.ofDigitChars_replicate_zero, Nat.mul_zero]

/-! ## Points and signs -/

/-- Digits with a point, which is left out if nothing follows it. -/
def pointed (whole fraction : List Char) : List Char :=
  if fraction.isEmpty then whole else whole ++ '.' :: fraction

/-- A text with a minus sign in front of it, or without. -/
def minus (negative : Bool) (body : List Char) : List Char :=
  if negative then '-' :: body else body

variable {whole fraction : List Char}

theorem pointed_eq_cons (hne : whole ≠ []) (hwhole : AllDigits whole) (fraction : List Char) :
    ∃ c rest, pointed whole fraction = c :: rest ∧ c.isDigit = true := by
  obtain ⟨c, rest, rfl⟩ := List.exists_cons_of_ne_nil hne
  have hc := hwhole c List.mem_cons_self
  unfold pointed
  split_ifs
  · exact ⟨c, rest, rfl, hc⟩
  · exact ⟨c, rest ++ '.' :: fraction, rfl, hc⟩

theorem takeSign_minus {c : Char} (hc : c.isDigit = true) (negative : Bool) (rest : List Char) :
    takeSign (minus negative (c :: rest)) = (negative, c :: rest) := by
  cases negative with
  | true => rfl
  | false =>
    unfold minus takeSign
    split <;> simp_all [Char.isDigit]

theorem span_digits (hcs : AllDigits cs) {rest : List Char} (hrest : ∀ c ∈ rest.head?, c.isDigit = false) :
    (cs ++ rest).span Char.isDigit = (cs, rest) := by
  rw [List.span_eq_takeWhile_dropWhile, List.takeWhile_append_of_pos hcs, List.dropWhile_append_of_pos hcs]
  cases rest with
  | nil => simp
  | cons c rest =>
    have hc : c.isDigit = false := hrest c rfl
    simp [hc]

theorem span_allDigits (hcs : AllDigits cs) : cs.span Char.isDigit = (cs, []) := by
  have h : (cs ++ []).span Char.isDigit = (cs, []) := span_digits hcs (by simp)
  rwa [List.append_nil] at h

namespace Decimal

/-- **A decimal number is read as what it writes.** -/
theorem read?_pointed (negative : Bool) (hne : whole ≠ []) (hwhole : AllDigits whole)
    (hfraction : AllDigits fraction) :
    read? (minus negative (pointed whole fraction)) =
      some ⟨negative, digitsValue (whole ++ fraction), -(fraction.length : Int)⟩ := by
  obtain ⟨c, rest, hcons, hc⟩ := pointed_eq_cons hne hwhole fraction
  have hsign : takeSign (minus negative (pointed whole fraction)) = (negative, pointed whole fraction) := by
    rw [hcons, takeSign_minus hc]
  have hempty : whole.isEmpty = false := by simpa using hne
  cases fraction with
  | nil =>
    have hspan : (pointed whole []).span Char.isDigit = (whole, []) := span_allDigits hwhole
    simp only [read?, hsign, hspan, hempty, readExponent?]
    rfl
  | cons d more =>
    have hspan : (pointed whole (d :: more)).span Char.isDigit = (whole, '.' :: d :: more) := by
      refine span_digits hwhole fun c hc => ?_
      cases hc
      decide
    simp only [read?, hsign, hspan, span_allDigits hfraction, hempty, readExponent?]
    simp

end Decimal

theorem Binary64.read?_pointed (negative : Bool) (hne : whole ≠ []) (hwhole : AllDigits whole)
    (hfraction : AllDigits fraction) :
    Binary64.read? (minus negative (pointed whole fraction)) =
      some (ofDecimal negative (digitsValue (whole ++ fraction)) (-(fraction.length : Int))) := by
  obtain ⟨c, rest, hcons, hc⟩ := pointed_eq_cons hne hwhole fraction
  have hsign : takeSign (minus negative (pointed whole fraction)) = (negative, c :: rest) := by
    rw [hcons, takeSign_minus hc]
  have hlower : c.toLower = c := by
    refine dif_neg ?_
    simp only [Char.isDigit, Bool.and_eq_true, decide_eq_true_eq, ge_iff_le, UInt32.le_iff_toNat_le] at hc ⊢
    intro h
    exact absurd (h.1.trans hc.2) (by decide)
  -- no name starts with a digit
  have hname : ∀ word : String, word.toList.head?.any Char.isDigit = false →
      ¬ String.ofList ((c :: rest).map Char.toLower) = word := by
    intro word hword heq
    rw [← heq, String.toList_ofList, List.map_cons, hlower, List.head?_cons, Option.any_some, hc] at hword
    cases hword
  unfold Binary64.read?
  simp only [hsign, hname "inf" (by decide), hname "infinity" (by decide), hname "nan" (by decide),
    if_false, Decimal.read?_pointed negative hne hwhole hfraction]
  rfl

end Worksheet
