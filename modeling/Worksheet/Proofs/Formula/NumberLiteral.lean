import Worksheet.Formula.Expr
import Worksheet.Proofs.Decimal.ReadBack
import Worksheet.Proofs.Formula.Cutting
/-!
# Numbers as literals

The literal of a number in a cell is one token, and the token is the number.

* `scanDecimal_pointed`, `numberLexeme_pointed`: all of a decimal number is read;
* `cutsItem_number`: a decimal number, with a minus sign in front or without, is one token;
* `numberValue`: a number as a value of the formula language;
* **`cutsItem_literalOf`**: the literal of a finite number is cut into this value.
-/

namespace Worksheet.Formula

open Worksheet.Text

variable {whole fraction ds rest : List Char} {negative : Bool} {v : ℚ}

/-! ## Scanning -/

theorem scanDecimal_stop {phase : DecimalPhase} (hsign : phase.sign = false)
    (hrest : ∀ c ∈ rest.head?, endsWord c) : scanDecimal phase rest = ([], 0) := by
  cases rest with
  | nil => rfl
  | cons c rest =>
    have hc := hrest c rfl
    simp only [endsWord, List.mem_cons, List.not_mem_nil, or_false] at hc
    rcases hc with rfl | rfl | rfl | rfl | rfl | rfl | rfl <;> simp [scanDecimal, hsign]

theorem scanDecimal_digits {phase : DecimalPhase} (hsign : phase.sign = false) (hds : AllDigits ds)
    (rest : List Char) : scanDecimal phase (ds ++ rest) =
      (ds ++ (scanDecimal phase rest).1, ds.length + (scanDecimal phase rest).2) := by
  have hphase : { phase with sign := false } = phase := by
    cases phase
    simp_all
  induction ds with
  | nil => simp
  | cons d ds ih =>
    have hd : d.isDigit = true := hds d List.mem_cons_self
    have hunderscore : (d == '_') = false := by
      rw [beq_eq_false_iff_ne]
      rintro rfl
      exact absurd hd (by decide)
    have hmore := ih fun c hc => hds c (List.mem_cons_of_mem _ hc)
    rw [List.cons_append, scanDecimal]
    simp only [hunderscore, hd, hphase, hmore, Bool.false_eq_true, if_false, if_true]
    simp only [List.cons_append, List.nil_append, List.length_cons, Nat.add_assoc, Nat.add_comm 1]

theorem scanDecimal_pointed (hwhole : AllDigits whole) (hfraction : AllDigits fraction)
    (hrest : ∀ c ∈ rest.head?, endsWord c) :
    scanDecimal {} (pointed whole fraction ++ rest) =
      (pointed whole fraction, (pointed whole fraction).length) := by
  cases fraction with
  | nil =>
    rw [show pointed whole [] = whole from rfl, scanDecimal_digits rfl hwhole, scanDecimal_stop rfl hrest]
    simp
  | cons d fraction =>
    have hd : d.isDigit = true := hfraction d List.mem_cons_self
    have hpointed : pointed whole (d :: fraction) = whole ++ '.' :: d :: fraction := rfl
    have htail : scanDecimal ⟨false, true, false⟩ (d :: fraction ++ rest) =
        (d :: fraction, (d :: fraction).length) := by
      rw [scanDecimal_digits rfl hfraction, scanDecimal_stop rfl hrest]
      simp
    have hpoint : scanDecimal {} ('.' :: (d :: fraction ++ rest)) =
        ('.' :: d :: fraction, ('.' :: d :: fraction).length) := by
      rw [scanDecimal]
      simp [hd] at htail ⊢
      simp [htail, Nat.add_comm 1]
    rw [hpointed, List.append_assoc, scanDecimal_digits rfl hwhole, List.cons_append, hpoint]
    simp

/-! ## Lexemes -/

theorem numberLexeme_decimal {cs : List Char} (h : ∀ c ∈ cs.tail.head?, c.isAlpha = false) :
    numberLexeme negative cs =
      ⟨decimalToken negative (scanDecimal {} cs).1, (scanDecimal {} cs).2, 0⟩ := by
  unfold numberLexeme
  split
  · rename_i c more
    have hletter : ∀ d : Char, d.isAlpha = true → (c == d) = false := by
      intro d hd
      rw [beq_eq_false_iff_ne]
      rintro rfl
      rw [h c rfl] at hd
      cases hd
    rw [hletter 'x' rfl, hletter 'X' rfl, hletter 'o' rfl, hletter 'O' rfl, hletter 'b' rfl, hletter 'B' rfl]
    rfl
  · rfl

theorem isAlpha_of_isDigit {c : Char} (h : c.isDigit = true) : c.isAlpha = false := by
  rw [Bool.eq_false_iff]
  intro halpha
  have hletter := isAlpha_iff_toNat.mp halpha
  have hdigit : c.toNat ≤ 57 := (Char.isDigit_iff_toNat.mp h).2
  omega

theorem isAlpha_of_endsWord {c : Char} (h : endsWord c) : c.isAlpha = false := by
  have key : [' ', ',', ';', ':', ']', '(', ')'].all (·.isAlpha == false) = true := by decide
  exact beq_iff_eq.mp (List.all_eq_true.mp key c h)

theorem numberLexeme_pointed (hne : whole ≠ []) (hwhole : AllDigits whole) (hfraction : AllDigits fraction)
    (hrest : ∀ c ∈ rest.head?, endsWord c) :
    numberLexeme negative (pointed whole fraction ++ rest) =
      ⟨decimalToken negative (pointed whole fraction), (pointed whole fraction).length, 0⟩ := by
  rw [numberLexeme_decimal, scanDecimal_pointed hwhole hfraction hrest]
  obtain ⟨d, ds, rfl⟩ := List.exists_cons_of_ne_nil hne
  have hsecond : ∀ c ∈ (ds ++ rest).head?, c.isAlpha = false := by
    cases ds with
    | nil => exact fun c hc => isAlpha_of_endsWord (hrest c hc)
    | cons d' ds =>
      rintro c ⟨⟩
      exact isAlpha_of_isDigit (hwhole _ (by simp))
  cases fraction with
  | nil => exact hsecond
  | cons d' fraction =>
    cases ds with
    | nil =>
      rintro c ⟨⟩
      decide
    | cons d'' ds =>
      rintro c ⟨⟩
      exact isAlpha_of_isDigit (hwhole _ (by simp))

theorem newline_not_mem_pointed (hwhole : AllDigits whole) (hfraction : AllDigits fraction) :
    '\n' ∉ pointed whole fraction := by
  have hnot : ∀ {cs : List Char}, AllDigits cs → '\n' ∉ cs := fun hcs hmem => absurd (hcs _ hmem) (by decide)
  unfold pointed
  split_ifs
  · exact hnot hwhole
  · rw [List.mem_append, List.mem_cons]
    rintro (h | h | h)
    · exact hnot hwhole h
    · exact absurd h (by decide)
    · exact hnot hfraction h

theorem digit_starts {d : Char} (hd : d.isDigit = true) :
    d ≠ '/' ∧ isBlank d = false ∧ (isNameLetter d || d == '_') = false := by
  have hname : isNameChar d = true := by simp [isNameChar, Char.isAlphanum, hd]
  refine ⟨?_, isNameChar_isBlank hname, ?_⟩
  · rintro rfl
    exact absurd hd (by decide)
  · rw [Bool.or_eq_false_iff, beq_eq_false_iff_ne]
    refine ⟨isAlpha_of_isDigit hd, ?_⟩
    rintro rfl
    exact absurd hd (by decide)

/-- A decimal number, with a minus sign in front or without, is one token where an operand is due. -/
theorem cutsItem_number {token : Token} (hne : whole ≠ []) (hwhole : AllDigits whole)
    (hfraction : AllDigits fraction) (htoken : decimalToken negative (pointed whole fraction) = token)
    (hplain : token.isPlain = true) (hoperand : token.expectsOperand = false) :
    CutsItem true (minus negative (pointed whole fraction)) [token] := by
  obtain ⟨d, ds, hcons, hd⟩ := pointed_eq_cons hne hwhole fraction
  obtain ⟨hslash, hblank, hletter⟩ := digit_starts hd
  have hline := newline_not_mem_pointed hwhole hfraction
  have hlexeme : ∀ rest : List Char, (∀ c ∈ rest.head?, endsWord c) →
      numberLexeme negative (d :: ds ++ rest) = ⟨token, (d :: ds).length, 0⟩ := by
    intro rest hrest
    rw [← hcons, numberLexeme_pointed hne hwhole hfraction hrest, htoken]
  rw [hcons] at hline ⊢
  cases negative with
  | false =>
    have hcuts : Cuts true (d :: ds) [token] token.expectsOperand endsWord := by
      refine Cuts.lexeme hslash hblank hplain hline fun column rest hrest => ?_
      rw [List.cons_append, nextLexeme, if_neg (by simp [hletter]), if_pos hd, ← List.cons_append,
        hlexeme rest hrest]
    rw [hoperand] at hcuts
    exact ⟨hcuts, d, rfl, hblank⟩
  | true =>
    have hline' : '\n' ∉ '-' :: d :: ds := by
      rw [List.mem_cons]
      exact fun h => h.elim (absurd · (by decide)) hline
    have hcuts : Cuts true ('-' :: d :: ds) [token] token.expectsOperand endsWord := by
      refine Cuts.lexeme (by decide) (by decide) hplain hline' fun column rest hrest => ?_
      -- where an operand is due, the minus belongs to the number
      have hnext : ((d :: ds ++ rest).head?.map Char.isDigit).getD false = true := hd
      rw [List.cons_append, nextLexeme, if_neg (by decide), if_neg (by decide), if_neg (by decide),
        if_neg (by decide), if_neg (by decide), hnext, if_pos (by decide)]
      simp only [hlexeme rest hrest, List.length_cons, Nat.add_comm 1]
    rw [hoperand] at hcuts
    exact ⟨hcuts, '-', rfl, by decide⟩

/-! ## Numbers in cells -/

/-- The token of a value that is written out. -/
def Literal.token : Literal → Token
  | .unit => .mark .emptyParens
  | .bool true => .keyword .true_
  | .bool false => .keyword .false_
  | .int n => .int n
  | .float x => .float x
  | .char c => .char c
  | .text s => .text s

/-- A finite number as a value of the formula language: an integer if it is whole and below `2 ^ 53` in
magnitude, else a float. -/
def numberValue (x : Binary64) : Literal :=
  match x.whole? with
  | some n => if n < Nat.pow 2 53 then .int (if x.isNegative then -(n : Int) else n) else .float x
  | none => .float x

theorem decimalToken_int {n : Nat} (hfits : Word.fits (if negative then -(n : Int) else n) = true) :
    decimalToken negative (Nat.toDigits 10 n) = .int (if negative then -(n : Int) else n) := by
  have hall : (Nat.toDigits 10 n).all Char.isDigit = true := List.all_eq_true.mpr (allDigits_toDigits n)
  unfold decimalToken
  rw [digitsValue_toDigits]
  dsimp only
  rw [hall, hfits]
  rfl

theorem decimalToken_float {x : Binary64} (hfin : x.isFinite = true) (hm : 0 < x.mantissa) (hnear : x.Near v)
    (hwrites : Writes whole fraction v) (hfraction : fraction ≠ []) :
    decimalToken x.isNegative (pointed whole fraction) = .float x := by
  have hpoint : '.' ∈ pointed whole fraction := by simp [pointed, hfraction]
  have hall : (pointed whole fraction).all Char.isDigit = false :=
    List.all_eq_false.mpr ⟨'.', hpoint, by decide⟩
  have hread := Decimal.read?_pointed x.isNegative hwrites.whole_ne_nil hwrites.whole_digits
    hwrites.fraction_digits
  unfold minus at hread
  unfold decimalToken
  simp only [hall, hread, Bool.false_and, Bool.false_eq_true, if_false, Decimal.toBinary64]
  rw [Binary64.ofDecimal_writes hfin hm hnear hwrites]

theorem cutsItem_toDigits {n : Nat} (hfits : Word.fits (if negative then -(n : Int) else n) = true) :
    CutsItem true (minus negative (Nat.toDigits 10 n)) [.int (if negative then -(n : Int) else n)] := by
  have hne : Nat.toDigits 10 n ≠ [] := List.ne_nil_of_length_pos Nat.length_toDigits_pos
  have htoken : decimalToken negative (pointed (Nat.toDigits 10 n) []) = _ := decimalToken_int hfits
  exact cutsItem_number hne (allDigits_toDigits n) allDigits_nil htoken rfl rfl

theorem fits_of_lt {n : Nat} (hlt : n < Nat.pow 2 53) (negative : Bool) :
    Word.fits (if negative then -(n : Int) else n) = true := by
  have h53 : Nat.pow 2 53 = 9007199254740992 := rfl
  unfold Word.fits Word.least Word.greatest
  cases negative <;> simp <;> omega

theorem whole?_of_mantissa_eq_zero {x : Binary64} (hfin : x.isFinite = true) (hm : x.mantissa = 0) :
    x.whole? = some 0 := by
  simp [Binary64.whole?, hfin, hm]

theorem float_of_not_small {x : Binary64} (h : ∀ n, x.whole? = some n → ¬ n < Nat.pow 2 53) :
    CellNumber.smallWhole? x = none ∧ numberValue x = .float x := by
  unfold CellNumber.smallWhole? numberValue
  cases hwhole : x.whole? with
  | none => exact ⟨rfl, rfl⟩
  | some n => exact ⟨if_neg (h n hwhole), if_neg (h n hwhole)⟩

theorem contains_point (hwhole : AllDigits whole) (negative : Bool) :
    (minus negative (pointed whole fraction)).contains '.' = !fraction.isEmpty := by
  have hnot : whole.contains '.' = false := by
    simpa using fun hmem => absurd (hwhole _ hmem) (by decide)
  cases fraction <;> cases negative <;> simp_all [minus, pointed]

theorem literalOf_writes {x : Binary64} (hfin : x.isFinite = true) (hm : 0 < x.mantissa)
    (hsmall : CellNumber.smallWhole? x = none) :
    ∃ whole fraction v, (CellNumber.literalOf x).toList = minus x.isNegative (pointed whole fraction) ∧
      fraction ≠ [] ∧ Writes whole fraction v ∧ x.Near v := by
  obtain ⟨whole, fraction, v, hplain, hwrites, hnear⟩ := Binary64.plain_writes hfin hm
  have htext : (CellNumber.literalOf x).toList =
      if x.plain.contains '.' then x.plain else x.plain ++ ['.', '0'] := by
    rw [CellNumber.literalOf, hsmall, String.toList_ofList]
  rw [htext, hplain, contains_point hwrites.whole_digits]
  cases fraction with
  | nil =>
    refine ⟨whole, ['0'], v, ?_, by simp, hwrites.point_zero, hnear⟩
    cases x.isNegative <;> simp [minus, pointed]
  | cons d fraction => exact ⟨whole, d :: fraction, v, rfl, by simp, hwrites, hnear⟩

/-- **The literal of a finite number is cut into the number.** -/
theorem cutsItem_literalOf {x : Binary64} (hfin : x.isFinite = true) :
    CutsItem true (CellNumber.literalOf x).toList [(numberValue x).token] := by
  by_cases hsmall : ∃ n, x.whole? = some n ∧ n < Nat.pow 2 53
  · obtain ⟨n, hn, hlt⟩ := hsmall
    have htext : (CellNumber.literalOf x).toList = minus x.isNegative (Nat.toDigits 10 n) := by
      simp only [CellNumber.literalOf, CellNumber.smallWhole?, hn, if_pos hlt, String.toList_ofList]
      rfl
    have hvalue : numberValue x = .int (if x.isNegative then -(n : Int) else n) := by
      simp only [numberValue, hn, if_pos hlt]
    rw [htext, hvalue]
    exact cutsItem_toDigits (fits_of_lt hlt x.isNegative)
  · have hm : 0 < x.mantissa := by
      refine Nat.pos_of_ne_zero fun hm => hsmall ⟨0, whole?_of_mantissa_eq_zero hfin hm, ?_⟩
      exact Nat.pow_pos two_pos
    obtain ⟨hnone, hvalue⟩ := float_of_not_small fun n hn hlt => hsmall ⟨n, hn, hlt⟩
    obtain ⟨whole, fraction, v, htext, hne, hwrites, hnear⟩ := literalOf_writes hfin hm hnone
    rw [htext, hvalue]
    exact cutsItem_number hwrites.whole_ne_nil hwrites.whole_digits hwrites.fraction_digits
      (decimalToken_float hfin hm hnear hwrites hne) rfl rfl

end Worksheet.Formula
