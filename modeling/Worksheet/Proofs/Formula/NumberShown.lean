import Worksheet.Formula.Interpreter
import Worksheet.Proofs.Decimal.Canonical
import Worksheet.Proofs.Formula.Datum
/-!
# Numbers that formulas show

A formula gets the number in a cell as a literal, and what it makes of the literal is shown in another cell.

* `lex_literal`, `parse_number`: a literal by itself is a script;
* `runScript_literal`: what this script gives;
* `cellText_numberValue`: how a number is shown that is an integer or a float of the formula language;
* **`literal_shown`**: the text that comes of the literal, next to the canonical text of the cell.
-/

namespace Worksheet.Formula

open Worksheet.Text

/-! ## Scripts of one literal -/

theorem lex_literal {w : List Char} {t : Token} (h : CutsItem true w [t]) :
    ∃ place finish, lex w = [⟨t, place⟩, ⟨.finish, finish⟩] := by
  obtain ⟨located, hline, hcut⟩ := h.cut Place.start
  obtain ⟨fuel, -, hlex⟩ := hcut (w.length + 1) [] (fun _ hc => nomatch hc) (by simp)
  obtain ⟨token, rfl, htoken⟩ := List.map_eq_singleton_iff.mp hline
  have hend : lexFrom fuel ⟨Place.start.after w, false, []⟩ false [] = [⟨.finish, Place.start.after w⟩] := by
    cases fuel <;> rfl
  rw [List.append_nil, hend] at hlex
  exact ⟨token.place, _, by rw [lex, hlex, ← show token.token = t from congrArg Prod.fst htoken]; rfl⟩

theorem parse_number {x : Binary64} (hfin : x.isFinite = true) :
    ∃ place, parse (CellNumber.literalOf x).toList = .ok ⟨[], [.expr (.literal (numberValue x) place)]⟩ := by
  obtain ⟨place, finish, hlex⟩ := lex_literal (cutsItem_literalOf hfin)
  refine ⟨place, ?_⟩
  rw [parse, hlex]
  unfold numberValue
  repeat' split
  all_goals rfl

theorem runScript_literal (l : Literal) (place : Place) {steps : Nat} (hsteps : 2 < steps) :
    runScript steps ⟨[], [.expr (.literal l place)]⟩ = .ok (.ofLiteral l) := by
  obtain ⟨steps, rfl⟩ : ∃ k, steps = k + 3 := ⟨steps - 3, by omega⟩
  rfl

/-! ## Texts -/

theorem toString_signed (negative : Bool) (n : Nat) (h : negative = true → 0 < n) :
    toString (if negative then -(n : Int) else n) = String.ofList (minus negative (Nat.toDigits 10 n)) := by
  rw [← String.toList_inj, String.toList_ofList]
  cases negative with
  | false =>
    have hrepr : toString ((n : Int)) = n.repr := rfl
    rw [if_neg (by decide), hrepr, Nat.toList_repr]
    rfl
  | true =>
    obtain ⟨n, rfl⟩ := Nat.exists_eq_succ_of_ne_zero (h rfl).ne'
    have hrepr : toString (-((n + 1 : Nat) : Int)) = "-" ++ (n + 1).repr := rfl
    rw [if_pos rfl, hrepr, String.toList_append, Nat.toList_repr]
    rfl

theorem isZero_iff {x : Binary64} {n : Nat} (hfin : x.isFinite = true) (h : x.whole? = some n) :
    x.isZero = true ↔ n = 0 := by
  have hmagnitude := Binary64.magnitude_of_whole? h
  constructor
  · intro hzero
    have hm : x.mantissa = 0 := by simpa [Binary64.isZero, hfin] using hzero
    exact Option.some.inj (h.symm.trans (whole?_of_mantissa_eq_zero hfin hm))
  · rintro rfl
    have hm : x.mantissa = 0 := by simpa [Binary64.magnitude, zpow_ne_zero] using hmagnitude
    simp [Binary64.isZero, hfin, hm]

/-- **A number is shown in its canonical text**, except that a negative zero loses its sign: as an integer it
has none. -/
theorem cellText_numberValue {x : Binary64} (hfin : x.isFinite = true) :
    (Value.ofLiteral (numberValue x)).cellText =
      if x.isNegative = true ∧ x.isZero = true then "0" else CellNumber.text x := by
  by_cases hsmall : ∃ n, x.whole? = some n ∧ n < Nat.pow 2 53
  · obtain ⟨n, hn, hlt⟩ := hsmall
    have hvalue : numberValue x = .int (if x.isNegative then -(n : Int) else n) := by
      simp only [numberValue, hn, if_pos hlt]
    have htext : CellNumber.text x = String.ofList (minus x.isNegative (Nat.toDigits 10 n)) := by
      obtain ⟨hnan, hinfinite⟩ := CellNumber.not_special hfin
      simp only [CellNumber.text, hnan, hinfinite, CellNumber.smallWhole?, hn, if_pos hlt, Bool.false_eq_true,
        if_false]
      rfl
    have hshown : (Value.ofLiteral (numberValue x)).cellText = toString (if x.isNegative then -(n : Int) else n) := by
      rw [hvalue]
      rfl
    rw [hshown]
    split_ifs with hnegative hzero hzero
    · obtain rfl := (isZero_iff hfin hn).mp hzero.2
      rfl
    · rw [htext, ← toString_signed, if_pos hnegative]
      exact fun _ => Nat.pos_of_ne_zero fun h => hzero ⟨hnegative, (isZero_iff hfin hn).mpr h⟩
    · exact absurd hzero.1 hnegative
    · rw [htext, ← toString_signed, if_neg hnegative]
      exact fun h => absurd h hnegative
  · obtain ⟨-, hvalue⟩ := float_of_not_small fun n hn hlt => hsmall ⟨n, hn, hlt⟩
    have hzero : x.isZero = false := by
      rw [Bool.eq_false_iff]
      intro hzero
      have hm : x.mantissa = 0 := by simpa [Binary64.isZero, hfin] using hzero
      exact hsmall ⟨0, whole?_of_mantissa_eq_zero hfin hm, Nat.pow_pos two_pos⟩
    rw [hvalue, if_neg (by simp [hzero])]
    rfl

/-- **What a formula makes of the number in a cell.** Every text that is read as a number has a literal. This literal
is a script that gives a value, and the value is shown in the canonical text of the cell, unless the number is
a negative zero: then it is shown without the sign that the canonical text has. -/
theorem literal_shown (text : String) (x : Binary64) (h : CellNumber.read? text = some x) :
    ∃ literal canonical script v, CellNumber.literal? text = some literal ∧
      CellNumber.canonical? text = some canonical ∧ parse literal.toList = .ok script ∧
      (∀ steps, 2 < steps → runScript steps script = .ok v) ∧
      (¬ (x.isNegative = true ∧ x.isZero = true) → v.cellText = canonical) ∧
      (x.isNegative = true ∧ x.isZero = true → v.cellText = "0" ∧ canonical = "-0") := by
  have hfin := CellNumber.isFinite_of_read? h
  obtain ⟨place, hparse⟩ := parse_number hfin
  have hshown := cellText_numberValue hfin
  refine ⟨CellNumber.literalOf x, CellNumber.text x, _, _, ?_, CellNumber.canonical?_of_read? h, hparse,
    fun steps => runScript_literal (numberValue x) place, fun hzero => ?_, fun hzero => ⟨?_, ?_⟩⟩
  · rw [CellNumber.literal?, h, Option.map_some]
  · rw [hshown, if_neg hzero]
  · rw [hshown, if_pos hzero]
  · have hm : x.mantissa = 0 := by simpa [Binary64.isZero, hfin] using hzero.2
    obtain ⟨hnan, hinfinite⟩ := CellNumber.not_special hfin
    have hpos : 0 < Nat.pow 2 53 := Nat.pow_pos two_pos
    simp only [CellNumber.text, hnan, hinfinite, CellNumber.smallWhole?, whole?_of_mantissa_eq_zero hfin hm,
      if_pos hpos, Binary64.withSign, hzero.1, Bool.false_eq_true, if_false, if_true]
    rfl

/-- A number in a notation of its own, which is neither small nor whole. -/
theorem literal_shown_padded : ∃ x, CellNumber.read? " 07.50 " = some x ∧
    ∃ literal script v, CellNumber.literal? " 07.50 " = some literal ∧ parse literal.toList = .ok script ∧
      runScript 100 script = .ok v ∧ v.cellText = "7.5" := by
  obtain ⟨x, hx⟩ : ∃ x, CellNumber.read? " 07.50 " = some x := ⟨_, rfl⟩
  obtain ⟨literal, canonical, script, v, hliteral, hcanonical, hparse, hrun, hshown, -⟩ := literal_shown _ x hx
  refine ⟨x, hx, literal, script, v, hliteral, hparse, hrun 100 (by decide), ?_⟩
  have hpositive : x.isNegative = false := by
    have hread : CellNumber.read? " 07.50 " = some ⟨0x401E000000000000⟩ := by decide +kernel
    obtain rfl := Option.some.inj (hx.symm.trans hread)
    decide
  have htext : CellNumber.canonical? " 07.50 " = some "7.5" := by decide +kernel
  rw [hshown (by simp [hpositive]), ← Option.some_inj, ← hcanonical, htext]

/-- The canonical text of a negative zero has a sign, and what a formula shows for it has none. -/
theorem literal_shown_negative_zero : ¬ ∀ text x, CellNumber.read? text = some x →
    ∃ literal canonical script v, CellNumber.literal? text = some literal ∧
      CellNumber.canonical? text = some canonical ∧ parse literal.toList = .ok script ∧
      (∀ steps, 2 < steps → runScript steps script = .ok v) ∧ v.cellText = canonical := by
  intro h
  have hread : CellNumber.read? "-0" = some ⟨0x8000000000000000⟩ := by decide +kernel
  obtain ⟨literal, canonical, script, v, hliteral, hcanonical, hparse, hrun, hshown⟩ := h _ _ hread
  have htext : CellNumber.canonical? "-0" = some "-0" := by decide +kernel
  have hdigits : CellNumber.literal? "-0" = some "-0" := by decide +kernel
  obtain rfl := Option.some.inj (hliteral.symm.trans hdigits)
  obtain rfl := Option.some.inj (hcanonical.symm.trans htext)
  have hscript : parse "-0".toList = .ok ⟨[], [.expr (.literal (.int 0) ⟨1, 1⟩)]⟩ := rfl
  obtain rfl := Except.ok.inj (hparse.symm.trans hscript)
  have hzero : runScript 3 ⟨[], [.expr (.literal (.int 0) ⟨1, 1⟩)]⟩ = .ok (.int 0) := rfl
  obtain rfl := Except.ok.inj ((hrun 3 (by decide)).symm.trans hzero)
  exact absurd hshown (by decide)

end Worksheet.Formula
