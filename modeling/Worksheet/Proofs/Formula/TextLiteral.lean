import Mathlib.Data.List.TakeWhile
import Mathlib.Tactic.SplitIfs
import Worksheet.Formula.Preamble
import Worksheet.Formula.Token.Lexer
/-!
# Texts as literals

The lexer reads the literal of a text as that text, whatever characters the text has.

* `readHex_control`: the four digits of an escaped control character;
* `scanQuoted_literalChar`: one character of a literal gives one character of the text;
* **`quotedLexeme_textLiteral`**: the literal as a whole;
* `newline_not_mem_textLiteral`: a literal stays on one line.
-/

namespace Worksheet.Formula

open Worksheet.Text

/-! ## One character -/

/-- A digit of a number in base 16, in either case. -/
def isHexDigit (c : Char) : Bool :=
  c.isDigit || ('a' ≤ c.toLower && c.toLower ≤ 'f')

theorem hexPadded_control : ∀ n < 160, (hexPadded 4 n).length = 4 ∧ (hexPadded 4 n).all isHexDigit = true ∧
    radixValue? 16 (hexPadded 4 n) = some n := by
  decide +kernel

theorem toNat_lt_of_isControl {c : Char} (h : isControl c = true) : c.toNat < 160 := by
  simp only [isControl, Bool.or_eq_true, Bool.and_eq_true, decide_eq_true_eq] at h
  omega

theorem readHex_control {n : Nat} (hn : n < 160) (rest : List Char) :
    readHex 4 (hexPadded 4 n ++ rest) = .ok n := by
  obtain ⟨hlength, hall, hvalue⟩ := hexPadded_control n hn
  have htake : (hexPadded 4 n ++ rest).take 4 = hexPadded 4 n := List.take_left' hlength
  have hgood : (hexPadded 4 n).takeWhile isHexDigit = hexPadded 4 n :=
    List.takeWhile_eq_self_iff.mpr (List.all_eq_true.mp hall)
  unfold isHexDigit at hgood
  rw [readHex, htake]
  simp only [hgood, hlength, hvalue, if_true, Option.getD_some]

theorem charOf?_toNat (c : Char) : charOf? c.toNat = some c := by
  rw [charOf?, if_pos (show c.toNat.isValidChar from c.valid), Char.ofNat_toNat]

theorem scanQuoted_literalChar (c : Char) (margin fuel : Nat) (rest : List Char) :
    scanQuoted '\"' margin (fuel + 1) (literalChar c ++ rest) =
      (scanQuoted '\"' margin fuel rest).before [c] (literalChar c).length := by
  unfold literalChar
  split_ifs with hback hquote hline hreturn htab hcontrol
  · subst hback; simp [scanQuoted]
  · subst hquote; simp [scanQuoted]
  · subst hline; simp [scanQuoted]
  · subst hreturn; simp [scanQuoted]
  · subst htab; simp [scanQuoted]
  · have hn := toNat_lt_of_isControl hcontrol
    have hlength := (hexPadded_control c.toNat hn).1
    simp only [List.cons_append, List.nil_append, scanQuoted, List.length_cons, hlength]
    simp [readHex_control hn, charOf?_toNat, List.drop_left' hlength]
  · cases rest <;> simp [scanQuoted, hback, hquote, hline, hreturn]

/-! ## The literal -/

theorem scanQuoted_literal (cs : List Char) (margin : Nat) {fuel : Nat} (hfuel : cs.length < fuel)
    {rest : List Char} (hrest : rest.head? ≠ some '\"') :
    scanQuoted '\"' margin fuel (cs.flatMap literalChar ++ '\"' :: rest) =
      ⟨cs, (cs.flatMap literalChar).length + 1, .closed⟩ := by
  induction cs generalizing fuel with
  | nil =>
    obtain ⟨fuel, rfl⟩ := Nat.exists_eq_add_of_lt hfuel
    cases rest with
    | nil => simp [scanQuoted]
    | cons d more =>
      have hd : ¬ d = '\"' := fun h => hrest (by rw [h]; rfl)
      simp [scanQuoted, hd]
  | cons c cs ih =>
    obtain ⟨fuel, rfl⟩ : ∃ n, fuel = n + 1 := ⟨fuel - 1, by omega⟩
    rw [List.flatMap_cons, List.append_assoc, scanQuoted_literalChar, ih (by simpa using hfuel)]
    simp only [TextScan.before, List.singleton_append, List.length_append, Nat.add_assoc]

theorem toList_textLiteral (s : String) :
    (textLiteral s).toList = '\"' :: (s.toList.flatMap literalChar ++ ['\"']) := by
  rw [textLiteral, String.toList_ofList, List.append_assoc, List.singleton_append]

theorem length_le_literal (cs : List Char) : cs.length ≤ (cs.flatMap literalChar).length := by
  induction cs with
  | nil => exact Nat.le_refl 0
  | cons c cs ih =>
    have hc : 1 ≤ (literalChar c).length := by
      unfold literalChar
      split_ifs <;> simp
    rw [List.flatMap_cons, List.length_append, List.length_cons]
    omega

/-- **The lexer reads the literal of a text as the text.** -/
theorem quotedLexeme_textLiteral (s : String) (column : Nat) {rest : List Char}
    (hrest : rest.head? ≠ some '\"') :
    quotedLexeme column ((textLiteral s).toList ++ rest) =
      ⟨.text s, (textLiteral s).toList.length, 0⟩ := by
  have hfuel : s.toList.length < (s.toList.flatMap literalChar ++ '\"' :: rest).length + 1 := by
    have := length_le_literal s.toList
    rw [List.length_append]
    omega
  have hbody : ((textLiteral s).toList ++ rest).drop 1 = s.toList.flatMap literalChar ++ '\"' :: rest := by
    rw [toList_textLiteral]
    simp
  rw [quotedLexeme, hbody, scanQuoted_literal _ _ hfuel hrest, toList_textLiteral]
  simp [Nat.add_comm]

/-! ## Lines -/

theorem newline_not_mem_literalChar (c : Char) : '\n' ∉ literalChar c := by
  unfold literalChar
  split_ifs with hback hquote hline hreturn htab hcontrol
  · decide
  · decide
  · decide
  · decide
  · decide
  · intro h
    have hall := (hexPadded_control c.toNat (toNat_lt_of_isControl hcontrol)).2.1
    rcases List.mem_append.mp h with h | h
    · exact absurd h (by decide)
    · exact absurd (List.all_eq_true.mp hall _ h) (by decide)
  · intro h
    exact hline (List.mem_singleton.mp h).symm

theorem newline_not_mem_textLiteral (s : String) : '\n' ∉ (textLiteral s).toList := by
  rw [toList_textLiteral, List.mem_cons, List.mem_append, List.mem_flatMap]
  rintro (h | ⟨c, -, h⟩ | h)
  · exact absurd h (by decide)
  · exact newline_not_mem_literalChar c h
  · exact absurd h (by decide)

end Worksheet.Formula
