import Mathlib.Tactic.SplitIfs
import Worksheet.Json.Printer
import Worksheet.Json.Reader
/-!
# Texts in JSON

A text that was written between quotes is read back character by character. A control character is written by its
number, and none of these is half of a surrogate pair.

* `pieceOf`: what a written character is read as;
* **`scanText_escaped`**, `joinPieces_pieces`: the pieces of a written text, and the characters of the pieces.
-/

namespace Worksheet.Json

open Worksheet.Text

/-! ## One character -/

/-- The character is written by a letter of its own, or as it is. -/
def hasLetter (c : Char) : Prop :=
  32 ≤ c.toNat ∨ c ∈ ['\n', '\r', '\t', Char.ofNat 8, Char.ofNat 12]

instance : DecidablePred hasLetter := fun _ => inferInstanceAs (Decidable (_ ∨ _))

/-- What a written character is read as. -/
def pieceOf (c : Char) : Piece :=
  if hasLetter c then .char c else .unit c.toNat

theorem hexPadded_below : ∀ n < 32, hexPadded 4 n = ['0', '0', Nat.digitChar (n / 16), Nat.digitChar (n % 16)] ∧
    unit? '0' '0' (Nat.digitChar (n / 16)) (Nat.digitChar (n % 16)) = some n := by
  decide

theorem bind_pieces (p : Piece) (r : Option (List Piece × List Char)) :
    (do
      let (pieces, rest) ← r
      some (p :: pieces, rest)) = r.map fun r => (p :: r.1, r.2) := by
  cases r <;> rfl

theorem scanText_letter {e c : Char} (hc : shortEscape? e = some c) (he : e ≠ 'u') (rest : List Char) :
    scanText ('\\' :: e :: rest) = (scanText rest).map fun r => (.char c :: r.1, r.2) := by
  rw [scanText, hc]
  · exact bind_pieces _ _
  · intro a b c d rest hu
    exact absurd hu he

theorem scanText_char (c : Char) (rest : List Char) :
    scanText (escaped c ++ rest) = (scanText rest).map fun r => (pieceOf c :: r.1, r.2) := by
  unfold escaped
  split_ifs with hquote hback h8 h12 hline hreturn htab hbelow
  · subst hquote
    exact scanText_letter rfl (by decide) rest
  · subst hback
    exact scanText_letter rfl (by decide) rest
  · subst h8
    exact scanText_letter rfl (by decide) rest
  · subst h12
    exact scanText_letter rfl (by decide) rest
  · subst hline
    exact scanText_letter rfl (by decide) rest
  · subst hreturn
    exact scanText_letter rfl (by decide) rest
  · subst htab
    exact scanText_letter rfl (by decide) rest
  · obtain ⟨hdigits, hunit⟩ := hexPadded_below c.toNat hbelow
    have hpiece : pieceOf c = .unit c.toNat := if_neg (by simp [hasLetter, *])
    rw [hdigits, hpiece]
    simp only [List.cons_append, List.nil_append, scanText, hunit]
    exact bind_pieces _ _
  · have hpiece : pieceOf c = .char c := if_pos (.inl (by omega))
    rw [hpiece, List.singleton_append, scanText, if_neg (by simp [hback, hbelow])]
    · exact bind_pieces _ _
    · exact hquote
    · exact fun a b c d rest h => absurd h hback
    · exact fun e rest h => absurd h hback

/-! ## Whole texts -/

/-- **A written text is read piece by piece up to its quote.** -/
theorem scanText_escaped (cs rest : List Char) :
    scanText (cs.flatMap escaped ++ '\"' :: rest) = some (cs.map pieceOf, rest) := by
  induction cs with
  | nil => rfl
  | cons c cs ih =>
    rw [List.flatMap_cons, List.append_assoc, scanText_char, ih]
    rfl

theorem joinPieces_unit {n : Nat} (hhigh : isHighUnit n = false) (hlow : isLowUnit n = false) (pieces : List Piece) :
    joinPieces (.unit n :: pieces) = (joinPieces pieces).map (Char.ofNat n :: ·) := by
  match pieces with
  | [] => simp [joinPieces, hhigh, hlow]
  | .char c :: rest => simp [joinPieces, hhigh, hlow]
  | .unit m :: rest =>
    rw [joinPieces]
    simp [hhigh, hlow]

theorem joinPieces_cons (c : Char) (pieces : List Piece) :
    joinPieces (pieceOf c :: pieces) = (joinPieces pieces).map (c :: ·) := by
  unfold pieceOf
  split_ifs with h
  · rfl
  · have hbelow : c.toNat < 32 := by
      rw [hasLetter, not_or] at h
      omega
    have hhigh : isHighUnit c.toNat = false := by
      simp only [isHighUnit, Bool.and_eq_false_iff, decide_eq_false_iff_not]
      omega
    have hlow : isLowUnit c.toNat = false := by
      simp only [isLowUnit, Bool.and_eq_false_iff, decide_eq_false_iff_not]
      omega
    rw [joinPieces_unit hhigh hlow, Char.ofNat_toNat]

theorem joinPieces_pieces (cs : List Char) : joinPieces (cs.map pieceOf) = some cs := by
  induction cs with
  | nil => rfl
  | cons c cs ih => rw [List.map_cons, joinPieces_cons, ih, Option.map_some]

end Worksheet.Json
