import Mathlib.Data.List.Find
import Worksheet.Proofs.Formula.Cutting
/-!
# Where a lexeme ends

A word, a number or a sign ends before the next blank, and what comes after that blank does not count. Only texts go
on over blanks.

* `BlankHead`: nothing, or a blank first;
* `scanDecimal_append`, `numberLexeme_append`, `signLexeme_append`: one kind of lexeme after the other;
* `opensText`: the three quotes;
* **`nextLexeme_append`**: a lexeme that is no text;
* `nextLexeme_bounds`: it takes at least one character, and none after the blank.
-/

namespace Worksheet.Formula

open Worksheet.Text

/-- What holds of the characters of a text is decided one character after the other, and not for all characters. -/
instance decidableForallChar (p : Char → Prop) [DecidablePred p] (cs : List Char) : Decidable (∀ c ∈ cs, p c) :=
  List.decidableBAll p cs

/-- The characters at the front of which something holds, and what comes after them. -/
theorem exists_span (p : Char → Bool) (v : List Char) :
    ∃ u rest, v = u ++ rest ∧ (∀ c ∈ u, p c = true) ∧ ∀ c ∈ rest.head?, p c = false := by
  refine ⟨v.takeWhile p, v.dropWhile p, List.takeWhile_append_dropWhile.symm, fun c hc => List.mem_takeWhile_imp hc, ?_⟩
  intro c hc
  have hnot := List.head?_dropWhile_not p v
  rwa [hc] at hnot

/-- The characters are none, or start with a blank. -/
def BlankHead (cs : List Char) : Prop :=
  ∀ c ∈ cs.head?, isBlank c = true

variable {cs rest w : List Char} {c : Char}

theorem blankHead_cons (hc : isBlank c = true) (rest : List Char) : BlankHead (c :: rest) := by
  rintro d ⟨⟩
  exact hc

/-! ## Blanks start nothing -/

theorem isNameChar_of_isBlank (hc : isBlank c = true) : isNameChar c = false := by
  by_contra h
  rw [isNameChar_isBlank (Bool.not_eq_false _ ▸ h)] at hc
  cases hc

theorem isDigit_of_isBlank (hc : isBlank c = true) : c.isDigit = false := by
  have h := isNameChar_of_isBlank hc
  simp only [isNameChar, Char.isAlphanum, Bool.or_eq_false_iff] at h
  exact h.1.2

theorem isNameLetter_of_isBlank (hc : isBlank c = true) : isNameLetter c = false := by
  have h := isNameChar_of_isBlank hc
  simp only [isNameChar, Char.isAlphanum, Bool.or_eq_false_iff] at h
  exact h.1.1

theorem ne_of_isBlank (hc : isBlank c = true) {d : Char} (hd : isBlank d = false) : c ≠ d := by
  rintro rfl
  rw [hc] at hd
  cases hd

theorem takeWhile_append_blank {p : Char → Bool} (hp : ∀ c, isBlank c = true → p c = false) (cs : List Char)
    (hrest : BlankHead rest) : (cs ++ rest).takeWhile p = cs.takeWhile p := by
  have hnone : rest.takeWhile p = [] := by
    cases rest with
    | nil => rfl
    | cons c rest => exact List.takeWhile_cons_of_neg (by simp [hp c (hrest c rfl)])
  rw [List.takeWhile_append]
  split_ifs with hall
  · rw [hnone, List.append_nil, List.takeWhile_eq_self_iff.mpr]
    exact List.takeWhile_eq_self_iff.mp ((List.takeWhile_prefix p).eq_of_length hall)
  · rfl

/-! ## Numbers -/

theorem scanDecimal_blank (phase : DecimalPhase) (hrest : BlankHead rest) : scanDecimal phase rest = ([], 0) := by
  cases rest with
  | nil => rfl
  | cons c rest =>
    have hc := hrest c rfl
    have hne : ∀ d, isBlank d = false → (c == d) = false := fun d hd => beq_eq_false_iff_ne.mpr (ne_of_isBlank hc hd)
    simp [scanDecimal, isDigit_of_isBlank hc, hne '_' (by decide), hne '+' (by decide), hne '-' (by decide),
      hne '.' (by decide), hne 'e' (by decide)]

theorem head_append_blank {p : Char → Bool} (hp : ∀ c, isBlank c = true → p c = false) (cs : List Char)
    (hrest : BlankHead rest) : ((cs ++ rest).head?.map p).getD false = (cs.head?.map p).getD false := by
  cases cs with
  | cons c cs => rfl
  | nil =>
    cases rest with
    | nil => rfl
    | cons c rest => simp [hp c (hrest c rfl)]

theorem head_append_ne_blank {d : Char} (hd : isBlank d = false) (cs : List Char) (hrest : BlankHead rest) :
    ((cs ++ rest).head? == some d) = (cs.head? == some d) := by
  cases cs with
  | cons c cs => rfl
  | nil =>
    cases rest with
    | nil => rfl
    | cons c rest => simpa using ne_of_isBlank (hrest c rfl) hd

theorem scanDecimal_append (phase : DecimalPhase) (cs : List Char) (hrest : BlankHead rest) :
    scanDecimal phase (cs ++ rest) = scanDecimal phase cs := by
  induction cs generalizing phase with
  | nil => rw [List.nil_append, scanDecimal_blank phase hrest]; rfl
  | cons c cs ih =>
    have hname : ∀ d : Char, isBlank d = true → (d == '_' || d == '.' || isNameLetter d) = false := fun d hd => by
      simp [isNameLetter_of_isBlank hd, ne_of_isBlank hd (d := '_') (by decide), ne_of_isBlank hd (d := '.') (by decide)]
    rw [List.cons_append, scanDecimal, scanDecimal]
    simp only [ih, head_append_blank (fun d hd => isDigit_of_isBlank hd) cs hrest, head_append_blank hname cs hrest,
      head_append_ne_blank (d := '+') (by decide) cs hrest, head_append_ne_blank (d := '-') (by decide) cs hrest]

theorem scanDecimal_length_le (phase : DecimalPhase) (cs : List Char) : (scanDecimal phase cs).2 ≤ cs.length := by
  induction cs generalizing phase with
  | nil => exact Nat.le_refl 0
  | cons c cs ih =>
    have hkeep : ∀ phase, 1 + (scanDecimal phase cs).2 ≤ cs.length + 1 := fun phase => by
      have := ih phase
      omega
    rw [scanDecimal, List.length_cons]
    simp only
    split_ifs
    all_goals first
      | exact hkeep _
      | exact Nat.le_add_left _ _

theorem scanDecimal_pos (hc : c.isDigit = true) (cs : List Char) : 0 < (scanDecimal {} (c :: cs)).2 := by
  have hunderscore : (c == '_') = false := by
    rw [beq_eq_false_iff_ne]
    rintro rfl
    exact absurd hc (by decide)
  rw [scanDecimal]
  simp only [hunderscore, hc, Bool.false_eq_true, if_false, if_true]
  exact Nat.add_pos_left Nat.one_pos _

/-- The base that the first two characters of a number stand for, if it is not ten. -/
def radix? : List Char → Option Nat
  | '0' :: c :: _ =>
    if c == 'x' || c == 'X' then some 16
    else if c == 'o' || c == 'O' then some 8
    else if c == 'b' || c == 'B' then some 2
    else none
  | _ => none

/-- A digit in a base, or an underscore between digits. -/
def isRadixDigit (r : Nat) (c : Char) : Bool :=
  c == '_' || (if r == 16 then c.isDigit || ('a' ≤ c.toLower && c.toLower ≤ 'f')
    else if r == 8 then '0' ≤ c && c ≤ '7' else c == '0' || c == '1')

/-- The lexeme of a number in a base other than ten. -/
def radixLexeme (negative : Bool) (r : Nat) (cs : List Char) : Lexeme :=
  let run := (cs.drop 2).takeWhile (isRadixDigit r)
  match radixValue? r (run.filter (· != '_')) with
  | some n =>
    if n < Word.size then ⟨.int (Word.ofNat (if negative then Word.size - n else n)), 2 + run.length, 0⟩
    else ⟨.fault (.badNumber (String.ofList (cs.take (2 + run.length)))), 2 + run.length, 0⟩
  | none => ⟨.fault (.badNumber (String.ofList (cs.take (2 + run.length)))), 2 + run.length, 0⟩

theorem numberLexeme_eq (negative : Bool) (cs : List Char) :
    numberLexeme negative cs = match radix? cs with
      | some r => radixLexeme negative r cs
      | none => ⟨decimalToken negative (scanDecimal {} cs).1, (scanDecimal {} cs).2, 0⟩ :=
  rfl

theorem radix?_some {r : Nat} (h : radix? cs = some r) : ∃ c more, cs = '0' :: c :: more := by
  unfold radix? at h
  split at h
  · exact ⟨_, _, rfl⟩
  · cases h

theorem radix?_append (hcs : cs ≠ []) (hrest : BlankHead rest) : radix? (cs ++ rest) = radix? cs := by
  obtain ⟨c, cs, rfl⟩ := List.exists_cons_of_ne_nil hcs
  cases cs with
  | cons d cs =>
    by_cases hc : c = '0'
    · subst hc
      rfl
    · simp [radix?, hc]
  | nil =>
    cases rest with
    | nil => rfl
    | cons d rest =>
      have hd := fun e (he : isBlank e = false) => beq_eq_false_iff_ne.mpr (ne_of_isBlank (hrest d rfl) he)
      by_cases hc : c = '0'
      · subst hc
        simp [radix?, hd 'x' (by decide), hd 'X' (by decide), hd 'o' (by decide), hd 'O' (by decide),
          hd 'b' (by decide), hd 'B' (by decide)]
      · simp [radix?, hc]

theorem isRadixDigit_of_isBlank (r : Nat) (hc : isBlank c = true) : isRadixDigit r c = false := by
  have hdigit := isDigit_of_isBlank hc
  have halpha : ¬(65 ≤ c.toNat ∧ c.toNat ≤ 90 ∨ 97 ≤ c.toNat ∧ c.toNat ≤ 122) := fun h =>
    Bool.eq_false_iff.mp (isNameLetter_of_isBlank hc) (isAlpha_iff_toNat.mpr h)
  have hlower : c.toLower = c := dif_neg <| by
    rintro ⟨hlow, hhigh⟩
    exact halpha (.inl ⟨UInt32.le_iff_toNat_le.mp hlow, UInt32.le_iff_toNat_le.mp hhigh⟩)
  have hletter : ('a' ≤ c && c ≤ 'f') = false := by
    simp only [Bool.and_eq_false_iff, decide_eq_false_iff_not, ← not_and_or]
    rintro ⟨hlow, hhigh⟩
    exact halpha (.inr ⟨UInt32.le_iff_toNat_le.mp hlow, (UInt32.le_iff_toNat_le.mp hhigh).trans (by decide)⟩)
  have hoctal : ('0' ≤ c && c ≤ '7') = false := by
    simp only [Char.isDigit, Char.le_def, ge_iff_le, Bool.and_eq_false_iff, decide_eq_false_iff_not] at hdigit ⊢
    grind
  have hne : ∀ d, isBlank d = false → (c == d) = false := fun d hd => beq_eq_false_iff_ne.mpr (ne_of_isBlank hc hd)
  simp [isRadixDigit, hdigit, hlower, hletter, hoctal, hne '_' (by decide), hne '0' (by decide), hne '1' (by decide)]

theorem radixLexeme_append (negative : Bool) (r : Nat) {d : Char} (hrest : BlankHead rest) :
    radixLexeme negative r ('0' :: d :: cs ++ rest) = radixLexeme negative r ('0' :: d :: cs) := by
  have hrun : (cs ++ rest).takeWhile (isRadixDigit r) = cs.takeWhile (isRadixDigit r) :=
    takeWhile_append_blank (fun c hc => isRadixDigit_of_isBlank r hc) cs hrest
  have htake : (cs ++ rest).take (cs.takeWhile (isRadixDigit r)).length = cs.take (cs.takeWhile (isRadixDigit r)).length :=
    List.take_append_of_le_length (List.takeWhile_prefix _).length_le
  simp only [radixLexeme, List.cons_append, List.drop_succ_cons, List.drop_zero, hrun, Nat.add_comm 2, List.take_succ_cons,
    htake]

theorem numberLexeme_append (negative : Bool) (hcs : cs ≠ []) (hrest : BlankHead rest) :
    numberLexeme negative (cs ++ rest) = numberLexeme negative cs := by
  rw [numberLexeme_eq, numberLexeme_eq, radix?_append hcs hrest, scanDecimal_append {} cs hrest]
  cases h : radix? cs with
  | none => rfl
  | some r =>
    obtain ⟨d, more, rfl⟩ := radix?_some h
    exact radixLexeme_append negative r hrest

theorem numberLexeme_bounds (negative : Bool) (hc : c.isDigit = true) (cs : List Char) :
    0 < (numberLexeme negative (c :: cs)).length ∧ (numberLexeme negative (c :: cs)).length ≤ (c :: cs).length := by
  rw [numberLexeme_eq]
  cases h : radix? (c :: cs) with
  | none => exact ⟨scanDecimal_pos hc cs, scanDecimal_length_le {} (c :: cs)⟩
  | some r =>
    obtain ⟨d, more, heq⟩ := radix?_some h
    have hlength : (radixLexeme negative r (c :: cs)).length = 2 + (more.takeWhile (isRadixDigit r)).length := by
      rw [heq]
      simp only [radixLexeme, List.drop_succ_cons, List.drop_zero]
      split
      · split_ifs <;> rfl
      · rfl
    have hrun : (more.takeWhile (isRadixDigit r)).length ≤ more.length := (List.takeWhile_prefix _).length_le
    rw [heq] at hlength ⊢
    simp only [hlength, List.length_cons]
    omega

/-! ## Signs -/

theorem isPrefixOf_append_blank (hw : ∀ c ∈ w, isBlank c = false) (cs : List Char) (hrest : BlankHead rest) :
    w.isPrefixOf (cs ++ rest) = w.isPrefixOf cs := by
  induction w generalizing cs with
  | nil => simp
  | cons c w ih =>
    rw [List.forall_mem_cons] at hw
    cases cs with
    | cons d cs => rw [List.cons_append, List.isPrefixOf_cons_cons, List.isPrefixOf_cons_cons, ih hw.2]
    | nil =>
      cases rest with
      | nil => rfl
      | cons d rest =>
        have hne : (c == d) = false := beq_eq_false_iff_ne.mpr (Ne.symm (ne_of_isBlank (hrest d rfl) hw.1))
        rw [List.nil_append, List.isPrefixOf_cons_cons, hne]
        rfl

theorem signs_solid : ∀ s ∈ signs, (∀ c ∈ s.1.toList, isBlank c = false) ∧ 0 < s.1.toList.length ∧
    s.1.length = s.1.toList.length := by
  decide +kernel

theorem signLexeme_append (hcs : cs ≠ []) (hrest : BlankHead rest) : signLexeme (cs ++ rest) = signLexeme cs := by
  have hfind : signs.find? (·.1.toList.isPrefixOf (cs ++ rest)) = signs.find? (·.1.toList.isPrefixOf cs) :=
    List.find?_congr fun s hs => isPrefixOf_append_blank (signs_solid s hs).1 cs hrest
  have hhead : (cs ++ rest).headD ' ' = cs.headD ' ' := by
    obtain ⟨c, cs, rfl⟩ := List.exists_cons_of_ne_nil hcs
    rfl
  rw [signLexeme, signLexeme, hfind, hhead]

theorem signLexeme_bounds (hcs : cs ≠ []) : 0 < (signLexeme cs).length ∧ (signLexeme cs).length ≤ cs.length := by
  unfold signLexeme
  split
  · rename_i written token hfind
    obtain ⟨-, hpos, hlength⟩ := signs_solid _ (List.mem_of_find?_eq_some hfind)
    have hprefix : written.toList <+: cs := by simpa using List.find?_some hfind
    simp only [hlength]
    exact ⟨hpos, hprefix.length_le⟩
  · exact ⟨Nat.one_pos, List.length_pos_of_ne_nil hcs⟩

/-! ## Lexemes -/

/-- The three quotes. -/
def opensText (c : Char) : Bool :=
  c == '\"' || c == '\'' || c == backQuote

/-- A lexeme that is neither word nor text. -/
def markLexeme (operand : Bool) (c : Char) (cs : List Char) : Lexeme :=
  if c == '-' && operand && (cs.head?.map Char.isDigit).getD false then
    ⟨(numberLexeme true cs).token, 1 + (numberLexeme true cs).length, 0⟩
  else
    match (signLexeme (c :: cs)).token with
    | .operator .sub =>
      ⟨if operand then .negative else (signLexeme (c :: cs)).token, (signLexeme (c :: cs)).length, 0⟩
    | .operator .add =>
      ⟨if operand then .positive else (signLexeme (c :: cs)).token, (signLexeme (c :: cs)).length, 0⟩
    | _ => signLexeme (c :: cs)

theorem nextLexeme_eq (hquote : opensText c = false) (operand : Bool) (column : Nat) (cs : List Char) :
    nextLexeme operand column (c :: cs) =
      if isNameLetter c || c == '_' then wordLexeme (c :: cs)
      else if c.isDigit then numberLexeme false (c :: cs)
      else markLexeme operand c cs := by
  simp only [opensText, Bool.or_eq_false_iff] at hquote
  simp only [nextLexeme, hquote.1.1, hquote.1.2, hquote.2, Bool.false_eq_true, if_false]
  rfl

theorem markLexeme_append (operand : Bool) (c : Char) (cs : List Char) (hrest : BlankHead rest) :
    markLexeme operand c (cs ++ rest) = markLexeme operand c cs := by
  have hdigit := head_append_blank (fun d hd => isDigit_of_isBlank hd) cs hrest
  have hsign : signLexeme (c :: (cs ++ rest)) = signLexeme (c :: cs) := signLexeme_append (List.cons_ne_nil c cs) hrest
  unfold markLexeme
  rw [hdigit, hsign]
  cases cs with
  | nil => simp
  | cons d cs => rw [numberLexeme_append true (List.cons_ne_nil d cs) hrest]

/-- **A lexeme that is no text does not depend on what comes after the next blank**, and not on its place. -/
theorem nextLexeme_append (hquote : opensText c = false) (operand : Bool) (column column' : Nat) (cs : List Char)
    (hrest : BlankHead rest) :
    nextLexeme operand column (c :: (cs ++ rest)) = nextLexeme operand column' (c :: cs) := by
  have hword : wordLexeme (c :: (cs ++ rest)) = wordLexeme (c :: cs) := by
    have htake : (c :: cs ++ rest).takeWhile isNameChar = (c :: cs).takeWhile isNameChar :=
      takeWhile_append_blank (fun d hd => isNameChar_of_isBlank hd) (c :: cs) hrest
    rw [wordLexeme, wordLexeme, ← List.cons_append, htake]
  have hnumber : numberLexeme false (c :: (cs ++ rest)) = numberLexeme false (c :: cs) :=
    numberLexeme_append false (List.cons_ne_nil c cs) hrest
  rw [nextLexeme_eq hquote, nextLexeme_eq hquote, hword, hnumber, markLexeme_append operand c cs hrest]

theorem markLexeme_bounds (operand : Bool) (c : Char) (cs : List Char) :
    0 < (markLexeme operand c cs).length ∧ (markLexeme operand c cs).length ≤ (c :: cs).length := by
  have hsign := signLexeme_bounds (List.cons_ne_nil c cs)
  unfold markLexeme
  split
  · rename_i h
    rw [Bool.and_eq_true] at h
    cases cs with
    | nil => exact absurd h.2 (by simp)
    | cons d cs =>
      have hnumber := numberLexeme_bounds true (by simpa using h.2) cs
      simp only [List.length_cons] at hnumber ⊢
      omega
  · split <;> exact hsign

theorem nextLexeme_bounds (hquote : opensText c = false) (operand : Bool) (column : Nat) (cs : List Char) :
    0 < (nextLexeme operand column (c :: cs)).length ∧
      (nextLexeme operand column (c :: cs)).length ≤ (c :: cs).length := by
  rw [nextLexeme_eq hquote]
  split_ifs with hletter hdigit
  · have hname : isNameChar c = true := by
      rw [isNameLetter, Bool.or_eq_true] at hletter
      rw [isNameChar, Char.isAlphanum, Bool.or_eq_true, Bool.or_eq_true]
      exact hletter.imp_left .inl
    have htake : (c :: cs).takeWhile isNameChar = c :: cs.takeWhile isNameChar := List.takeWhile_cons_of_pos hname
    have hle := (List.takeWhile_prefix isNameChar (l := cs)).length_le
    simp only [wordLexeme, htake, List.length_cons]
    omega
  · exact numberLexeme_bounds false hdigit cs
  · exact markLexeme_bounds operand c cs

end Worksheet.Formula
