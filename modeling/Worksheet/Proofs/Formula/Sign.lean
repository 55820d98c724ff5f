import Worksheet.Proofs.Formula.Spelling
/-!
# Tokens where an operand is due

The first token of a text may be an operator or a sign. It is a sign where an operand is due, and a minus right before
digits belongs to the number.

* `scanDecimal_take`, `numberLexeme_take`: a number is read again from its own characters;
* `asOperand`: the tokens of a text where an operand is due, by its tokens where none is;
* **`Lexes.asOperand`**: they are what the lexer reads there.
-/

namespace Worksheet.Formula

open Worksheet.Text

variable {cs v w rest : List Char} {c : Char} {st : LexState} {ts : List Spelled}

/-! ## Numbers -/

theorem scanDecimal_head_pos {phase : DecimalPhase} (hc : c.isDigit = true ∨ phase.sign = true ∧ (c = '+' ∨ c = '-')) :
    0 < (scanDecimal phase (c :: cs)).2 := by
  have hpos : ∀ n, 0 < 1 + n := fun n => Nat.add_pos_left Nat.one_pos n
  rw [scanDecimal]
  by_cases hunderscore : (c == '_') = true
  · simp only [hunderscore, if_true]
    exact hpos _
  by_cases hdigit : c.isDigit = true
  · simp only [hunderscore, hdigit, if_true]
    exact hpos _
  · obtain ⟨hsign, hc⟩ := hc.resolve_left hdigit
    have hc' : (phase.sign && (c == '+' || c == '-')) = true := by simpa [hsign] using hc
    simp only [hunderscore, hdigit, hc', if_true]
    exact hpos _

theorem scanDecimal_take (phase : DecimalPhase) (cs : List Char) :
    scanDecimal phase (cs.take (scanDecimal phase cs).2) = scanDecimal phase cs := by
  induction cs generalizing phase with
  | nil => rfl
  | cons c cs ih =>
    have hhead : ∀ phase, 0 < (scanDecimal phase cs).2 → (cs.take (scanDecimal phase cs).2).head? = cs.head? :=
      fun phase hpos => by rw [List.head?_take, if_neg (Nat.ne_of_gt hpos)]
    conv_rhs => rw [scanDecimal]
    conv_lhs => rw [scanDecimal.eq_def phase (c :: cs)]
    dsimp only
    split_ifs with hunderscore hdigit hsign hpoint hnext hname hexponent
    · rw [Nat.add_comm, List.take_succ_cons, scanDecimal]
      simp only [hunderscore, if_true, ih, Nat.add_comm]
    · rw [Nat.add_comm, List.take_succ_cons, scanDecimal]
      simp only [hunderscore, hdigit, if_true, if_false, ih, Nat.add_comm, Bool.false_eq_true]
    · rw [Nat.add_comm, List.take_succ_cons, scanDecimal]
      simp only [hunderscore, hdigit, hsign, if_true, if_false, ih, Nat.add_comm, Bool.false_eq_true]
    · have hpos : 0 < (scanDecimal { phase with point := false, sign := false } cs).2 := by
        cases cs with
        | nil => cases hnext
        | cons d cs => exact scanDecimal_head_pos (.inl hnext)
      rw [Nat.add_comm, List.take_succ_cons, scanDecimal]
      simp only [hunderscore, hdigit, hsign, hpoint, hhead _ hpos, hnext, if_true, if_false, ih, Nat.add_comm,
        Bool.false_eq_true]
    · rfl
    · rw [List.take_succ_cons, List.take_zero, scanDecimal]
      simp [hunderscore, hdigit, hsign, hpoint]
    · have hpos : 0 < (scanDecimal ⟨false, false, true⟩ cs).2 := by
        rw [Bool.and_eq_true, Bool.or_eq_true] at hexponent
        cases cs with
        | nil => simp at hexponent
        | cons d cs => exact scanDecimal_head_pos (hexponent.2.imp id fun hsign => ⟨rfl, by simpa using hsign⟩)
      rw [Nat.add_comm, List.take_succ_cons, scanDecimal]
      simp only [hunderscore, hdigit, hsign, hpoint, hexponent, hhead _ hpos, if_true, if_false, ih, Nat.add_comm,
        Bool.false_eq_true]
    · rfl

theorem takeWhile_take_length {p : Char → Bool} (cs : List Char) :
    (cs.take (cs.takeWhile p).length).takeWhile p = cs.takeWhile p := by
  rw [List.prefix_iff_eq_take.mp (List.takeWhile_prefix p) |>.symm]
  exact List.takeWhile_eq_self_iff.mpr fun c hc => List.mem_takeWhile_imp hc

theorem length_radixLexeme (negative : Bool) (r : Nat) (cs : List Char) :
    (radixLexeme negative r cs).length = 2 + ((cs.drop 2).takeWhile (isRadixDigit r)).length := by
  unfold radixLexeme
  dsimp only
  split
  · split_ifs <;> rfl
  · rfl

theorem length_numberLexeme (negative negative' : Bool) (cs : List Char) :
    (numberLexeme negative cs).length = (numberLexeme negative' cs).length := by
  rw [numberLexeme_eq, numberLexeme_eq]
  split
  · rw [length_radixLexeme, length_radixLexeme]
  · rfl

/-- A number is read again from its own characters. -/
theorem numberLexeme_take (negative : Bool) (cs : List Char) :
    numberLexeme negative (cs.take (numberLexeme negative cs).length) = numberLexeme negative cs := by
  cases h : radix? cs with
  | some r =>
    obtain ⟨c, more, rfl⟩ := radix?_some h
    have hlength : (numberLexeme negative ('0' :: c :: more)).length = 2 + (more.takeWhile (isRadixDigit r)).length := by
      rw [numberLexeme_eq, h]
      exact length_radixLexeme negative r _
    have htake : ('0' :: c :: more).take (2 + (more.takeWhile (isRadixDigit r)).length) =
        '0' :: c :: more.take (more.takeWhile (isRadixDigit r)).length := by
      rw [Nat.add_comm]
      rfl
    have hradix : radix? ('0' :: c :: more.take (more.takeWhile (isRadixDigit r)).length) = some r := h
    rw [hlength, htake, numberLexeme_eq, numberLexeme_eq, h, hradix]
    simp only [radixLexeme, List.drop_succ_cons, List.drop_zero, takeWhile_take_length, Nat.add_comm 2,
      List.take_succ_cons, List.take_take, Nat.min_self]
  | none =>
    have hlength : (numberLexeme negative cs).length = (scanDecimal {} cs).2 := by rw [numberLexeme_eq, h]
    have hradix : radix? (cs.take (scanDecimal {} cs).2) = none := by
      by_contra hsome
      obtain ⟨r, hr⟩ := Option.ne_none_iff_exists'.mp hsome
      obtain ⟨c, more, hcs⟩ := radix?_some hr
      have hprefix := List.take_prefix (scanDecimal {} cs).2 cs
      rw [hcs] at hr hprefix
      obtain ⟨rest, rfl⟩ := hprefix
      have hsame : radix? ('0' :: c :: more ++ rest) = radix? ('0' :: c :: more) := rfl
      rw [hsame, hr] at h
      cases h
    rw [hlength, numberLexeme_eq, numberLexeme_eq, h, hradix]
    simp only [scanDecimal_take]

theorem takeSign_of_digit (hc : c.isDigit = true) (cs : List Char) : takeSign (c :: cs) = (false, c :: cs) := by
  unfold takeSign
  split
  · rename_i heq
    rw [(List.cons.inj heq).1] at hc
    cases hc
  · rename_i heq
    rw [(List.cons.inj heq).1] at hc
    cases hc
  · rfl

theorem isSome_read?_minus (hc : c.isDigit = true) (h : (Decimal.read? (c :: cs)).isSome = true) :
    (Decimal.read? ('-' :: c :: cs)).isSome = true := by
  unfold Decimal.read? at h ⊢
  rw [takeSign_of_digit hc] at h
  simp only [takeSign] at h ⊢
  split_ifs at h ⊢ with hempty
  · cases h
  · rw [Option.isSome_map] at h ⊢
    exact h

theorem fits_neg {n : Nat} (h : Word.fits n = true) : Word.fits (-(n : Int)) = true := by
  unfold Word.fits at h ⊢
  simp only [Bool.and_eq_true, decide_eq_true_eq] at h ⊢
  unfold Word.least Word.greatest at *
  omega

theorem decimalToken_minus_proper (hc : c.isDigit = true) (h : (decimalToken false (c :: cs)).isProper = true) :
    (decimalToken true (c :: cs)).isProper = true := by
  unfold decimalToken at h ⊢
  simp only [Bool.false_eq_true, if_false, if_true] at h ⊢
  by_cases hfits : ((c :: cs).all Char.isDigit && Word.fits (digitsValue (c :: cs))) = true
  · have hminus : ((c :: cs).all Char.isDigit && Word.fits (-(digitsValue (c :: cs) : Int))) = true := by
      rw [Bool.and_eq_true] at hfits ⊢
      refine ⟨hfits.1, ?_⟩
      exact fits_neg hfits.2
    rw [if_pos hminus]
    rfl
  · rw [if_neg hfits] at h
    split_ifs
    · rfl
    · cases hread : Decimal.read? (c :: cs) with
      | none =>
        rw [hread] at h
        cases h
      | some d =>
        obtain ⟨d', hd'⟩ := Option.isSome_iff_exists.mp (isSome_read?_minus hc (by rw [hread]; rfl))
        rw [hd']
        rfl

theorem numberLexeme_minus_proper (hc : c.isDigit = true) (h : (numberLexeme false (c :: cs)).token.isProper = true) :
    (numberLexeme true (c :: cs)).token.isProper = true := by
  rw [numberLexeme_eq] at h ⊢
  cases hradix : radix? (c :: cs) with
  | some r =>
    rw [hradix] at h
    simp only [radixLexeme] at h ⊢
    split at h
    · rename_i n hvalue
      by_cases hsize : n < Word.size
      · rw [if_pos hsize]
        rfl
      · rw [if_neg hsize] at h
        cases h
    · cases h
  | none =>
    rw [hradix] at h
    have hunderscore : c ≠ '_' := by
      rintro rfl
      cases hc
    have hkept : ∃ more, (scanDecimal {} (c :: cs)).1 = c :: more := by
      refine ⟨(scanDecimal {} cs).1, ?_⟩
      rw [scanDecimal]
      simp [hunderscore, hc]
    obtain ⟨more, hkept⟩ := hkept
    simp only [hkept] at h ⊢
    exact decimalToken_minus_proper hc h

theorem numberLexeme_cases (negative : Bool) (cs : List Char) :
    (∃ n, (numberLexeme negative cs).token = .int n) ∨ (∃ y, (numberLexeme negative cs).token = .float y) ∨
      ∃ f, (numberLexeme negative cs).token = .fault f := by
  rw [numberLexeme_eq]
  split
  · unfold radixLexeme
    dsimp only
    split
    · split_ifs <;> simp
    · simp
  · unfold decimalToken
    dsimp only
    generalize (if negative = true then -(digitsValue (scanDecimal {} cs).1 : Int) else _) = n
    split_ifs
    · simp
    · split <;> simp
    · split <;> simp

/-- The lexer is in the same state after a number, with or without its minus. -/
theorem numberLexeme_alike (hc : c.isDigit = true) (h : (numberLexeme false (c :: cs)).token.isProper = true) :
    (numberLexeme false (c :: cs)).token.Alike (numberLexeme true (c :: cs)).token := by
  have hminus := numberLexeme_minus_proper hc h
  rcases numberLexeme_cases false (c :: cs) with ⟨n, heq⟩ | ⟨y, heq⟩ | ⟨f, heq⟩ <;>
    rcases numberLexeme_cases true (c :: cs) with ⟨n', heq'⟩ | ⟨y', heq'⟩ | ⟨f', heq'⟩ <;>
    rw [heq] at h ⊢ <;> rw [heq'] at hminus ⊢
  all_goals first
    | exact ⟨rfl, rfl, fun _ => rfl⟩
    | exact absurd h Bool.false_ne_true
    | exact absurd hminus Bool.false_ne_true

/-! ## The first token -/

/-- The tokens of a text where an operand is due, by its tokens where none is. Digits right after a minus become part of
one number with it. -/
def asOperand : List Spelled → List Spelled
  | [] => []
  | t :: rest =>
    match t.token with
    | .operator .sub =>
      match rest with
      | next :: more =>
        if (next.spelling.head?.map Char.isDigit).getD false && next.place == t.place.after t.spelling then
          ⟨⟨(numberLexeme true next.spelling).token, t.place⟩, t.spelling ++ next.spelling⟩ :: more
        else ⟨⟨.negative, t.place⟩, t.spelling⟩ :: rest
      | [] => [⟨⟨.negative, t.place⟩, t.spelling⟩]
    | .operator .add => ⟨⟨.positive, t.place⟩, t.spelling⟩ :: rest
    | _ => t :: rest

theorem signLexeme_minus (hc : c.isDigit = true) (cs : List Char) : signLexeme ('-' :: c :: cs) = ⟨.operator .sub, 1, 0⟩ := by
  have hne : ∀ d, d.isDigit = false → c ≠ d := by
    rintro d hd rfl
    rw [hc] at hd
    cases hd
  have h1 := hne '=' (by decide)
  have h2 := hne '>' (by decide)
  have h3 := hne '-' (by decide)
  simp [signLexeme, signs, h1.symm, h2.symm, h3.symm]
  rfl

theorem signLexeme_sub (h : (signLexeme cs).token = .operator .sub) :
    ∃ more, cs = '-' :: more ∧ signLexeme cs = ⟨.operator .sub, 1, 0⟩ := by
  have hsigns : ∀ s ∈ signs, s.2 = .operator .sub → s.1 = "-" := by decide
  unfold signLexeme at h ⊢
  split at h
  · rename_i written token hfind
    dsimp only at h
    subst h
    obtain rfl : written = "-" := hsigns _ (List.mem_of_find?_eq_some hfind) rfl
    have hprefix : ['-'] <+: cs := by simpa using List.find?_some hfind
    obtain ⟨more, rfl⟩ := hprefix
    exact ⟨more, rfl, rfl⟩
  · cases h

/-- The operators that may be signs. -/
def Token.isSign (token : Token) : Prop :=
  token = .operator .sub ∨ token = .operator .add

/-- How the first lexeme depends on whether an operand is due. -/
inductive SignCase (column : Nat) : List Char → Prop
  | none {cs : List Char} (hsame : nextLexeme true column cs = nextLexeme false column cs)
    (hsign : ¬(nextLexeme false column cs).token.isSign) : SignCase column cs
  | number {c : Char} {cs : List Char} (hc : c.isDigit = true)
    (hfalse : nextLexeme false column ('-' :: c :: cs) = ⟨.operator .sub, 1, 0⟩)
    (htrue : nextLexeme true column ('-' :: c :: cs) =
      ⟨(numberLexeme true (c :: cs)).token, 1 + (numberLexeme true (c :: cs)).length, 0⟩) : SignCase column ('-' :: c :: cs)
  | minus {cs : List Char} (hcs : (cs.head?.map Char.isDigit).getD false = false)
    (hfalse : nextLexeme false column ('-' :: cs) = ⟨.operator .sub, 1, 0⟩)
    (htrue : nextLexeme true column ('-' :: cs) = ⟨.negative, 1, 0⟩) : SignCase column ('-' :: cs)
  | plus {cs : List Char} {n : Nat} (hfalse : nextLexeme false column cs = ⟨.operator .add, n, 0⟩)
    (htrue : nextLexeme true column cs = ⟨.positive, n, 0⟩) : SignCase column cs

theorem signCase_mark (hquote : opensText c = false) (hname : (isNameLetter c || c == '_') = false)
    (hdigit : c.isDigit = false) (column : Nat) (cs : List Char) : SignCase column (c :: cs) := by
  have heq : ∀ operand, nextLexeme operand column (c :: cs) = markLexeme operand c cs := fun operand => by
    rw [nextLexeme_eq hquote, hname, hdigit]
    rfl
  by_cases hsub : (signLexeme (c :: cs)).token = .operator .sub
  · obtain ⟨more, hcs, hsign⟩ := signLexeme_sub hsub
    obtain ⟨rfl, rfl⟩ := List.cons.inj hcs
    have hfalse : nextLexeme false column ('-' :: cs) = ⟨.operator .sub, 1, 0⟩ := by
      rw [heq, markLexeme, hsign]
      rfl
    cases hnext : (cs.head?.map Char.isDigit).getD false with
    | true =>
      cases cs with
      | nil => cases hnext
      | cons d cs =>
        refine .number hnext hfalse ?_
        rw [heq, markLexeme, hnext]
        rfl
    | false =>
      refine .minus hnext hfalse ?_
      rw [heq, markLexeme, hnext, hsign]
      rfl
  -- no minus before digits
  have hnumber : ∀ operand, (c == '-' && operand && (cs.head?.map Char.isDigit).getD false) = false := fun operand => by
    cases hc : (c == '-' && operand && (cs.head?.map Char.isDigit).getD false) with
    | false => rfl
    | true =>
      simp only [Bool.and_eq_true, beq_iff_eq] at hc
      obtain ⟨⟨rfl, -⟩, hnext⟩ := hc
      cases cs with
      | nil => cases hnext
      | cons d cs => exact absurd (congrArg Lexeme.token (signLexeme_minus hnext cs)) hsub
  have hmark : ∀ operand, nextLexeme operand column (c :: cs) = match (signLexeme (c :: cs)).token with
      | .operator .sub => ⟨if operand then .negative else (signLexeme (c :: cs)).token, (signLexeme (c :: cs)).length, 0⟩
      | .operator .add => ⟨if operand then .positive else (signLexeme (c :: cs)).token, (signLexeme (c :: cs)).length, 0⟩
      | _ => signLexeme (c :: cs) := fun operand => by
    rw [heq, markLexeme, hnumber]
    rfl
  by_cases hadd : (signLexeme (c :: cs)).token = .operator .add
  · rw [hadd] at hmark
    exact .plus (hmark false) (hmark true)
  · have hplain : ∀ operand, nextLexeme operand column (c :: cs) = signLexeme (c :: cs) := fun operand => by
      rw [hmark]
      split
      · exact absurd (by assumption) hsub
      · exact absurd (by assumption) hadd
      · rfl
    refine .none ((hplain true).trans (hplain false).symm) ?_
    rw [hplain]
    exact not_or.mpr ⟨hsub, hadd⟩

theorem wordToken_not_sign (cs : List Char) : ¬(wordToken cs).isSign := by
  unfold wordToken Token.isSign
  dsimp only
  split
  · simp
  · split_ifs <;> simp

theorem numberLexeme_not_sign (negative : Bool) (cs : List Char) : ¬(numberLexeme negative cs).token.isSign := by
  rcases numberLexeme_cases negative cs with ⟨n, heq⟩ | ⟨y, heq⟩ | ⟨f, heq⟩ <;> rw [heq] <;> simp [Token.isSign]

theorem signCase (column : Nat) (c : Char) (cs : List Char) : SignCase column (c :: cs) := by
  by_cases hquote : opensText c = true
  · have htext := isText_nextLexeme hquote false column cs
    refine .none ?_ fun hsign => ?_
    · simp only [opensText, Bool.or_eq_true, beq_iff_eq] at hquote
      rcases hquote with (rfl | rfl) | rfl <;> rfl
    · rcases hsign with hsign | hsign <;> rw [hsign] at htext <;> cases htext
  have hquote : opensText c = false := Bool.not_eq_true _ ▸ hquote
  by_cases hname : (isNameLetter c || c == '_') = true
  · have heq : ∀ operand, nextLexeme operand column (c :: cs) = wordLexeme (c :: cs) := fun operand => by
      rw [nextLexeme_eq hquote, if_pos hname]
    refine .none ((heq true).trans (heq false).symm) ?_
    rw [heq]
    exact wordToken_not_sign _
  by_cases hdigit : c.isDigit = true
  · have heq : ∀ operand, nextLexeme operand column (c :: cs) = numberLexeme false (c :: cs) := fun operand => by
      rw [nextLexeme_eq hquote, if_neg hname, if_pos hdigit]
    refine .none ((heq true).trans (heq false).symm) ?_
    rw [heq]
    exact numberLexeme_not_sign _ _
  · exact signCase_mark hquote (Bool.not_eq_true _ ▸ hname) (Bool.not_eq_true _ ▸ hdigit) column cs

theorem asOperand_of_not_sign {t : Spelled} (h : ¬t.token.isSign) (ts : List Spelled) : asOperand (t :: ts) = t :: ts := by
  simp only [Formula.asOperand]
  split
  · exact absurd (.inl (by assumption)) h
  · exact absurd (.inr (by assumption)) h
  · rfl

theorem Skips.head (h : Skips w rest) : ∃ c ∈ w.head?, isBlank c = true ∨ c = '/' := by
  cases h with
  | blank hc => exact ⟨_, rfl, .inl hc⟩
  | returnFeed => exact ⟨_, rfl, .inl (by decide)⟩
  | lineComment | lastComment | comment => exact ⟨_, rfl, .inr rfl⟩

theorem Lexes.first {resume : Bool} {t : Spelled} (h : Lexes st resume cs (t :: ts)) :
    ∃ u rest, t.place = st.place.after u ∧ cs = u ++ (t.spelling ++ rest) ∧ t.spelling ≠ [] := by
  generalize hts : t :: ts = ts' at h
  induction h with
  | done => cases hts
  | @skip st w rest ts' hw h ih =>
    obtain ⟨u, rest, hplace, rfl, hspelling⟩ := ih hts
    refine ⟨w ++ u, rest, ?_, (List.append_assoc _ _ _).symm, hspelling⟩
    rw [Place.after_append]
    exact hplace
  | lexeme hstart hl hproper h =>
    obtain ⟨rfl, -⟩ := List.cons.inj hts
    exact ⟨[], _, rfl, rfl, ne_nil_of_lexemeAt hl hproper⟩

theorem Lexes.number (hc : c.isDigit = true) (h : Lexes st false (c :: cs) ts) :
    ∃ w rest ts', c :: cs = w ++ rest ∧ w.length = (numberLexeme false (c :: cs)).length ∧
      ts = ⟨⟨(numberLexeme false (c :: cs)).token, st.place⟩, w⟩ :: ts' ∧
      (numberLexeme false (c :: cs)).token.isProper = true ∧
      Lexes (st.fed (numberLexeme false (c :: cs)).token w) (st.closes (numberLexeme false (c :: cs)).token) rest ts' := by
  generalize hv : c :: cs = v at h
  cases h with
  | done => cases hv
  | skip hw h =>
    obtain ⟨d, hd, hskipped⟩ := hw.head
    obtain ⟨w, rfl⟩ := List.head?_eq_some_iff.mp hd
    obtain rfl : c = d := (List.cons.inj hv).1
    rcases hskipped with hblank | rfl
    · rw [isDigit_of_isBlank hblank] at hc
      cases hc
    · cases hc
  | @lexeme _ _ w rest token offset ts hstart hl hproper h =>
    have hnext : nextLexeme st.operand st.place.column (c :: cs) = numberLexeme false (c :: cs) := by
      have hname : (isNameLetter c || c == '_') = false := by
        rw [Bool.eq_false_iff]
        intro h
        rw [Char.isDigit_iff_toNat] at hc
        simp only [isNameLetter, Bool.or_eq_true, isAlpha_iff_toNat, beq_iff_eq] at h
        rcases h with h | rfl
        · have hzero : '0'.toNat = 48 := rfl
          have hnine : '9'.toNat = 57 := rfl
          omega
        · exact absurd hc (by decide)
      rw [nextLexeme, hname, hc]
      rfl
    have hnumber : numberLexeme false (w ++ rest) = ⟨token, w.length, offset⟩ := by
      rw [← hv, ← hnext, hv]
      exact hl
    rw [hnumber]
    exact ⟨w, rest, ts, rfl, rfl, rfl, hproper, h⟩

theorem SignCase.not_sign {column : Nat} (h : SignCase column cs) : ¬(nextLexeme true column cs).token.isSign := by
  cases h with
  | none hsame hsign => rwa [hsame]
  | number hc hfalse htrue =>
    rw [htrue]
    exact numberLexeme_not_sign _ _
  | minus hcs hfalse htrue => simp [htrue, Token.isSign]
  | plus hfalse htrue => simp [htrue, Token.isSign]

theorem asOperand_minus {place : Place} (h : Lexes st false cs ts) (hplace : st.place = place.after w)
    (hcs : (cs.head?.map Char.isDigit).getD false = false) :
    asOperand (⟨⟨.operator .sub, place⟩, w⟩ :: ts) = ⟨⟨.negative, place⟩, w⟩ :: ts := by
  cases ts with
  | nil => rfl
  | cons next more =>
    refine if_neg fun hjoin => ?_
    rw [Bool.and_eq_true, beq_iff_eq, ← hplace] at hjoin
    obtain ⟨u, rest, hnext, rfl, hspelling⟩ := h.first
    obtain rfl := Place.eq_nil_of_after_eq (hnext.symm.trans hjoin.2)
    rw [List.nil_append, List.head?_append_of_ne_nil _ hspelling, hjoin.1] at hcs
    cases hcs

/-- A minus right before digits belongs to the number. -/
theorem Lexes.joined (hc : c.isDigit = true)
    (h : Lexes (st.fed (.operator .sub) ['-']) (st.closes (.operator .sub)) (c :: cs) ts)
    (hstart : false = true ∨ skipLength (['-'] ++ c :: cs) = 0)
    (hl : nextLexeme true st.place.column ('-' :: c :: cs) =
      ⟨(numberLexeme true (c :: cs)).token, 1 + (numberLexeme true (c :: cs)).length, 0⟩) :
    Lexes { st with operand := true } false ('-' :: c :: cs) (asOperand (⟨⟨.operator .sub, st.place⟩, ['-']⟩ :: ts)) := by
  obtain ⟨w, rest, ts, hcs, hlength, rfl, hproper, h⟩ := Lexes.number hc h
  have halike := numberLexeme_alike hc hproper
  have hw : w ≠ [] := List.ne_nil_of_length_pos (hlength ▸ (numberLexeme_bounds false hc cs).1)
  have hhead : (w.head?.map Char.isDigit).getD false = true := by
    rw [← List.head?_append_of_ne_nil w hw, ← hcs]
    exact hc
  have htake : (numberLexeme true w).token = (numberLexeme true (c :: cs)).token := by
    rw [← numberLexeme_take true (c :: cs), length_numberLexeme true false, ← hlength, hcs, List.take_left]
  have hjoined : asOperand (⟨⟨.operator .sub, st.place⟩, ['-']⟩ ::
      ⟨⟨(numberLexeme false (c :: cs)).token, st.place.after ['-']⟩, w⟩ :: ts) =
        ⟨⟨(numberLexeme true (c :: cs)).token, st.place⟩, ['-'] ++ w⟩ :: ts := by
    rw [← htake]
    exact if_pos (by rw [Bool.and_eq_true, beq_self_eq_true]; exact ⟨hhead, rfl⟩)
  have hafter : (({ st with operand := true } : LexState).fed (numberLexeme true (c :: cs)).token (['-'] ++ w)) =
      (st.fed (.operator .sub) ['-']).fed (numberLexeme false (c :: cs)).token w := by
    simp only [LexState.fed, Place.after_append, halike.operand, halike.braces]
    rfl
  have hcloses : ({ st with operand := true } : LexState).closes (numberLexeme true (c :: cs)).token =
      (st.fed (.operator .sub) ['-']).closes (numberLexeme false (c :: cs)).token :=
    congrArg Prod.snd (halike.braces st.blocks)
  have hsplit : '-' :: c :: cs = (['-'] ++ w) ++ rest := by rw [hcs]; rfl
  have hlength' : (['-'] ++ w).length = 1 + (numberLexeme true (c :: cs)).length := by
    rw [List.length_append, hlength, length_numberLexeme false true]
    rfl
  have hlexeme : lexemeAt false true st.place.column ((['-'] ++ w) ++ rest) =
      ⟨(numberLexeme true (c :: cs)).token, (['-'] ++ w).length, 0⟩ := by
    rw [← hsplit, hlength']
    exact hl
  have hlexes : Lexes { st with operand := true } false ((['-'] ++ w) ++ rest)
      (⟨⟨(numberLexeme true (c :: cs)).token, st.place⟩, ['-'] ++ w⟩ :: ts) := by
    refine .lexeme (hsplit ▸ hstart) hlexeme (halike.proper.trans hproper) ?_
    rw [hafter, hcloses]
    exact h
  rw [← hjoined, ← hsplit] at hlexes
  exact hlexes

/-- **Where an operand is due, the lexer reads these tokens.** -/
theorem Lexes.asOperand (h : Lexes st false cs ts) : Lexes { st with operand := true } false cs (asOperand ts) := by
  generalize hresume : false = resume at h
  induction h with
  | done => exact .done
  | skip hw h ih => exact .skip hw (ih rfl)
  | @lexeme st resume w rest token offset ts hstart hl hproper h ih =>
    subst hresume
    clear ih
    have hw := ne_nil_of_lexemeAt hl hproper
    obtain ⟨c, cs, hcs⟩ := List.exists_cons_of_ne_nil (List.append_ne_nil_of_left_ne_nil hw rest)
    have hcase := signCase st.place.column c cs
    rw [← hcs] at hcase
    clear hcs
    cases hoperand : st.operand with
    | true =>
      have hst : { st with operand := true } = st := by rw [← hoperand]
      have hsign := hcase.not_sign
      rw [hoperand] at hl
      have hnext : nextLexeme true st.place.column (w ++ rest) = ⟨token, w.length, offset⟩ := hl
      rw [hnext] at hsign
      rw [hst, asOperand_of_not_sign hsign]
      exact .lexeme hstart (by rw [hoperand]; exact hl) hproper h
    | false =>
      have hnext : nextLexeme false st.place.column (w ++ rest) = ⟨token, w.length, offset⟩ := by
        rw [← hl, hoperand]
        rfl
      generalize hv : w ++ rest = v at hcase hnext
      cases hcase with
      | none hsame hsign =>
        rw [hnext] at hsign
        subst hv
        rw [asOperand_of_not_sign hsign]
        exact .lexeme hstart (hsame.trans hnext) hproper h
      | @number d cs hd hfalse htrue =>
        rw [hfalse, Lexeme.mk.injEq] at hnext
        obtain ⟨rfl, hlength, rfl⟩ := hnext
        obtain ⟨rfl, rfl⟩ : w = ['-'] ∧ rest = d :: cs := List.append_inj hv hlength.symm
        exact h.joined hd hstart htrue
      | @minus cs hcs hfalse htrue =>
        rw [hfalse, Lexeme.mk.injEq] at hnext
        obtain ⟨rfl, hlength, rfl⟩ := hnext
        obtain ⟨rfl, rfl⟩ : w = ['-'] ∧ rest = cs := List.append_inj hv hlength.symm
        rw [asOperand_minus h rfl hcs]
        have hminus : Lexes { st with operand := true } false (['-'] ++ rest) (⟨⟨.negative, st.place⟩, ['-']⟩ :: ts) :=
          .lexeme hstart htrue rfl h
        exact hminus
      | plus hfalse htrue =>
        rw [hfalse, Lexeme.mk.injEq] at hnext
        obtain ⟨rfl, rfl, rfl⟩ := hnext
        subst hv
        have hplus : Lexes { st with operand := true } false (w ++ rest) (⟨⟨.positive, st.place⟩, w⟩ :: ts) :=
          .lexeme hstart htrue rfl h
        exact hplus

end Worksheet.Formula
