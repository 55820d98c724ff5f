import Worksheet.Proofs.Formula.Skipped
import Worksheet.Proofs.Formula.TextLexeme
/-!
# Tokens with their characters

The lexer once more, keeping the characters that each token is written with.

* `Spelled`, `spellFrom`, `spell`: tokens with places and characters, the same tokens as those of `lex`;
* `spellAll`: the same with as many rounds as are needed; one round for each piece that is skipped and each lexeme;
* `Lexes`: a text without fault, piece by piece and lexeme by lexeme;
* **`exists_lexes`**: a text is read without fault if it is one.
-/

namespace Worksheet.Formula

open Worksheet.Text

/-! ## The tokens -/

/-- A token with its place and the characters that it is written with. -/
structure Spelled extends Located where
  spelling : List Char
  deriving DecidableEq, Inhabited

namespace LexState

/-- The state after characters without a token. -/
def moved (st : LexState) (w : List Char) : LexState :=
  { st with place := st.place.after w }

/-- The state after a token that is written with these characters. -/
def fed (st : LexState) (token : Token) (w : List Char) : LexState :=
  ⟨st.place.after w, token.expectsOperand, (countBrace st.blocks token).1⟩

/-- The token ends a block inside a text, which then goes on. -/
def closes (st : LexState) (token : Token) : Bool :=
  (countBrace st.blocks token).2

end LexState

/-- The lexer is in the same state after each of the tokens. -/
structure Token.Alike (token token' : Token) : Prop where
  proper : token'.isProper = token.isProper
  operand : token'.expectsOperand = token.expectsOperand
  braces : ∀ blocks, LexState.countBrace blocks token' = LexState.countBrace blocks token

theorem Token.Alike.refl (token : Token) : token.Alike token :=
  ⟨rfl, rfl, fun _ => rfl⟩

/-- The tokens of the rest of a script, with their characters. -/
def spellFrom : Nat → LexState → Bool → List Char → List Spelled
  | 0, st, _, _ => [⟨⟨.finish, st.place⟩, []⟩]
  | fuel + 1, st, resume, cs =>
    let skipped := if resume then 0 else skipLength cs
    if skipped ≠ 0 then spellFrom fuel (st.moved (cs.take skipped)) false (cs.drop skipped)
    else
      let l := lexemeAt resume st.operand st.place.column cs
      match l.token with
      | .finish => [⟨⟨.finish, st.place⟩, []⟩]
      | .fault f => [⟨⟨.fault f, st.place.after (cs.take l.offset)⟩, []⟩]
      | token =>
        ⟨⟨token, st.place⟩, cs.take l.length⟩ ::
          spellFrom fuel (st.fed token (cs.take l.length)) (st.closes token) (cs.drop l.length)

/-- The tokens of a script, with their characters. -/
def spell (script : List Char) : List Spelled :=
  spellFrom (script.length + 1) ⟨Place.start, true, []⟩ false script

theorem map_spellFrom (fuel : Nat) (st : LexState) (resume : Bool) (cs : List Char) :
    (spellFrom fuel st resume cs).map Spelled.toLocated = lexFrom fuel st resume cs := by
  induction fuel generalizing st resume cs with
  | zero => rfl
  | succ fuel ih =>
    have hlexeme : (if resume = true then pieceLexeme cs else nextLexeme st.operand st.place.column cs) =
        lexemeAt resume st.operand st.place.column cs := rfl
    rw [spellFrom, lexFrom, hlexeme]
    generalize (if resume = true then 0 else skipLength cs) = skipped
    generalize lexemeAt resume st.operand st.place.column cs = l
    by_cases hskipped : skipped = 0
    · simp only [hskipped, ne_eq, not_true_eq_false, if_false]
      cases l.token with
      | finish | fault => rfl
      | _ => exact congrArg _ (ih _ _ _)
    · simp only [ne_eq, hskipped, not_false_eq_true, if_true]
      exact ih _ _ _

/-- **The tokens and places are those of the lexer.** -/
theorem map_spell (script : List Char) : (spell script).map Spelled.toLocated = lex script :=
  map_spellFrom _ _ _ _

/-! ## Rounds -/

variable {st : LexState} {resume operand : Bool} {column fuel : Nat} {cs w rest : List Char} {ts : List Spelled}

theorem SpellsText.ne_nil {tokenAt : Nat → Token} {follow : List Char → Prop} (h : SpellsText resume w tokenAt follow) :
    w ≠ [] := by
  cases h with
  | piece h => exact h.ne_nil
  | _ => exact List.cons_ne_nil _ _

/-- A lexeme is one of the three: a text, a lexeme that depends on the next characters only, or the end. -/
theorem lexemeAt_bounds (h : (lexemeAt resume operand column cs).token.isProper = true) :
    0 < (lexemeAt resume operand column cs).length ∧ (lexemeAt resume operand column cs).length ≤ cs.length := by
  by_cases htext : resume = true ∨ ∃ c ∈ cs.head?, opensText c = true
  · obtain ⟨w, rest, tokenAt, follow, rfl, htext, hrest⟩ := exists_spellsText htext h
    rw [htext.lexemeAt hrest, List.length_append]
    exact ⟨List.length_pos_of_ne_nil htext.ne_nil, Nat.le_add_right _ _⟩
  · obtain ⟨hresume, hhead⟩ := not_or.mp htext
    obtain rfl : resume = false := by simpa using hresume
    cases cs with
    | nil => cases h
    | cons c cs =>
      have hc : opensText c = false := by simpa using hhead
      exact nextLexeme_bounds hc operand column cs

theorem ne_nil_of_lexemeAt {token : Token} {offset : Nat} (hl : lexemeAt resume operand column cs = ⟨token, w.length, offset⟩)
    (hproper : token.isProper = true) : w ≠ [] := by
  have hlexeme : (lexemeAt resume operand column cs).token.isProper = true := by
    rw [hl]
    exact hproper
  have hbounds := lexemeAt_bounds hlexeme
  rw [hl] at hbounds
  exact List.ne_nil_of_length_pos hbounds.1

theorem spellFrom_skipped (h : skipLength cs ≠ 0) (fuel : Nat) (st : LexState) :
    spellFrom (fuel + 1) st false cs =
      spellFrom fuel (st.moved (cs.take (skipLength cs))) false (cs.drop (skipLength cs)) := by
  rw [spellFrom]
  exact if_pos h

theorem spellFrom_lexeme (hstart : resume = true ∨ skipLength cs = 0) {l : Lexeme}
    (hl : lexemeAt resume st.operand st.place.column cs = l) (hproper : l.token.isProper = true) (fuel : Nat) :
    spellFrom (fuel + 1) st resume cs = ⟨⟨l.token, st.place⟩, cs.take l.length⟩ ::
      spellFrom fuel (st.fed l.token (cs.take l.length)) (st.closes l.token) (cs.drop l.length) := by
  have hskipped : (if resume = true then 0 else skipLength cs) = 0 := by
    rcases hstart with rfl | hskip
    · rfl
    · rw [hskip, ite_self]
  rw [spellFrom]
  simp only [hskipped, hl, ne_eq, not_true_eq_false, if_false]
  cases htoken : l.token with
  | finish | fault => rw [htoken] at hproper; cases hproper
  | _ => rfl

theorem exists_spellFrom_last (hstart : resume = true ∨ skipLength cs = 0) {l : Lexeme}
    (hl : lexemeAt resume st.operand st.place.column cs = l) (hproper : l.token.isProper = false) :
    ∃ place, st.place.line ≤ place.line ∧ ∀ fuel, spellFrom (fuel + 1) st resume cs = [⟨⟨l.token, place⟩, []⟩] := by
  have hskipped : (if resume = true then 0 else skipLength cs) = 0 := by
    rcases hstart with rfl | hskip
    · rfl
    · rw [hskip, ite_self]
  cases htoken : l.token with
  | finish =>
    refine ⟨st.place, Nat.le_refl _, fun fuel => ?_⟩
    rw [spellFrom]
    simp only [hskipped, hl, htoken, ne_eq, not_true_eq_false, if_false]
  | fault f =>
    refine ⟨st.place.after (cs.take l.offset), Place.line_le_after _ _, fun fuel => ?_⟩
    rw [spellFrom]
    simp only [hskipped, hl, htoken, ne_eq, not_true_eq_false, if_false]
  | _ => rw [htoken] at hproper; cases hproper

theorem spellFrom_fuel {n m : Nat} (hn : cs.length < n) (hm : cs.length < m) (st : LexState) (resume : Bool) :
    spellFrom n st resume cs = spellFrom m st resume cs := by
  induction n generalizing m st resume cs with
  | zero => omega
  | succ n ih =>
    obtain ⟨m, rfl⟩ : ∃ k, m = k + 1 := ⟨m - 1, by omega⟩
    by_cases hstart : resume = true ∨ skipLength cs = 0
    · by_cases hproper : (lexemeAt resume st.operand st.place.column cs).token.isProper = true
      · have hbounds := lexemeAt_bounds hproper
        rw [spellFrom_lexeme hstart rfl hproper, spellFrom_lexeme hstart rfl hproper]
        exact congrArg _ (ih (by rw [List.length_drop]; omega) (by rw [List.length_drop]; omega) _ _)
      · obtain ⟨place, -, hlast⟩ := exists_spellFrom_last hstart rfl (Bool.not_eq_true _ ▸ hproper)
        rw [hlast, hlast]
    · obtain ⟨hresume, hskip⟩ := not_or.mp hstart
      obtain rfl : resume = false := by simpa using hresume
      have hpos : 0 < cs.length := by
        cases cs with
        | nil => exact absurd rfl hskip
        | cons c cs => exact Nat.succ_pos _
      rw [spellFrom_skipped hskip, spellFrom_skipped hskip]
      exact ih (by rw [List.length_drop]; omega) (by rw [List.length_drop]; omega) _ _

theorem line_le_of_mem_spellFrom {t : Spelled} (ht : t ∈ spellFrom fuel st resume cs) : st.place.line ≤ t.place.line := by
  induction fuel generalizing st resume cs with
  | zero =>
    obtain rfl := List.mem_singleton.mp ht
    exact Nat.le_refl _
  | succ fuel ih =>
    by_cases hstart : resume = true ∨ skipLength cs = 0
    · by_cases hproper : (lexemeAt resume st.operand st.place.column cs).token.isProper = true
      · rw [spellFrom_lexeme hstart rfl hproper, List.mem_cons] at ht
        rcases ht with rfl | ht
        · exact Nat.le_refl _
        · exact (Place.line_le_after _ _).trans (ih ht)
      · obtain ⟨place, hplace, hlast⟩ := exists_spellFrom_last hstart rfl (Bool.not_eq_true _ ▸ hproper)
        rw [hlast, List.mem_singleton] at ht
        rw [ht]
        exact hplace
    · obtain ⟨hresume, hskip⟩ := not_or.mp hstart
      obtain rfl : resume = false := by simpa using hresume
      rw [spellFrom_skipped hskip] at ht
      exact (Place.line_le_after _ _).trans (ih ht)

/-! ## As many rounds as are needed -/

/-- The tokens of the rest of a script, up to its end or to a fault. -/
def spellAll (st : LexState) (resume : Bool) (cs : List Char) : List Spelled :=
  spellFrom (cs.length + 1) st resume cs

theorem spellFrom_eq_spellAll (h : cs.length < fuel) (st : LexState) (resume : Bool) :
    spellFrom fuel st resume cs = spellAll st resume cs :=
  spellFrom_fuel h (Nat.lt_succ_self _) st resume

theorem spellAll_nil (st : LexState) : spellAll st false [] = [⟨⟨.finish, st.place⟩, []⟩] :=
  rfl

theorem spellAll_skipped (h : skipLength cs ≠ 0) (st : LexState) :
    spellAll st false cs = spellAll (st.moved (cs.take (skipLength cs))) false (cs.drop (skipLength cs)) := by
  have hpos : 0 < cs.length := by
    cases cs with
    | nil => exact absurd rfl h
    | cons c cs => exact Nat.succ_pos _
  rw [spellAll, spellFrom_skipped h]
  exact spellFrom_eq_spellAll (by rw [List.length_drop]; omega) _ _

theorem spellAll_lexeme (hstart : resume = true ∨ skipLength (w ++ rest) = 0) {token : Token} {offset : Nat}
    (hl : lexemeAt resume st.operand st.place.column (w ++ rest) = ⟨token, w.length, offset⟩)
    (hproper : token.isProper = true) :
    spellAll st resume (w ++ rest) =
      ⟨⟨token, st.place⟩, w⟩ :: spellAll (st.fed token w) (st.closes token) rest := by
  have hpos : 0 < w.length := List.length_pos_of_ne_nil (ne_nil_of_lexemeAt hl hproper)
  rw [spellAll, spellFrom_lexeme hstart hl hproper, List.take_left, List.drop_left]
  exact congrArg _ (spellFrom_eq_spellAll (by rw [List.length_append]; omega) _ _)

theorem LexState.moved_append (st : LexState) (v w : List Char) : st.moved (v ++ w) = (st.moved v).moved w := by
  rw [moved, moved, moved, Place.after_append]

theorem skipLength_of_head {c : Char} (hblank : isBlank c = false) (hslash : c ≠ '/') (cs : List Char) :
    skipLength (c :: cs) = 0 := by
  rw [skipLength_eq hslash, List.takeWhile_cons_of_neg (by simp [hblank])]
  rfl

theorem spellAll_blank {c : Char} (hc : isBlank c = true) (st : LexState) (cs : List Char) :
    spellAll st false (c :: cs) = spellAll (st.moved [c]) false cs := by
  have hslash : c ≠ '/' := ne_of_isBlank hc (by decide)
  have hskip : skipLength (c :: cs) = 1 + (cs.takeWhile isBlank).length := by
    rw [skipLength_eq hslash, List.takeWhile_cons_of_pos hc, List.length_cons, Nat.add_comm]
  rw [spellAll_skipped (by omega), hskip, Nat.add_comm, List.take_succ_cons, List.drop_succ_cons, ← List.singleton_append,
    LexState.moved_append]
  by_cases hnext : ∃ d ∈ cs.head?, isBlank d = true
  · -- the blanks after the first one are skipped in one round as well
    obtain ⟨d, hd, hblank⟩ := hnext
    obtain ⟨cs, rfl⟩ := List.head?_eq_some_iff.mp hd
    have hskip' := skipLength_eq (ne_of_isBlank hblank (by decide)) cs
    rw [← hskip', ← spellAll_skipped (by rw [hskip', List.takeWhile_cons_of_pos hblank]; simp)]
  · have hnone : cs.takeWhile isBlank = [] := by
      cases cs with
      | nil => rfl
      | cons d cs => exact List.takeWhile_cons_of_neg (by simpa using hnext)
    rw [hnone]
    rfl

theorem spellAll_blanks {blanks : List Char} (hblanks : ∀ c ∈ blanks, isBlank c = true) (st : LexState) (cs : List Char) :
    spellAll st false (blanks ++ cs) = spellAll (st.moved blanks) false cs := by
  induction blanks generalizing st with
  | nil => rfl
  | cons c blanks ih =>
    rw [List.forall_mem_cons] at hblanks
    rw [List.cons_append, spellAll_blank hblanks.1, ih hblanks.2]
    rfl

theorem spellAll_lineComment (hw : '\n' ∉ w) (st : LexState) (rest : List Char) :
    spellAll st false ('/' :: '/' :: (w ++ '\n' :: rest)) = spellAll (st.moved ('/' :: '/' :: (w ++ ['\n']))) false rest := by
  have hline : (w ++ '\n' :: rest).takeWhile (· != '\n') = w := by
    rw [List.takeWhile_append_of_pos fun c hc => by simpa using ne_of_mem_of_not_mem hc hw]
    simp
  have hskip : skipLength ('/' :: '/' :: (w ++ '\n' :: rest)) = ('/' :: '/' :: w).length := by
    rw [skipLength, hline, List.length_cons, List.length_cons]
    omega
  rw [spellAll_skipped (by rw [hskip]; exact Nat.succ_ne_zero _), hskip, ← List.cons_append, ← List.cons_append,
    List.take_left, List.drop_left, spellAll_blank (by decide), ← LexState.moved_append]
  rfl

theorem spellAll_lastComment (hw : '\n' ∉ w) (st : LexState) :
    spellAll st false ('/' :: '/' :: w) = spellAll (st.moved ('/' :: '/' :: w)) false [] := by
  have hline : w.takeWhile (· != '\n') = w :=
    List.takeWhile_eq_self_iff.mpr fun c hc => by simpa using ne_of_mem_of_not_mem hc hw
  have hskip : skipLength ('/' :: '/' :: w) = ('/' :: '/' :: w).length := by
    rw [skipLength, hline, List.length_cons, List.length_cons]
    omega
  rw [spellAll_skipped (by rw [hskip]; exact Nat.succ_ne_zero _), hskip, List.take_length, List.drop_length]

theorem spellAll_comment {closed : Bool} (h : CommentText closed 0 w) (hrest : closed = false → rest = []) (st : LexState) :
    spellAll st false ('/' :: '*' :: (w ++ rest)) = spellAll (st.moved ('/' :: '*' :: w)) false rest := by
  have hskip : skipLength ('/' :: '*' :: (w ++ rest)) = ('/' :: '*' :: w).length := by
    rw [skipLength, h.commentLength_append hrest, List.length_cons, List.length_cons]
    omega
  rw [spellAll_skipped (by rw [hskip]; exact Nat.succ_ne_zero _), hskip, ← List.cons_append, ← List.cons_append,
    List.take_left, List.drop_left]

theorem spellAll_skips (h : Skips w rest) (st : LexState) :
    spellAll st false (w ++ rest) = spellAll (st.moved w) false rest := by
  cases h with
  | blank hc => exact spellAll_blank hc st rest
  | returnFeed =>
    have hblanks : ∀ c ∈ ['\r', '\n'], isBlank c = true := by decide
    exact spellAll_blanks hblanks st rest
  | lineComment hw =>
    rw [List.cons_append, List.cons_append, List.append_assoc]
    exact spellAll_lineComment hw st rest
  | lastComment hw =>
    rw [List.append_nil]
    exact spellAll_lastComment hw st
  | comment h hrest => exact spellAll_comment h hrest st

/-! ## Texts without fault -/

/-- The rest of a script is read without a fault, as these tokens. -/
inductive Lexes : LexState → Bool → List Char → List Spelled → Prop
  | done {st : LexState} : Lexes st false [] []
  | skip {st : LexState} {w rest : List Char} {ts : List Spelled} (hw : Skips w rest)
    (h : Lexes (st.moved w) false rest ts) : Lexes st false (w ++ rest) ts
  | lexeme {st : LexState} {resume : Bool} {w rest : List Char} {token : Token} {offset : Nat} {ts : List Spelled}
    (hstart : resume = true ∨ skipLength (w ++ rest) = 0)
    (hl : lexemeAt resume st.operand st.place.column (w ++ rest) = ⟨token, w.length, offset⟩)
    (hproper : token.isProper = true) (h : Lexes (st.fed token w) (st.closes token) rest ts) :
    Lexes st resume (w ++ rest) (⟨⟨token, st.place⟩, w⟩ :: ts)

theorem wordToken_ne_finish (cs : List Char) : wordToken cs ≠ .finish := by
  unfold wordToken
  dsimp only
  split
  · simp
  · split_ifs <;> simp

theorem decimalToken_ne_finish (negative : Bool) (kept : List Char) : decimalToken negative kept ≠ .finish := by
  unfold decimalToken
  dsimp only
  generalize (if negative = true then '-' :: kept else kept) = written
  generalize (if negative = true then -(digitsValue kept : Int) else digitsValue kept) = n
  split_ifs
  · simp
  · split <;> simp

theorem numberLexeme_ne_finish (negative : Bool) (cs : List Char) : (numberLexeme negative cs).token ≠ .finish := by
  rw [numberLexeme_eq]
  split
  · unfold radixLexeme
    dsimp only
    split
    · split_ifs <;> simp
    · simp
  · exact decimalToken_ne_finish _ _

theorem signLexeme_ne_finish (cs : List Char) : (signLexeme cs).token ≠ .finish := by
  have hsigns : ∀ s ∈ signs, s.2 ≠ .finish := by decide
  unfold signLexeme
  split
  · rename_i hfind
    exact hsigns _ (List.mem_of_find?_eq_some hfind)
  · simp

theorem nextLexeme_ne_finish (operand : Bool) (column : Nat) (c : Char) (cs : List Char) :
    (nextLexeme operand column (c :: cs)).token ≠ .finish := by
  by_cases hquote : opensText c = true
  · have htext := isText_nextLexeme hquote operand column cs
    intro hfinish
    rw [hfinish] at htext
    cases htext
  · rw [nextLexeme_eq (Bool.not_eq_true _ ▸ hquote)]
    split_ifs
    · exact wordToken_ne_finish _
    · exact numberLexeme_ne_finish _ _
    · unfold markLexeme
      split_ifs
      · exact numberLexeme_ne_finish _ _
      all_goals
        split
        · simp [signLexeme_ne_finish]
        · simp [signLexeme_ne_finish]
        · exact signLexeme_ne_finish _

theorem lexemeAt_eq_finish (h : (lexemeAt resume operand column cs).token = .finish) : resume = false ∧ cs = [] := by
  cases resume with
  | true =>
    unfold lexemeAt pieceLexeme at h
    simp only [if_true] at h
    split at h <;> cases h
  | false =>
    cases cs with
    | nil => exact ⟨rfl, rfl⟩
    | cons c cs => exact absurd h (nextLexeme_ne_finish operand column c cs)

/-- **Where no fault is found, the tokens are those of a text without fault, and the end.** -/
theorem exists_lexes (h : ∀ t ∈ spellAll st resume cs, ∀ f, t.token ≠ .fault f) :
    ∃ ts place, spellAll st resume cs = ts ++ [⟨⟨.finish, place⟩, []⟩] ∧ Lexes st resume cs ts := by
  induction hn : cs.length using Nat.strong_induction_on generalizing st resume cs with
  | _ n ih =>
    subst hn
    by_cases hstart : resume = true ∨ skipLength cs = 0
    · rcases hl : lexemeAt resume st.operand st.place.column cs with ⟨token, length, offset⟩
      by_cases hproper : token.isProper = true
      · have hbounds := lexemeAt_bounds (by rw [hl]; exact hproper)
        simp only [hl] at hbounds
        obtain ⟨w, rest, rfl, rfl⟩ : ∃ w rest, cs = w ++ rest ∧ length = w.length :=
          ⟨cs.take length, cs.drop length, (List.take_append_drop _ _).symm, (List.length_take_of_le hbounds.2).symm⟩
        rw [spellAll_lexeme hstart hl hproper] at h ⊢
        have hshort : rest.length < (w ++ rest).length := by
          rw [List.length_append]
          omega
        obtain ⟨ts, place, heq, hlexes⟩ := ih _ hshort (List.forall_mem_cons.mp h).2 rfl
        exact ⟨_ :: ts, place, by rw [heq, List.cons_append], .lexeme hstart hl hproper hlexes⟩
      · obtain ⟨place, -, hlast⟩ := exists_spellFrom_last hstart hl (Bool.not_eq_true _ ▸ hproper)
        rw [spellAll, hlast] at h ⊢
        have hfinish : token = .finish := by
          cases token with
          | finish => rfl
          | fault f => exact absurd rfl (h _ List.mem_cons_self f)
          | _ => exact absurd rfl hproper
        subst hfinish
        obtain ⟨rfl, rfl⟩ := lexemeAt_eq_finish (congrArg Lexeme.token hl)
        exact ⟨[], place, rfl, .done⟩
    · obtain ⟨hresume, hskip⟩ := not_or.mp hstart
      obtain rfl : resume = false := by simpa using hresume
      obtain ⟨w, rest, rfl, hw⟩ := exists_skips hskip
      rw [spellAll_skips hw] at h ⊢
      have hpos := List.length_pos_of_ne_nil hw.ne_nil
      obtain ⟨ts, place, heq, hlexes⟩ := ih rest.length (by rw [List.length_append]; omega) h rfl
      exact ⟨ts, place, heq, .skip hw hlexes⟩

namespace Lexes

theorem proper (h : Lexes st resume cs ts) : ∀ t ∈ ts, t.token.isProper = true := by
  induction h with
  | done => exact List.forall_mem_nil _
  | skip hw h ih => exact ih
  | lexeme hstart hl hproper h ih => exact List.forall_mem_cons.mpr ⟨hproper, ih⟩

theorem spellAll_eq (h : Lexes st resume cs ts) : ∃ place, spellAll st resume cs = ts ++ [⟨⟨.finish, place⟩, []⟩] := by
  induction h with
  | done => exact ⟨_, spellAll_nil _⟩
  | skip hw h ih =>
    rw [spellAll_skips hw]
    exact ih
  | lexeme hstart hl hproper h ih =>
    obtain ⟨place, heq⟩ := ih
    exact ⟨place, by rw [spellAll_lexeme hstart hl hproper, heq, List.cons_append]⟩

theorem blanks {blanks : List Char} (hblanks : ∀ c ∈ blanks, isBlank c = true) (h : Lexes st false (blanks ++ cs) ts) :
    Lexes (st.moved blanks) false cs ts := by
  obtain ⟨place, heq⟩ := h.spellAll_eq
  rw [spellAll_blanks hblanks] at heq
  have hproper : ∀ t ∈ spellAll (st.moved blanks) false cs, ∀ f, t.token ≠ .fault f := by
    rw [heq, List.forall_mem_append]
    refine ⟨fun t ht f hfault => ?_, by simp⟩
    have htoken := h.proper t ht
    rw [hfault] at htoken
    cases htoken
  obtain ⟨ts', place', heq', hlexes⟩ := exists_lexes hproper
  obtain ⟨rfl, -⟩ := List.append_inj' (heq.symm.trans heq') rfl
  exact hlexes

theorem eq_nil_of_blank (h : Lexes st false cs ts) (hcs : ∀ c ∈ cs, isBlank c = true) : ts = [] := by
  rw [← List.append_nil cs] at h
  obtain ⟨place, heq⟩ := (h.blanks hcs).spellAll_eq
  rw [spellAll_nil] at heq
  have hlength := congrArg List.length heq
  exact List.eq_nil_of_length_eq_zero (by simpa using hlength)

end Lexes

end Worksheet.Formula
