import Worksheet.Proofs.Formula.Passing
import Worksheet.Proofs.Formula.Sign
/-!
# The tokens of an expression in its script

* `later_of_blank`, `later_of_comment`: no token of the script stands on the lines of an expression, after its last one;
* **`Lexes.trimmed`**: the tokens of an expression up to its end;
* **`Lexes.returned`**: the tokens of an expression that gets `return`.
-/

namespace Worksheet.Formula

open Worksheet.Text

variable {k : Wrapping} {st st' : LexState} {indent u v w x z tail rest : List Char} {ts : List Spelled} {t : Spelled}

/-! ## After the last token -/

theorem line_lt_of_mem_spellAll (hv : '\n' ∈ v) (ht : t ∈ spellAll (st.moved v) false rest) :
    st.place.line < t.place.line :=
  (Place.line_lt_after hv).trans_le (line_le_of_mem_spellFrom ht)

/-- Tokens after blanks on a line stand on later lines, if there are no others on this one. -/
theorem later_of_blank (htail : ∀ c ∈ tail, isBlank c = true) (ht : t ∈ spellAll st false (tail ++ '\n' :: rest)) :
    st.place.line < t.place.line := by
  have hblank : ∀ c ∈ tail ++ ['\n'], isBlank c = true := List.forall_mem_append.mpr ⟨htail, by decide⟩
  rw [← List.singleton_append, ← List.append_assoc, spellAll_blanks hblank] at ht
  exact line_lt_of_mem_spellAll (by simp) ht

theorem later_of_lineComment (hw : '\n' ∉ w) (htail : '\n' ∉ tail)
    (ht : t ∈ spellAll st false ('/' :: '/' :: (w ++ (tail ++ '\n' :: rest)))) :
    (st.place.after ('/' :: '/' :: w)).line < t.place.line := by
  have hline : '\n' ∉ w ++ tail := by simp [hw, htail]
  have hone : '\n' ∉ '/' :: '/' :: w := by simp [hw]
  rw [← List.append_assoc, spellAll_lineComment hline] at ht
  rw [Place.after_line _ hone]
  exact line_lt_of_mem_spellAll (by simp) ht

/-- A comment that is not closed leaves nothing of the script. -/
theorem later_of_openComment (h : CommentText false 0 w) (htail : ∀ c ∈ tail, isBlank c = true)
    (hrest : CommentText.IsPlain rest) (ht : t ∈ spellAll st false ('/' :: '*' :: (w ++ (tail ++ '\n' :: rest)))) :
    (st.place.after ('/' :: '*' :: w)).line < t.place.line := by
  have hplain : CommentText.IsPlain (tail ++ '\n' :: rest) :=
    List.forall_mem_append.mpr ⟨fun c hc => ⟨ne_of_isBlank (htail c hc) (by decide), ne_of_isBlank (htail c hc) (by decide)⟩,
      List.forall_mem_cons.mpr ⟨by decide, hrest⟩⟩
  have hcomment := spellAll_comment (h.append_plain hplain) (fun _ => rfl) st
  rw [List.append_nil] at hcomment
  rw [hcomment, ← List.cons_append, ← List.cons_append, LexState.moved_append] at ht
  have hfeed : '\n' ∈ tail ++ '\n' :: rest := by simp
  exact line_lt_of_mem_spellAll hfeed ht

/-- The last comment of an expression, of which only blanks may be missing in the script. -/
theorem later_of_comment (hindent : ∀ c ∈ indent, c = ' ') (hhead : w.head? = some '/')
    (hlast : ∀ c ∈ w.getLast?, isBlank c = false) (hx : ∀ c ∈ x, isBlank c = true) {more : List Char}
    (h : Skips (w ++ x) more) (htail : ∀ c ∈ tail, isBlank c = true) (hone : '\n' ∉ tail)
    (hrest : CommentText.IsPlain rest) (ht : t ∈ spellAll st false (indentBreaks indent w ++ (tail ++ '\n' :: rest))) :
    (st.place.after (indentBreaks indent w)).line < t.place.line := by
  obtain ⟨w, rfl⟩ := List.head?_eq_some_iff.mp hhead
  -- only blanks are missing, so that the opening of the comment is not torn apart
  have hopening : ∀ {d s}, isBlank d = false → '/' :: w ++ x = '/' :: d :: s → ∃ v, w = d :: v ∧ v ++ x = s := by
    intro d s hd heq
    rcases append_eq_pair heq with ⟨hnil, -⟩ | ⟨-, rfl⟩ | ⟨v, hv, hs⟩
    · cases hnil
    · rw [hx d List.mem_cons_self] at hd
      cases hd
    · exact ⟨v, (List.cons.inj hv).2, hs⟩
  have hline : ∀ v, w = '/' :: v → '\n' ∉ v → (st.place.after (indentBreaks indent ('/' :: w))).line < t.place.line := by
    rintro v rfl hv
    have hfeed : '\n' ∉ '/' :: '/' :: v := by simp [hv]
    rw [indentBreaks_of_not_mem hfeed] at ht ⊢
    exact later_of_lineComment hv hone ht
  generalize hs : '/' :: w ++ x = s at h
  cases h with
  | blank hc =>
    obtain ⟨rfl, -⟩ := List.cons.inj hs
    cases hc
  | returnFeed => cases hs
  | @lineComment s _ hfeed =>
    obtain ⟨v, rfl, hv⟩ := hopening (by decide) hs
    refine hline v rfl fun hmem => ?_
    rcases append_eq_append_cases hv with ⟨y, rfl, -⟩ | ⟨y, hy, rfl, hbreak⟩
    · exact hfeed (List.mem_append_left _ hmem)
    · obtain ⟨rfl, -⟩ := List.singleton_eq_append_iff.mp hbreak |>.resolve_left fun hnil => hy hnil.1
      exact absurd (hlast '\n' (by simp [List.getLast?_cons])) (by decide)
  | lastComment hfeed =>
    obtain ⟨v, rfl, hv⟩ := hopening (by decide) hs
    exact hline v rfl fun hmem => hfeed (hv ▸ List.mem_append_left _ hmem)
  | @comment closed s _ h =>
    obtain ⟨v, rfl, rfl⟩ := hopening (by decide) hs
    have hsolid : ∀ d, isBlank d = false → ∀ v, indentBreaks indent (d :: v) = d :: indentBreaks indent v := fun d hd =>
      indentBreaks_cons_of_ne (fun hfeed => by rw [hfeed] at hd; cases hd) (fun hreturn => by rw [hreturn] at hd; cases hd)
    rw [hsolid _ (by decide), hsolid _ (by decide)] at ht ⊢
    cases closed with
    | false => exact later_of_openComment (h.start.indented hindent) htail hrest ht
    | true =>
      have hend := h.getLast?_of_closed
      obtain rfl : x = [] := by
        by_contra hne
        rw [List.getLast?_append_of_ne_nil _ hne] at hend
        exact absurd (hx '/' (List.mem_of_getLast? hend)) (by decide)
      rw [List.append_nil] at h
      rw [List.cons_append, List.cons_append, spellAll_comment (h.indented hindent) nofun] at ht
      exact later_of_blank htail ht

/-! ## Up to the end of the text -/

/-- **The tokens of the rest of an expression, up to its end.** In the script they come first, and no others come on
these lines. Blanks at the end may be others in the script. -/
theorem Lexes.trimmed (hindent : ∀ c ∈ k.indent, c = ' ') (hk : k.PastReturn st.place) (h : Lexes st false (u ++ z) ts)
    (hu : ∀ c ∈ u.getLast?, isBlank c = false) (hz : ∀ c ∈ z, isBlank c = true)
    (htail : ∀ c ∈ tail, isBlank c = true) (hone : '\n' ∉ tail) (hrest : CommentText.IsPlain rest) :
    (∀ t ∈ ts, st.place.line ≤ t.place.line ∧ t.place.line ≤ (st.place.after u).line) ∧ ∃ more,
      spellAll (k.state st) false (indentBreaks k.indent u ++ (tail ++ '\n' :: rest)) = ts.map k.spelled ++ more ∧
        ∀ t ∈ more, (k.place (st.place.after u)).line < t.place.line := by
  have hend : BlankHead (tail ++ '\n' :: rest) := by
    cases tail with
    | nil => exact blankHead_cons (by decide) _
    | cons c tail => exact blankHead_cons (htail c List.mem_cons_self) _
  have hcut : Cut st.place z (tail ++ '\n' :: rest) ts false u :=
    .blank (fun hlast => absurd (hu _ hlast) (by decide)) hz hend
  obtain ⟨ts₁, ts₂, st', w, rfl, hpassed, hleft⟩ := h.passed hindent rfl hk hcut
  obtain ⟨v, rfl, hplace, -⟩ := hpassed.author
  have hafter : st.place.after (v ++ w) = st'.place.after w := by rw [Place.after_append, hplace]
  have hnil : ts₂ = [] := by
    rcases hleft with ⟨-, h⟩ | ⟨-, x, more, rfl, -, -, h⟩
    · exact h.eq_nil_of_blank hz
    · exact h.eq_nil_of_blank fun c hc => hz c (List.mem_append_right _ hc)
  subst hnil
  rw [List.append_nil]
  refine ⟨hpassed.lines, _, hpassed.script, fun t ht => ?_⟩
  rw [hafter]
  rcases hleft with ⟨rfl, -⟩ | ⟨hhead, x, more, rfl, -, hskips, -⟩
  · exact later_of_blank htail ht
  · have hw : w ≠ [] := by
      rintro rfl
      cases hhead
    have hk' : k.PastReturn st'.place := hplace ▸ hk.after v
    rw [List.getLast?_append_of_ne_nil _ hw] at hu
    have hlater := later_of_comment hindent hhead hu (fun c hc => hz c (List.mem_append_left _ hc)) hskips htail hone
      hrest ht
    rwa [Wrapping.state, Wrapping.place_after hindent hk'] at hlater

/-! ## With `return` put in -/

namespace Wrapping

/-- The same, but no line gets `return`. -/
def withoutReturn (k : Wrapping) : Wrapping :=
  { k with returnLine? := none }

/-- The tokens of the script for those of the author: the same number of them, or one more for `return`. The tokens after
it follow a keyword, so that the first of them may be a sign. -/
inductive Renders (k : Wrapping) : List Spelled → List Spelled → Prop
  | same {ts : List Spelled} : Renders k ts (ts.map k.spelled)
  | returned {before after : List Spelled} {n : Nat} {p : Place} (hn : k.returnLine? = some n)
    (hbefore : ∀ t ∈ before, t.place.line < n) (hafter : ∀ t ∈ after, n ≤ t.place.line) (hp : p.line = n + k.above) :
    Renders k (before ++ after)
      (before.map k.spelled ++ ⟨⟨.keyword .return_, p⟩, "return".toList⟩ :: (asOperand after).map k.spelled)

/-- The script starts with the tokens for those of the author, and no others come on the same lines. -/
def RendersFrom (k : Wrapping) (first last : Place) (author script : List Spelled) : Prop :=
  ∃ kept more, script = kept ++ more ∧ k.Renders author kept ∧
    (∀ t ∈ kept, (k.place first).line ≤ t.place.line ∧ t.place.line ≤ (k.place last).line) ∧
      ∀ t ∈ more, (k.place last).line < t.place.line

theorem rendersFrom_same {script : List Spelled} {first last : Place}
    (hlines : ∀ t ∈ ts, first.line ≤ t.place.line ∧ t.place.line ≤ last.line) {more : List Spelled}
    (hscript : script = ts.map k.spelled ++ more) (hmore : ∀ t ∈ more, (k.place last).line < t.place.line) :
    k.RendersFrom first last ts script := by
  refine ⟨_, more, hscript, .same, List.forall_mem_map.mpr fun t ht => ?_, hmore⟩
  exact ⟨Nat.add_le_add_right (hlines t ht).1 _, Nat.add_le_add_right (hlines t ht).2 _⟩

theorem RendersFrom.append {before script : List Spelled} {first middle last : Place}
    (hbefore : ∀ t ∈ before, first.line ≤ t.place.line ∧ t.place.line ≤ last.line) (hmiddle : first.line ≤ middle.line)
    (hreturn : ∀ t ∈ before, ∀ n, k.returnLine? = some n → t.place.line < n) (h : k.RendersFrom middle last ts script) :
    k.RendersFrom first last (before ++ ts) (before.map k.spelled ++ script) := by
  obtain ⟨kept, more, rfl, hkept, hlines, hmore⟩ := h
  refine ⟨before.map k.spelled ++ kept, more, (List.append_assoc _ _ _).symm, ?_, ?_, hmore⟩
  · cases hkept with
    | same =>
      rw [← List.map_append]
      exact .same
    | @returned others after n p hn hothers hafter hp =>
      rw [← List.append_assoc, ← List.append_assoc, ← List.map_append]
      exact .returned hn (List.forall_mem_append.mpr ⟨fun t ht => hreturn t ht n hn, hothers⟩) hafter hp
  · refine List.forall_mem_append.mpr ⟨List.forall_mem_map.mpr fun t ht => ?_, fun t ht => ?_⟩
    · exact ⟨Nat.add_le_add_right (hbefore t ht).1 _, Nat.add_le_add_right (hbefore t ht).2 _⟩
    · exact ⟨(Nat.add_le_add_right hmiddle _).trans (hlines t ht).1, (hlines t ht).2⟩

variable {p : Place}

theorem withoutReturn_pastReturn (k : Wrapping) (p : Place) : k.withoutReturn.PastReturn p :=
  nofun

theorem spelled_withoutReturn (h : k.returnLine? ≠ some t.place.line) : k.withoutReturn.spelled t = k.spelled t := by
  have hextra : k.extra t.place.line = 0 := if_neg h
  simp only [spelled, place, hextra]
  rfl

theorem place_after_returnWord (h : k.returnLine? = some p.line) :
    (k.withoutReturn.place p).after returnWord = k.place p := by
  have hword : '\n' ∉ returnWord := by decide
  have hextra : k.extra p.line = returnWord.length := if_pos h
  rw [Place.after_of_not_mem _ hword]
  simp only [place, hextra]
  rfl

theorem place_after_returning {b : List Char} (hindent : ∀ c ∈ k.indent, c = ' ') (hb : '\n' ∉ b)
    (h : k.returnLine? = some p.line) (w : List Char) :
    (k.withoutReturn.place p).after (b ++ (returnWord ++ indentBreaks k.indent w)) = k.place (p.after (b ++ w)) := by
  have hline : k.returnLine? = some (p.after b).line := by rw [Place.after_line _ hb, h]
  have hpast : k.PastReturn (p.after b) := fun n hn => (Option.some.inj (hn.symm.trans hline)).le
  have hblanks := place_after (k := k.withoutReturn) hindent (k.withoutReturn_pastReturn p) b
  rw [indentBreaks_of_not_mem hb] at hblanks
  rw [Place.after_append, hblanks, Place.after_append, place_after_returnWord hline, place_after hindent hpast,
    ← Place.after_append]

end Wrapping

theorem spellAll_returnWord (st : LexState) (rest : List Char) :
    spellAll st false (returnWord ++ rest) = ⟨⟨.keyword .return_, st.place⟩, "return".toList⟩ ::
      spellAll (({ st with operand := true } : LexState).moved returnWord) false rest := by
  have hsplit : returnWord ++ rest = "return".toList ++ ' ' :: rest := rfl
  have htoken : wordToken "return".toList = .keyword .return_ := by decide
  have hl : lexemeAt false st.operand st.place.column ("return".toList ++ ' ' :: rest) =
      ⟨.keyword .return_, "return".toList.length, 0⟩ := by
    rw [← htoken]
    rfl
  rw [hsplit, spellAll_lexeme (.inr (skipLength_of_head (by decide) (by decide) _)) hl rfl]
  exact congrArg _ (spellAll_blank (by decide) _ rest)

theorem Skips.comment_of_feed (h : Skips (w ++ x) rest) (hhead : w.head? = some '/') (hlast : w.getLast? = some '\n')
    (hx : x ≠ [] ) :
    ∃ closed y, w = '/' :: '*' :: y ∧ y.getLast? = some '\n' ∧ CommentText closed 0 (y ++ x) ∧
      (closed = false → rest = []) := by
  have hmem := List.mem_of_getLast? hlast
  generalize hs : w ++ x = s at h
  cases h with
  | blank hc =>
    obtain ⟨d, more, rfl⟩ := List.exists_cons_of_ne_nil (List.ne_nil_of_mem hmem)
    cases hhead
    obtain ⟨rfl, -⟩ := List.cons.inj hs
    cases hc
  | returnFeed =>
    obtain ⟨d, more, rfl⟩ := List.exists_cons_of_ne_nil (List.ne_nil_of_mem hmem)
    cases hhead
    cases hs
  | @lineComment s _ hfeed =>
    rcases append_eq_append_cases (u := '/' :: '/' :: s) hs with ⟨u, hu, -⟩ | ⟨u, hu, rfl, hbreak⟩
    · have hmem' : '\n' ∈ '/' :: '/' :: s := hu ▸ List.mem_append_left _ hmem
      simp [hfeed] at hmem'
    · obtain ⟨-, rfl⟩ := List.singleton_eq_append_iff.mp hbreak |>.resolve_left fun hnil => hu hnil.1
      exact absurd rfl hx
  | @lastComment s hfeed =>
    have hmem' : '\n' ∈ '/' :: '/' :: s := hs ▸ List.mem_append_left _ hmem
    simp [hfeed] at hmem'
  | @comment closed s _ h hrest =>
    rcases append_eq_pair hs with ⟨rfl, -⟩ | ⟨rfl, -⟩ | ⟨y, rfl, rfl⟩
    · cases hhead
    · cases hlast
    · refine ⟨closed, y, rfl, ?_, h, hrest⟩
      cases y with
      | nil => cases hlast
      | cons d y => exact hlast

/-- The word at the front of its line. The lexer is where it is in the text, but an operand is due. -/
theorem spellAll_returning {b : List Char} (hindent : ∀ c ∈ k.indent, c = ' ') (hb : ∀ c ∈ b, isBlank c = true)
    (hone : '\n' ∉ b) (hk : k.returnLine? = some st.place.line) (rest : List Char) :
    spellAll (k.withoutReturn.state st) false (b ++ (returnWord ++ rest)) =
      ⟨⟨.keyword .return_, k.withoutReturn.place (st.place.after b)⟩, "return".toList⟩ ::
        spellAll (k.state { st.moved b with operand := true }) false rest := by
  have hline : k.returnLine? = some (st.moved b).place.line := by rw [LexState.moved, Place.after_line _ hone, hk]
  have hstate : (k.withoutReturn.state st).moved b = k.withoutReturn.state (st.moved b) := by
    have hmoved := Wrapping.state_moved (k := k.withoutReturn) hindent (k.withoutReturn_pastReturn st.place) b
    rwa [indentBreaks_of_not_mem hone] at hmoved
  have hword : ({ k.withoutReturn.state (st.moved b) with operand := true } : LexState).moved returnWord =
      k.state { st.moved b with operand := true } := by
    simp only [LexState.moved, Wrapping.state] at hline ⊢
    rw [Wrapping.place_after_returnWord hline]
  rw [spellAll_blanks hb, hstate, spellAll_returnWord, hword]
  rfl

/-! ### Inside of a comment

The line starts inside of a comment, `y` being the part of the comment before the line, and `b` the blanks at its front. -/

section Comment

variable {b y : List Char} {closed : Bool}

theorem indentBreaks_returnWord (hone : '\n' ∉ b) (s : List Char) :
    indentBreaks indent (b ++ (returnWord ++ s)) = b ++ (returnWord ++ indentBreaks indent s) := by
  have hhead : (returnWord ++ s).head? = some 'r' := rfl
  have hnext : b.getLast? = some '\r' → (returnWord ++ s).head? ≠ some '\n' := fun _ => by rw [hhead]; decide
  rw [indentBreaks_append hnext, indentBreaks_of_not_mem hone, indentBreaks_solid_append (by decide)]

/-- A comment with its line breaks indented, and with the word put in. -/
theorem indentBreaks_comment (indent : List Char) (hy : y.getLast? = some '\n') (hone : '\n' ∉ b) (s : List Char) :
    '/' :: '*' :: indentBreaks indent (y ++ (b ++ (returnWord ++ s))) =
      indentBreaks indent ('/' :: '*' :: y) ++ (b ++ (returnWord ++ indentBreaks indent s)) := by
  have hlast : y.getLast? = some '\r' → (b ++ (returnWord ++ s)).head? ≠ some '\n' := fun hlast => by
    rw [hy] at hlast
    cases hlast
  rw [indentBreaks_append hlast, indentBreaks_returnWord hone, indentBreaks_cons_of_ne (by decide) (by decide),
    indentBreaks_cons_of_ne (by decide) (by decide)]
  rfl

theorem Wrapping.place_after_comment {p : Place} (hindent : ∀ c ∈ k.indent, c = ' ') (hone : '\n' ∉ b)
    (hk : k.returnLine? = some (p.after ('/' :: '*' :: y)).line) (s : List Char) :
    (k.withoutReturn.place p).after
        (indentBreaks k.indent ('/' :: '*' :: y) ++ (b ++ (returnWord ++ indentBreaks k.indent s))) =
      k.place (p.after ('/' :: '*' :: (y ++ (b ++ s)))) := by
  have hstart := place_after (k := k.withoutReturn) hindent (k.withoutReturn_pastReturn p) ('/' :: '*' :: y)
  rw [Place.after_append]
  exact (congrArg (Place.after · _) hstart).trans
    ((place_after_returning hindent hone hk s).trans (congrArg k.place (Place.after_append _ _ _).symm))

/-- The word does not tear the closing of the comment apart. -/
theorem CommentText.insert_returnWord (hy : y.getLast? = some '\n') (hb : ∀ c ∈ b, isBlank c = true)
    (h : CommentText closed 0 (y ++ (b ++ x))) : CommentText closed 0 (y ++ (b ++ (returnWord ++ x))) := by
  rw [← List.append_assoc] at h ⊢
  refine h.insert (by unfold IsPlain; decide) fun c hc => ?_
  have hblank : isBlank c = true := by
    rw [List.getLast?_append, hy, Option.mem_def, Option.or_eq_some_iff] at hc
    rcases hc with hc | ⟨-, hc⟩
    · exact hb c (List.mem_of_getLast? hc)
    · cases hc
      decide
  exact ⟨ne_of_isBlank hblank (by decide), ne_of_isBlank hblank (by decide)⟩

theorem CommentText.not_blank (h : CommentText true 0 (y ++ x)) (hx : x ≠ []) : ¬∀ c ∈ x, isBlank c = true := fun hblank => by
  have hlast := h.getLast?_of_closed
  rw [List.getLast?_append_of_ne_nil _ hx] at hlast
  exact absurd (hblank _ (List.mem_of_getLast? hlast)) (by decide)

/-- The comment does not end before the word. -/
theorem CommentText.exists_past_blanks (hy : y.getLast? = some '\n') (hb : ∀ c ∈ b, isBlank c = true) {rest' : List Char}
    (h : CommentText closed 0 (y ++ x)) (hrest : closed = false → rest = []) (hsplit : b ++ rest' = x ++ rest) :
    ∃ x', x = b ++ x' ∧ rest' = x' ++ rest := by
  rcases append_eq_append_cases hsplit with hsplit | ⟨s, hs, rfl, rfl⟩
  · exact hsplit
  cases closed with
  | false => exact absurd (List.append_eq_nil_iff.mp (hrest rfl)).1 hs
  | true =>
    obtain ⟨y, rfl⟩ := List.getLast?_eq_some_iff.mp hy
    rw [List.append_assoc] at h
    refine absurd (List.forall_mem_append.mpr ⟨by decide, fun c hc => ?_⟩) (h.not_blank (by simp))
    exact hb c (List.mem_append_left _ hc)

theorem later_of_returnWord (hindent : ∀ c ∈ k.indent, c = ' ')
    (hk : k.returnLine? = some (st.place.after ('/' :: '*' :: y)).line) (hy : y.getLast? = some '\n')
    (hb : ∀ c ∈ b, isBlank c = true) (hone : '\n' ∉ b) (h : CommentText false 0 (y ++ (b ++ w)))
    (htail : ∀ c ∈ tail, isBlank c = true) (hrest : CommentText.IsPlain rest)
    (ht : t ∈ spellAll (k.withoutReturn.state st) false (indentBreaks k.indent ('/' :: '*' :: y) ++
      (b ++ (returnWord ++ (indentBreaks k.indent w ++ (tail ++ '\n' :: rest)))))) :
    (k.place (st.place.after ('/' :: '*' :: (y ++ (b ++ w))))).line < t.place.line := by
  have hscript := indentBreaks_comment k.indent hy hone w
  have hopen := (h.insert_returnWord hy hb).indented hindent
  have heq : ∀ more, '/' :: '*' :: (indentBreaks k.indent (y ++ (b ++ (returnWord ++ w))) ++ more) =
      indentBreaks k.indent ('/' :: '*' :: y) ++ (b ++ (returnWord ++ (indentBreaks k.indent w ++ more))) := fun more => by
    rw [← List.cons_append, ← List.cons_append, hscript]
    simp only [List.append_assoc]
  rw [← heq] at ht
  have hlater := later_of_openComment hopen htail hrest ht
  rwa [hscript, Wrapping.state, Wrapping.place_after_comment hindent hone hk] at hlater

theorem spellAll_returnWord_comment (hindent : ∀ c ∈ k.indent, c = ' ')
    (hk : k.returnLine? = some (st.place.after ('/' :: '*' :: y)).line) (hy : y.getLast? = some '\n')
    (hb : ∀ c ∈ b, isBlank c = true) (hone : '\n' ∉ b) (h : CommentText true 0 (y ++ (b ++ x))) (more : List Char) :
    spellAll (k.withoutReturn.state st) false (indentBreaks k.indent ('/' :: '*' :: y) ++
        (b ++ (returnWord ++ (indentBreaks k.indent x ++ more)))) =
      spellAll (k.state (st.moved ('/' :: '*' :: (y ++ (b ++ x))))) false more := by
  have hscript := indentBreaks_comment k.indent hy hone x
  have hclosed := (h.insert_returnWord hy hb).indented hindent
  have heq : '/' :: '*' :: (indentBreaks k.indent (y ++ (b ++ (returnWord ++ x))) ++ more) =
      indentBreaks k.indent ('/' :: '*' :: y) ++ (b ++ (returnWord ++ (indentBreaks k.indent x ++ more))) := by
    rw [← List.cons_append, ← List.cons_append, hscript]
    simp only [List.append_assoc]
  rw [← heq, spellAll_comment hclosed nofun, hscript, LexState.moved, Wrapping.state,
    Wrapping.place_after_comment hindent hone hk]
  rfl

/-- A comment that goes on over the start of the line swallows the word. -/
theorem Lexes.swallowed (hindent : ∀ c ∈ k.indent, c = ' ')
    (hk : k.returnLine? = some (st.place.after ('/' :: '*' :: y)).line) (hy : y.getLast? = some '\n')
    (hcomment : CommentText closed 0 (y ++ x)) (hclosed : closed = false → v = [])
    (h : Lexes (st.moved ('/' :: '*' :: (y ++ x))) false v ts) (hover : b ++ (w ++ z) = x ++ v)
    (hb : ∀ c ∈ b, isBlank c = true) (hone : '\n' ∉ b) (hw : ∀ c ∈ w.getLast?, isBlank c = false)
    (hz : ∀ c ∈ z, isBlank c = true) (htail : ∀ c ∈ tail, isBlank c = true) (htailOne : '\n' ∉ tail)
    (hrest : CommentText.IsPlain rest) :
    k.RendersFrom st.place (st.place.after ('/' :: '*' :: (y ++ (b ++ w)))) ts (spellAll (k.withoutReturn.state st) false
      (indentBreaks k.indent ('/' :: '*' :: y) ++
        (b ++ (returnWord ++ (indentBreaks k.indent w ++ (tail ++ '\n' :: rest)))))) := by
  obtain ⟨x, rfl, hsplit⟩ := hcomment.exists_past_blanks hy hb hclosed hover
  cases closed with
  | false =>
    obtain rfl := hclosed rfl
    obtain rfl := h.eq_nil_of_blank (List.forall_mem_nil _)
    have hopen : CommentText false 0 ((y ++ (b ++ w)) ++ z) := by
      rw [List.append_assoc, List.append_assoc, hsplit, List.append_nil]
      exact hcomment
    exact Wrapping.rendersFrom_same (List.forall_mem_nil _) rfl fun t =>
      later_of_returnWord hindent hk hy hb hone hopen.start htail hrest
  | true =>
    obtain ⟨w, rfl, rfl⟩ : ∃ w', w = x ++ w' ∧ v = w' ++ z := by
      rcases append_eq_append_cases hsplit.symm with hsplit | ⟨s, hs, rfl, rfl⟩
      · exact hsplit
      · rw [← List.append_assoc, ← List.append_assoc] at hcomment
        exact absurd (fun c hc => hz c (List.mem_append_left _ hc)) (hcomment.not_blank hs)
    have hlast : x.getLast? = some '\r' → w.head? ≠ some '\n' := fun hreturn => by
      obtain ⟨s, rfl⟩ := List.getLast?_eq_some_iff.mp hreturn
      rw [← List.append_assoc, ← List.append_assoc] at hcomment
      exact absurd (by decide) (hcomment.not_blank (List.cons_ne_nil _ _))
    have hpast : k.PastReturn (st.moved ('/' :: '*' :: (y ++ (b ++ x)))).place := fun n hn => by
      rw [Option.some.inj (hn.symm.trans hk), ← List.cons_append, ← List.cons_append, LexState.moved_append]
      exact Place.line_le_after _ _
    have hw' : ∀ c ∈ w.getLast?, isBlank c = false := fun c hc => hw c (by rw [List.getLast?_append, hc]; rfl)
    have hsame : st.place.after ('/' :: '*' :: (y ++ (b ++ (x ++ w)))) =
        (st.moved ('/' :: '*' :: (y ++ (b ++ x)))).place.after w := by
      simp only [LexState.moved, ← Place.after_append, List.cons_append, List.append_assoc]
    have hscript := spellAll_returnWord_comment hindent hk hy hb hone hcomment
    obtain ⟨hlines, more, heq, hmore⟩ := h.trimmed hindent hpast hw' hz htail htailOne hrest
    rw [indentBreaks_append hlast, List.append_assoc, hscript, hsame]
    exact Wrapping.rendersFrom_same (fun t ht => ⟨(Place.line_le_after _ _).trans (hlines t ht).1, (hlines t ht).2⟩) heq
      hmore

end Comment

/-! ### The whole text -/

/-- The line starts outside of a comment. -/
theorem Lexes.returned_line {b : List Char} (hindent : ∀ c ∈ k.indent, c = ' ') (hk : k.returnLine? = some st.place.line)
    (h : Lexes st false (b ++ (w ++ z)) ts) (hb : ∀ c ∈ b, isBlank c = true) (hone : '\n' ∉ b)
    (hw : ∀ c ∈ w.getLast?, isBlank c = false) (hz : ∀ c ∈ z, isBlank c = true)
    (htail : ∀ c ∈ tail, isBlank c = true) (htailOne : '\n' ∉ tail) (hrest : CommentText.IsPlain rest) :
    k.RendersFrom st.place (st.place.after (b ++ w)) ts (spellAll (k.withoutReturn.state st) false
      (b ++ (returnWord ++ (indentBreaks k.indent w ++ (tail ++ '\n' :: rest))))) := by
  have hline : (st.moved b).place.line = st.place.line := Place.after_line _ hone
  have hpast : k.PastReturn (st.moved b).place := fun n hn => by rw [Option.some.inj (hn.symm.trans hk), hline]
  have hcode := h.blanks hb
  have hauthor := (hcode.trimmed hindent hpast hw hz htail htailOne hrest).1
  have hdue : k.PastReturn ({ st.moved b with operand := true } : LexState).place := hpast
  obtain ⟨hlines, more, heq, hmore⟩ := hcode.asOperand.trimmed hindent hdue hw hz htail htailOne hrest
  rw [spellAll_returning hindent hb hone hk, heq, Place.after_append]
  refine ⟨⟨⟨.keyword .return_, k.withoutReturn.place (st.place.after b)⟩, "return".toList⟩ ::
    (Formula.asOperand ts).map k.spelled, more, rfl, ?_, List.forall_mem_cons.mpr ⟨?_, List.forall_mem_map.mpr fun t ht => ?_⟩, hmore⟩
  · have hnone : ∀ t ∈ ([] : List Spelled), t.place.line < st.place.line := List.forall_mem_nil _
    exact .returned hk hnone (fun t ht => hline ▸ (hauthor t ht).1) (congrArg (· + k.above) hline)
  · exact ⟨Nat.add_le_add_right (Place.line_le_after _ _) _, Nat.add_le_add_right (Place.line_le_after _ _) _⟩
  · exact ⟨Nat.add_le_add_right (hline ▸ (hlines t ht).1) _, Nat.add_le_add_right (hlines t ht).2 _⟩

/-- **The tokens of an expression that gets `return`.** They are the author's, with `return` before the first one on its
line, unless the line starts inside of a comment. -/
theorem Lexes.returned {b : List Char} (hindent : ∀ c ∈ k.indent, c = ' ')
    (hk : k.returnLine? = some (st.place.after u).line) (h : Lexes st false (u ++ (b ++ (w ++ z))) ts)
    (hspan : ∀ t ∈ ts, t.place.line < (st.place.after u).line → (t.place.after t.spelling).line < (st.place.after u).line)
    (hu : u = [] ∨ u.getLast? = some '\n') (hb : ∀ c ∈ b, isBlank c = true) (hone : '\n' ∉ b)
    (hw : ∃ c ∈ w.getLast?, isBlank c = false) (hz : ∀ c ∈ z, isBlank c = true)
    (htail : ∀ c ∈ tail, isBlank c = true) (htailOne : '\n' ∉ tail) (hrest : CommentText.IsPlain rest) :
    k.RendersFrom st.place (st.place.after (u ++ (b ++ w))) ts (spellAll (k.withoutReturn.state st) false
      (indentBreaks k.indent u ++ (b ++ (returnWord ++ (indentBreaks k.indent w ++ (tail ++ '\n' :: rest)))))) := by
  obtain ⟨c, hc, hsolid⟩ := hw
  have hw : ∀ d ∈ w.getLast?, isBlank d = false := fun d hd => Option.mem_unique hc hd ▸ hsolid
  have hwne : w ≠ [] := List.ne_nil_of_mem (List.mem_of_getLast? hc)
  have hcut : ∀ q', Cut st.place (b ++ (w ++ z)) q' ts false u := fun q' => by
    rcases hu with rfl | hu
    · exact .start
    · exact .line hu hspan
  obtain ⟨ts₁, ts₂, st', v, rfl, hpassed, hleft⟩ := h.passed (k := k.withoutReturn) hindent rfl
    (k.withoutReturn_pastReturn _)
    (hcut (b ++ (returnWord ++ (indentBreaks k.indent w ++ (tail ++ '\n' :: rest)))))
  have hbefore := hpassed.line_lt hu
  have hreturn : ∀ t ∈ ts₁, ∀ n, k.returnLine? = some n → t.place.line < n := fun t ht n hn => by
    rw [Option.some.inj (hn.symm.trans hk)]
    exact hbefore t ht
  have hlines : ∀ t ∈ ts₁, st.place.line ≤ t.place.line ∧ t.place.line ≤ (st.place.after (u ++ (b ++ w))).line :=
    fun t ht => by
      rw [Place.after_append]
      exact ⟨(hpassed.lines t ht).1, (hbefore t ht).le.trans (Place.line_le_after _ _)⟩
  have hsame : ts₁.map k.withoutReturn.spelled = ts₁.map k.spelled := List.map_congr_left fun t ht =>
    Wrapping.spelled_withoutReturn fun hn => (hreturn t ht _ hn).false
  have hscript := hpassed.script
  rw [hsame] at hscript
  obtain ⟨v', rfl, hplace, -⟩ := hpassed.author
  have hafter : st.place.after (v' ++ v) = st'.place.after v := by rw [Place.after_append, hplace]
  have hmiddle : st.place.line ≤ st'.place.line := hplace ▸ Place.line_le_after _ _
  have hlast : st.place.after (v' ++ v ++ (b ++ w)) = st'.place.after (v ++ (b ++ w)) := by
    rw [Place.after_append, hafter, ← Place.after_append]
  rw [hafter] at hk
  rw [hlast] at hlines ⊢
  refine Eq.mpr (congrArg _ hscript) (.append hlines hmiddle hreturn ?_)
  rcases hleft with ⟨rfl, hrest'⟩ | ⟨hhead, x, more, hsplit, hx, hskips, hrest'⟩
  · exact hrest'.returned_line hindent hk hb hone hw hz htail htailOne hrest
  · have hv : v ≠ [] := by
      rintro rfl
      cases hhead
    have hfeed := hu.resolve_left fun hnil => hv (List.append_eq_nil_iff.mp hnil).2
    rw [List.getLast?_append_of_ne_nil _ hv] at hfeed
    have hx' : x ≠ [] := by
      rintro rfl
      rw [hx.resolve_left (absurd rfl)] at hsplit
      exact hwne (List.append_eq_nil_iff.mp (List.append_eq_nil_iff.mp hsplit).2).1
    obtain ⟨closed, y, rfl, hy, hcomment, hclosed⟩ := hskips.comment_of_feed hhead hfeed hx'
    exact hrest'.swallowed hindent hk hy hcomment hclosed hsplit hb hone hw hz htail htailOne hrest

end Worksheet.Formula
