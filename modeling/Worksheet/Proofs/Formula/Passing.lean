import Worksheet.Proofs.Formula.Rewrapping
/-!
# Passing an indented text

The lexer passes a text with its lines indented as it passes the text, up to a cut.

* `Skips.indented`: what is skipped is skipped with its line breaks indented;
* `Cut`: where a text may be cut;
* `Cut.lexeme`: a lexeme before the cut, in the text and in the script;
* `Passed`, **`Lexes.passed`**: all lexemes before the cut.
-/

namespace Worksheet.Formula

open Worksheet.Text

variable {indent u u' v v' w q q' rest : List Char} {ts : List Spelled}

/-! ## Blanks and comments -/

theorem exists_indentBreaks_line (indent : List Char) (hw : '\n' ∉ w) :
    ∃ line, '\n' ∉ line ∧ indentBreaks indent (w ++ ['\n']) = line ++ '\n' :: indent := by
  induction w with
  | nil => exact ⟨[], List.not_mem_nil, by simp [indentBreaks]⟩
  | cons c w ih =>
    rw [List.mem_cons, not_or] at hw
    obtain ⟨line, hline, heq⟩ := ih hw.2
    by_cases hreturn : c = '\r' ∧ w = []
    · obtain ⟨rfl, rfl⟩ := hreturn
      exact ⟨[], List.not_mem_nil, by simp [indentBreaks]⟩
    · have hnext : c = '\r' → (w ++ ['\n']).head? ≠ some '\n' := by
        rintro hc
        cases w with
        | nil => exact absurd ⟨hc, rfl⟩ hreturn
        | cons d w =>
          have hd : d ≠ '\n' := fun h => hw.2 (h ▸ List.mem_cons_self)
          simpa using hd
      refine ⟨c :: line, by simp [hw.1, hline], ?_⟩
      rw [List.cons_append, indentBreaks_cons (Ne.symm hw.1) hnext, heq, List.cons_append]

/-- **What is skipped is skipped with its line breaks indented as well**, but for a comment up to the end of the text. -/
theorem Skips.indented (hindent : ∀ c ∈ indent, c = ' ') (h : Skips w rest) :
    w.head? = some '/' ∧ rest = [] ∨ (w.getLast? = some '\r' → rest.head? ≠ some '\n') ∧ ∀ st more,
      spellAll st false (indentBreaks indent w ++ more) = spellAll (st.moved (indentBreaks indent w)) false more := by
  have hblank : ∀ c ∈ '\n' :: indent, isBlank c = true := by
    rw [List.forall_mem_cons]
    exact ⟨by decide, fun c hc => by rw [hindent c hc]; decide⟩
  cases h with
  | @blank c rest hc hcut =>
    refine .inr ⟨fun hlast => hcut (by simpa using hlast), fun st more => ?_⟩
    by_cases hfeed : c = '\n'
    · subst hfeed
      rw [indentBreaks_feed, indentBreaks, List.append_nil]
      exact spellAll_blanks hblank st more
    · rw [indentBreaks_of_not_mem (by simpa using Ne.symm hfeed)]
      exact spellAll_blank hc st more
  | returnFeed =>
    refine .inr ⟨fun hlast => absurd hlast (by simp), fun st more => ?_⟩
    rw [indentBreaks_returnFeed, indentBreaks, List.append_nil]
    exact spellAll_blanks hblank st more
  | @lineComment w rest hw =>
    refine .inr ⟨fun hlast => by simp [List.getLast?_cons] at hlast, fun st more => ?_⟩
    obtain ⟨line, hline, heq⟩ := exists_indentBreaks_line indent hw
    have hindentation : ∀ c ∈ indent, isBlank c = true := (List.forall_mem_cons.mp hblank).2
    rw [indentBreaks_cons_of_ne (by decide) (by decide), indentBreaks_cons_of_ne (by decide) (by decide), heq,
      List.cons_append, List.cons_append, List.append_assoc, List.cons_append, spellAll_lineComment hline,
      spellAll_blanks hindentation, ← LexState.moved_append]
    simp
  | lastComment => exact .inl ⟨rfl, rfl⟩
  | @comment closed w rest h hrest =>
    cases closed with
    | false => exact .inl ⟨rfl, hrest rfl⟩
    | true =>
      refine .inr ⟨fun hlast => ?_, fun st more => ?_⟩
      · rw [List.getLast?_cons, List.getLast?_cons, h.getLast?_of_closed] at hlast
        cases hlast
      · rw [indentBreaks_cons_of_ne (by decide) (by decide), indentBreaks_cons_of_ne (by decide) (by decide)]
        exact spellAll_comment (h.indented hindent) (fun hopen => absurd hopen (by simp)) st

theorem Skips.head_of_append (h : Skips (u ++ v) rest) (hu : u ≠ []) (hv : v ≠ []) (hlast : u.getLast? ≠ some '\r') :
    u.head? = some '/' := by
  obtain ⟨c, u, rfl⟩ := List.exists_cons_of_ne_nil hu
  generalize hw : c :: u ++ v = w at h
  cases h with
  | blank =>
    obtain ⟨-, hnil⟩ := List.cons.inj hw
    exact absurd (List.append_eq_nil_iff.mp hnil).2 hv
  | returnFeed =>
    obtain ⟨rfl, hfeed⟩ := List.cons.inj hw
    cases u with
    | nil => exact absurd rfl hlast
    | cons d u => exact absurd (List.append_eq_nil_iff.mp (List.cons.inj hfeed).2).2 hv
  | lineComment | lastComment | comment =>
    obtain ⟨rfl, -⟩ := List.cons.inj hw
    rfl

/-- Of two ways to cut the same characters, the first one comes first, or the second one does. -/
theorem append_eq_append_cases (h : v ++ rest = u ++ q) :
    (∃ u', u = v ++ u' ∧ rest = u' ++ q) ∨ ∃ x, x ≠ [] ∧ v = u ++ x ∧ q = x ++ rest := by
  rcases List.append_eq_append_iff.mp h with ⟨u', rfl, rfl⟩ | ⟨x, rfl, rfl⟩
  · exact .inl ⟨u', rfl, rfl⟩
  · by_cases hx : x = []
    · exact .inl ⟨[], by simp [hx], by simp [hx]⟩
    · exact .inr ⟨x, hx, rfl, rfl⟩

/-! ## Cuts -/

/-- Where a text is cut in two: at its start or after a line feed, with no token reaching over the cut, or before
blanks. What comes next in the script may differ. -/
inductive Cut (place : Place) (q q' : List Char) (ts : List Spelled) : Bool → List Char → Prop
  | start : Cut place q q' ts false []
  | line {resume : Bool} {u : List Char} (hu : u.getLast? = some '\n')
    (hts : ∀ t ∈ ts, t.place.line < (place.after u).line → (t.place.after t.spelling).line < (place.after u).line) :
    Cut place q q' ts resume u
  | blank {resume : Bool} {u : List Char} (hu : u.getLast? ≠ some '\r') (hq : ∀ c ∈ q, isBlank c = true)
    (hq' : BlankHead q') : Cut place q q' ts resume u

variable {place : Place} {resume resume' : Bool}

/-- The cut stays where it is when the lexer goes on from `v` to `w`. -/
theorem Cut.drop {ts' : List Spelled} (h : Cut place q q' ts resume (v ++ w)) (hv : v ≠ [])
    (hlast : v.getLast? = some '\n' → resume' = false) (hsub : ts' ⊆ ts) : Cut (place.after v) q q' ts' resume' w := by
  have hw : w ≠ [] → (v ++ w).getLast? = w.getLast? := List.getLast?_append_of_ne_nil v
  generalize hu : v ++ w = u at h hw
  cases h with
  | start => exact absurd (List.append_eq_nil_iff.mp hu).1 hv
  | line hu' hts =>
    subst hu
    by_cases hnil : w = []
    · rw [hnil, List.append_nil] at hu'
      rw [hnil, hlast hu']
      exact .start
    · rw [Place.after_append] at hts
      exact .line (hw hnil ▸ hu') fun t ht => hts t (hsub ht)
  | blank hu' hq hq' =>
    refine .blank ?_ hq hq'
    by_cases hnil : w = []
    · rw [hnil]
      nofun
    · exact hw hnil ▸ hu'

/-- The cut does not tear a line break apart. -/
theorem Cut.last (h : Cut place q q' ts resume u) : u.getLast? ≠ some '\r' := by
  cases h with
  | start => nofun
  | line hu' =>
    rw [hu']
    decide
  | blank hu' => exact hu'

theorem Cut.blankHead (h : Cut place q q' ts resume u) (hu : u ≠ []) :
    u.getLast? = some '\n' ∨ BlankHead q ∧ BlankHead q' := by
  cases h with
  | start => exact absurd rfl hu
  | line hu' => exact .inl hu'
  | blank _ hq hq' => exact .inr ⟨fun c hc => hq c (List.mem_of_head? hc), hq'⟩

/-! ## One lexeme -/

/-- A lexeme before the cut, in the text and in the script: `w` are its characters, and `u` those up to the cut. -/
structure SameLexeme (k : Wrapping) (st : LexState) (resume : Bool) (u q' w u' : List Char) (token : Token) : Prop where
  split : u = w ++ u'
  indented : indentBreaks k.indent u = indentBreaks k.indent w ++ indentBreaks k.indent u'
  last : ∀ c ∈ w.getLast?, isBlank c = false
  start : resume = true ∨ skipLength (indentBreaks k.indent u ++ q') = 0
  lexeme : ∃ offset, lexemeAt resume st.operand (k.place st.place).column (indentBreaks k.indent u ++ q') =
    ⟨(k.spelled ⟨⟨token, st.place⟩, w⟩).token, (indentBreaks k.indent w).length, offset⟩
  alike : token.Alike (k.spelled ⟨⟨token, st.place⟩, w⟩).token

variable {k : Wrapping} {st : LexState} {token : Token} {offset : Nat}

theorem skipLength_eq_zero_iff (cs : List Char) :
    skipLength cs = 0 ↔ (∀ c ∈ cs.head?, isBlank c = false) ∧ ['/', '/'].isPrefixOf cs = false ∧
      ['/', '*'].isPrefixOf cs = false := by
  unfold skipLength
  split
  · simp
  · simp
  · rename_i hline hcomment
    have hno : ∀ d, (∀ rest, cs = '/' :: d :: rest → False) → ['/', d].isPrefixOf cs = false := fun d h => by
      by_contra hprefix
      obtain ⟨rest, rfl⟩ := List.isPrefixOf_iff_prefix.mp (Bool.not_eq_false _ ▸ hprefix)
      exact h rest rfl
    rw [hno '/' hline, hno '*' hcomment]
    cases cs with
    | nil => simp
    | cons c cs => cases hc : isBlank c <;> simp [hc]

theorem blankHead_append (hu : u ≠ []) (h : BlankHead u) (q : List Char) : BlankHead (u ++ q) := by
  rw [BlankHead, List.head?_append_of_ne_nil _ hu]
  exact h

theorem indentBreaks_ne_nil (hu : u ≠ []) : indentBreaks indent u ≠ [] := by
  fun_cases indentBreaks indent u with
  | case1 => exact absurd rfl hu
  | _ => exact List.cons_ne_nil _ _

theorem blankHead_indentBreaks (h : BlankHead u) : BlankHead (indentBreaks indent u) := by
  fun_cases indentBreaks indent u with
  | case1 => exact h
  | case2 | case3 => exact blankHead_cons (by decide) _
  | case4 => exact h

theorem exists_append_of_length_le (h : w ++ rest = u ++ q) (hle : w.length ≤ u.length) :
    ∃ u', u = w ++ u' ∧ rest = u' ++ q := by
  rcases append_eq_append_cases h with hsplit | ⟨x, hx, rfl, rfl⟩
  · exact hsplit
  · have := List.length_pos_of_ne_nil hx
    rw [List.length_append] at hle
    omega

theorem skipLength_append_blank {v v' : List Char} (hv : BlankHead v) (hv' : BlankHead v')
    (h : skipLength (c :: w ++ v) = 0) : skipLength (c :: w ++ v') = 0 := by
  obtain ⟨hblank, hline, hblock⟩ := (skipLength_eq_zero_iff _).mp h
  refine (skipLength_eq_zero_iff _).mpr ⟨hblank, ?_, ?_⟩
  · rwa [isPrefixOf_append_blank (by decide) _ hv', ← isPrefixOf_append_blank (by decide) _ hv]
  · rwa [isPrefixOf_append_blank (by decide) _ hv', ← isPrefixOf_append_blank (by decide) _ hv]

theorem Cut.blankHead_of_append (hcut : Cut p q q' ts false (u ++ v)) (hne : u ++ v ≠ [])
    (hu : ∀ c ∈ u, isBlank c = false) (hv : BlankHead v) :
    BlankHead (v ++ q) ∧ BlankHead (indentBreaks indent v ++ q') := by
  by_cases hnil : v = []
  · subst hnil
    rcases hcut.blankHead hne with hlast | hnext
    · rw [List.append_nil] at hlast
      exact absurd (hu _ (List.mem_of_getLast? hlast)) (by decide)
    · exact hnext
  · have hnil' : indentBreaks indent v ≠ [] := indentBreaks_ne_nil hnil
    exact ⟨blankHead_append hnil hv q, blankHead_append hnil' (blankHead_indentBreaks hv) q'⟩

/-- A lexeme that is no text. -/
theorem Cut.plainLexeme (hcut : Cut st.place q q' ts false u) (hu : u ≠ []) (hstart : skipLength (u ++ q) = 0)
    (htext : ∀ c ∈ u.head?, opensText c = false)
    (hl : lexemeAt false st.operand st.place.column (u ++ q) = ⟨token, w.length, offset⟩) (hcs : w ++ rest = u ++ q) :
    ∃ u', rest = u' ++ q ∧ SameLexeme k st false u q' w u' token := by
  -- the characters up to the next blank
  obtain ⟨s, u₁, rfl, hs, hu₁⟩ : ∃ s u₁, u = s ++ u₁ ∧ (∀ c ∈ s, isBlank c = false) ∧ BlankHead u₁ := by
    simpa [BlankHead] using exists_span (!isBlank ·) u
  have hbreak : ∀ c ∈ s, c ≠ '\n' ∧ c ≠ '\r' := fun c hc => by
    constructor <;> rintro rfl <;> exact absurd (hs _ hc) (by decide)
  have hnext : BlankHead (u₁ ++ q) ∧ BlankHead (indentBreaks k.indent u₁ ++ q') := hcut.blankHead_of_append hu hs hu₁
  cases s with
  | nil =>
    obtain ⟨c, u₁, rfl⟩ := List.exists_cons_of_ne_nil hu
    have hblank := hu₁ c rfl
    rw [((skipLength_eq_zero_iff _).mp hstart).1 c rfl] at hblank
    cases hblank
  | cons c s =>
    have hc : opensText c = false := htext c rfl
    have hauthor := nextLexeme_append hc st.operand st.place.column st.place.column s hnext.1
    have hscript := nextLexeme_append hc st.operand (k.place st.place).column st.place.column s hnext.2
    have hlexeme : nextLexeme st.operand st.place.column (c :: s) = ⟨token, w.length, offset⟩ := by
      rw [← hauthor, ← hl, List.append_assoc]
      rfl
    have hbounds := nextLexeme_bounds hc st.operand st.place.column s
    rw [hlexeme] at hbounds
    rw [List.append_assoc] at hcs
    obtain ⟨s₂, hsplit, rfl⟩ := exists_append_of_length_le hcs hbounds.2
    have hw : ∀ c ∈ w, isBlank c = false := fun d hd => hs d (hsplit ▸ List.mem_append_left _ hd)
    have hwfeed : '\n' ∉ w := fun hmem => absurd (hw _ hmem) (by decide)
    have hindented : indentBreaks k.indent (c :: s ++ u₁) = c :: s ++ indentBreaks k.indent u₁ :=
      indentBreaks_solid_append hbreak u₁
    have hspelled : (k.spelled ⟨⟨token, st.place⟩, w⟩).token = token := if_pos hwfeed
    refine ⟨s₂ ++ u₁, by rw [List.append_assoc], ?_, ?_, ?_, ?_, ?_, ?_⟩
    · rw [hsplit, List.append_assoc]
    · have hbreak₂ : ∀ c ∈ s₂, c ≠ '\n' ∧ c ≠ '\r' := fun d hd => hbreak d (hsplit ▸ List.mem_append_right _ hd)
      rw [hindented, indentBreaks_of_not_mem hwfeed, indentBreaks_solid_append hbreak₂, ← List.append_assoc, ← hsplit]
    · exact fun d hd => hw d (List.mem_of_getLast? hd)
    · rw [hindented, List.append_assoc]
      rw [List.append_assoc] at hstart
      exact .inr (skipLength_append_blank hnext.1 hnext.2 hstart)
    · refine ⟨offset, ?_⟩
      rw [hindented, hspelled, indentBreaks_of_not_mem hwfeed, ← hlexeme, ← hscript, List.append_assoc]
      rfl
    · rw [hspelled]
      exact .refl _

/-- What comes next starts with the same character, unless it is a blank. -/
def SameHead (v v' : List Char) : Prop :=
  ∀ c, isBlank c = false → (v.head? = some c ↔ v'.head? = some c)

theorem sameHead_of_blankHead (hv : BlankHead v) (hw : BlankHead w) : SameHead v w := fun c hc => by
  constructor <;> intro hhead
  · exact absurd (hv c hhead) (by simp [hc])
  · exact absurd (hw c hhead) (by simp [hc])

theorem sameHead_indentBreaks (hu : u ≠ []) (q q' : List Char) : SameHead (u ++ q) (indentBreaks indent u ++ q') := by
  intro c hc
  rw [List.head?_append_of_ne_nil _ hu, List.head?_append_of_ne_nil _ (indentBreaks_ne_nil hu)]
  by_cases hfeed : (indentBreaks indent u).head? = some '\n'
  · have hblank : BlankHead u := by
      obtain ⟨rest, rfl | rfl⟩ := eq_of_head?_indentBreaks hfeed
      · exact blankHead_cons (by decide) _
      · exact blankHead_cons (by decide) _
    exact sameHead_of_blankHead hblank (blankHead_indentBreaks hblank) c hc
  · rw [head?_indentBreaks hfeed]

theorem SpellsText.follow_congr {tokenAt : Nat → Token} {follow : List Char → Prop} (hhead : SameHead v v')
    (h : SpellsText resume w tokenAt follow) (hv : follow v) : follow v' := by
  cases h with
  | quoted => exact fun heq => hv ((hhead _ (by decide)).mpr heq)
  | char => exact fun heq => hv ((hhead _ (by decide)).mpr heq)
  | @verbatim _ _ _ ending | @piece _ _ ending =>
    cases ending with
    | closed => exact fun heq => hv ((hhead _ (by decide)).mpr heq)
    | block => exact (hhead _ (by decide)).mp hv
    | missing | badEscape => exact hv.elim

theorem SpellsText.last {tokenAt : Nat → Token} {follow : List Char → Prop} (h : SpellsText resume w tokenAt follow) :
    ∀ c ∈ w.getLast?, isBlank c = false := by
  have hquotes : isBlank '\"' = false ∧ isBlank '\'' = false ∧ isBlank backQuote = false ∧ isBlank '$' = false := by decide
  cases h with
  | quoted h => simp [List.getLast?_cons, h.getLast?, hquotes]
  | char h => simp [List.getLast?_cons, h.getLast?, hquotes]
  | verbatim _ h => rcases h.getLast? with hlast | hlast <;> simp [List.getLast?_cons, List.getLast?_append, hlast, hquotes]
  | piece h => rcases h.getLast? with hlast | hlast <;> simp [hlast, hquotes]

theorem SpellsText.skipLength_append {tokenAt : Nat → Token} {follow : List Char → Prop}
    (h : SpellsText false w tokenAt follow) (rest : List Char) : skipLength (indentBreaks indent w ++ rest) = 0 := by
  cases h with
  | quoted | char | verbatim =>
    rw [indentBreaks_cons_of_ne (by decide) (by decide)]
    exact skipLength_of_head (by decide) (by decide) _

theorem Place.line_lt_after {p : Place} (hu : '\n' ∈ u) : p.line < (p.after u).line := by
  obtain ⟨v, w, rfl⟩ := List.append_of_mem hu
  rw [← List.singleton_append, ← List.append_assoc, Place.after_append, Place.after_append]
  have hfeed : ((p.after v).after ['\n']).line = (p.after v).line + 1 := rfl
  have hbefore := p.line_le_after v
  have hafter := ((p.after v).after ['\n']).line_le_after w
  omega

/-- A text. -/
theorem Cut.textLexeme {tokenAt : Nat → Token} {follow : List Char → Prop} (hindent : ∀ c ∈ k.indent, c = ' ')
    (hcut : Cut st.place q q' (⟨⟨tokenAt st.place.column, st.place⟩, w⟩ :: ts) resume u)
    (hu : resume = false → u ≠ []) (h : SpellsText resume w tokenAt follow) (hrest : follow rest)
    (hcs : w ++ rest = u ++ q) :
    ∃ u', rest = u' ++ q ∧ SameLexeme k st resume u q' w u' (tokenAt st.place.column) := by
  obtain ⟨u', rfl, rfl⟩ : ∃ u', u = w ++ u' ∧ rest = u' ++ q := by
    rcases append_eq_append_cases hcs with hsplit | ⟨x, hx, rfl, rfl⟩
    · exact hsplit
    · -- no text goes on after the cut
      have hlast := h.last
      rw [List.getLast?_append_of_ne_nil u hx] at hlast
      cases hcut with
      | start => exact absurd rfl (hu rfl)
      | line hu' hts =>
        have hover := hts _ List.mem_cons_self (Place.line_lt_after (List.mem_of_getLast? hu'))
        simp only [Place.after_append] at hover
        exact absurd (Place.line_le_after _ x) (Nat.not_le.mpr hover)
      | blank _ hq =>
        have hmem := List.getLast_mem hx
        have hsolid := hlast _ (List.getLast?_eq_some_getLast hx)
        rw [hq _ (List.mem_append_left _ hmem)] at hsolid
        cases hsolid
  have hwu : w ++ u' ≠ [] := fun heq => h.ne_nil (List.append_eq_nil_iff.mp heq).1
  have hhead : SameHead (u' ++ q) (indentBreaks k.indent u' ++ q') := by
    by_cases hnil : u' = []
    · subst hnil
      rcases hcut.blankHead hwu with hlast | ⟨hq, hq'⟩
      · rw [List.append_nil] at hlast
        exact absurd (h.last _ hlast) (by decide)
      · exact sameHead_of_blankHead hq hq'
    · exact sameHead_indentBreaks hnil q q'
  have hindented : indentBreaks k.indent (w ++ u') = indentBreaks k.indent w ++ indentBreaks k.indent u' :=
    indentBreaks_append fun hlast => absurd (h.last _ hlast) (by decide)
  obtain ⟨tokenAt', h', halike, htoken⟩ := h.rewrapped hindent
  refine ⟨u', rfl, rfl, hindented, h.last, ?_, ⟨0, ?_⟩, ?_⟩
  · cases resume with
    | true => exact .inl rfl
    | false =>
      rw [hindented, List.append_assoc]
      exact .inr (h.skipLength_append _)
  · rw [hindented, List.append_assoc, h'.lexemeAt (h.follow_congr hhead hrest)]
    exact congrArg (Lexeme.mk · _ 0) (htoken st.place _)
  · have hspelled : (k.spelled ⟨⟨tokenAt st.place.column, st.place⟩, w⟩).token = tokenAt' _ := (htoken st.place _).symm
    rw [hspelled]
    exact halike _ _

/-- A lexeme before the cut, in the text and in the script. -/
theorem Cut.lexeme (hindent : ∀ c ∈ k.indent, c = ' ') (hcut : Cut st.place q q' (⟨⟨token, st.place⟩, w⟩ :: ts) resume u)
    (hu : resume = false → u ≠ []) (hstart : resume = true ∨ skipLength (w ++ rest) = 0)
    (hl : lexemeAt resume st.operand st.place.column (w ++ rest) = ⟨token, w.length, offset⟩)
    (hproper : token.isProper = true) (hcs : w ++ rest = u ++ q) :
    ∃ u', rest = u' ++ q ∧ SameLexeme k st resume u q' w u' token := by
  have htoken : (lexemeAt resume st.operand st.place.column (w ++ rest)).token.isProper = true := by
    rw [hl]
    exact hproper
  by_cases htext : resume = true ∨ ∃ c ∈ (w ++ rest).head?, opensText c = true
  · obtain ⟨w', rest', tokenAt, follow, heq, h, hrest⟩ := exists_spellsText htext htoken
    rw [heq, h.lexemeAt hrest, Lexeme.mk.injEq] at hl
    obtain ⟨rfl, hlength, -⟩ := hl
    obtain ⟨rfl, rfl⟩ := List.append_inj heq hlength.symm
    exact hcut.textLexeme hindent hu h hrest hcs
  · obtain ⟨hresume, hhead⟩ := not_or.mp htext
    obtain rfl : resume = false := by simpa using hresume
    have hstart := hstart.resolve_left nofun
    rw [hcs] at hl hstart hhead
    rw [List.head?_append_of_ne_nil _ (hu rfl)] at hhead
    exact hcut.plainLexeme (hu rfl) hstart (by simpa using hhead) hl hcs

/-! ## All lexemes -/

/-- The lexer has passed the characters of `u` up to `w`, with these tokens; and it has passed the indented characters
of the script, with the tokens of the script. -/
structure Passed (k : Wrapping) (q' : List Char) (st : LexState) (resume : Bool) (u : List Char) (ts : List Spelled)
    (st' : LexState) (w : List Char) : Prop where
  author : ∃ v, u = v ++ w ∧ st'.place = st.place.after v ∧
    ∀ t ∈ ts, ∃ x y, v = x ++ y ∧ y ≠ [] ∧ t.place = st.place.after x
  script : spellAll (k.state st) resume (indentBreaks k.indent u ++ q') =
    ts.map k.spelled ++ spellAll (k.state st') false (indentBreaks k.indent w ++ q')
  operand : st'.operand = ((ts.getLast?.map fun t => t.token.expectsOperand).getD st.operand)
  blocks : st'.blocks = ts.foldl (fun blocks t => (LexState.countBrace blocks t.token).1) st.blocks

variable {st' : LexState}

namespace Passed

theorem refl (k : Wrapping) (q' : List Char) (st : LexState) (u : List Char) : Passed k q' st false u [] st u :=
  ⟨⟨[], rfl, rfl, List.forall_mem_nil _⟩, rfl, rfl, rfl⟩

/-- Blanks or a comment come first. -/
theorem skip (hindent : ∀ c ∈ k.indent, c = ' ') (hk : k.PastReturn st.place)
    (hbreak : v.getLast? = some '\r' → u.head? ≠ some '\n')
    (hv : ∀ st more, spellAll st false (indentBreaks k.indent v ++ more) =
      spellAll (st.moved (indentBreaks k.indent v)) false more)
    (h : Passed k q' (st.moved v) false u ts st' w) : Passed k q' st false (v ++ u) ts st' w := by
  obtain ⟨⟨x, rfl, hplace, hts⟩, hscript, hoperand, hblocks⟩ := h
  refine ⟨⟨v ++ x, (List.append_assoc _ _ _).symm, ?_, fun t ht => ?_⟩, ?_, hoperand, hblocks⟩
  · rw [Place.after_append]
    exact hplace
  · obtain ⟨y, z, rfl, hz, ht⟩ := hts t ht
    exact ⟨v ++ y, z, (List.append_assoc _ _ _).symm, hz, by rw [Place.after_append]; exact ht⟩
  · rw [indentBreaks_append hbreak, List.append_assoc, hv, Wrapping.state_moved hindent hk]
    exact hscript

theorem lexeme (hindent : ∀ c ∈ k.indent, c = ' ') (hk : k.PastReturn st.place) (hv : v ≠ [])
    (hproper : token.isProper = true) (hsame : SameLexeme k st resume u q' v u' token)
    (h : Passed k q' (st.fed token v) (st.closes token) u' ts st' w) :
    Passed k q' st resume u (⟨⟨token, st.place⟩, v⟩ :: ts) st' w := by
  obtain ⟨⟨x, rfl, hplace, hts⟩, hscript, hoperand, hblocks⟩ := h
  refine ⟨⟨v ++ x, by rw [hsame.split, List.append_assoc], ?_, List.forall_mem_cons.mpr ⟨?_, fun t ht => ?_⟩⟩, ?_, ?_,
    hblocks⟩
  · rw [Place.after_append]
    exact hplace
  · exact ⟨[], v ++ x, rfl, fun heq => hv (List.append_eq_nil_iff.mp heq).1, rfl⟩
  · obtain ⟨y, z, rfl, hz, ht⟩ := hts t ht
    exact ⟨v ++ y, z, (List.append_assoc _ _ _).symm, hz, by rw [Place.after_append]; exact ht⟩
  · obtain ⟨offset, hl⟩ := hsame.lexeme
    have hstart := hsame.start
    have halike := hsame.alike
    rw [hsame.indented, List.append_assoc] at hl hstart ⊢
    have hcloses : (k.state st).closes (k.spelled ⟨⟨token, st.place⟩, v⟩).token = st.closes token :=
      congrArg Prod.snd (halike.braces st.blocks)
    have hround : spellAll (k.state st) resume _ = _ := spellAll_lexeme hstart hl (halike.proper.trans hproper)
    rw [hround, Wrapping.state_fed hindent hk halike, hcloses, hscript]
    rfl
  · rw [hoperand, List.getLast?_cons]
    cases ts.getLast? <;> rfl

theorem lines (h : Passed k q' st resume u ts st' w) :
    ∀ t ∈ ts, st.place.line ≤ t.place.line ∧ t.place.line ≤ (st.place.after u).line := by
  obtain ⟨v, rfl, -, hts⟩ := h.author
  intro t ht
  obtain ⟨x, y, rfl, -, hplace⟩ := hts t ht
  rw [hplace, List.append_assoc, Place.after_append]
  exact ⟨Place.line_le_after _ _, Place.line_le_after _ _⟩

theorem line_lt (hu : u = [] ∨ u.getLast? = some '\n')
    (h : Passed k q' st resume u ts st' w) : ∀ t ∈ ts, t.place.line < (st.place.after u).line := by
  obtain ⟨v, rfl, -, hts⟩ := h.author
  intro t ht
  obtain ⟨x, y, rfl, hy, hplace⟩ := hts t ht
  rw [List.append_assoc] at hu
  have hne : y ++ w ≠ [] := fun hnil => hy (List.append_eq_nil_iff.mp hnil).1
  have hlast := hu.resolve_left fun hnil => hne (List.append_eq_nil_iff.mp hnil).2
  rw [List.getLast?_append_of_ne_nil _ hne] at hlast
  rw [hplace, List.append_assoc, Place.after_append]
  exact Place.line_lt_after (List.mem_of_getLast? hlast)

end Passed

/-- **The lexer passes an indented text as it passes the text, up to a cut.** What is left before the cut is nothing, or
the start of a comment that goes on after the cut. -/
theorem Lexes.passed {cs : List Char} (hindent : ∀ c ∈ k.indent, c = ' ') (h : Lexes st resume cs ts)
    (hcs : cs = u ++ q) (hk : k.PastReturn st.place) (hcut : Cut st.place q q' ts resume u) :
    ∃ ts₁ ts₂ st' w, ts = ts₁ ++ ts₂ ∧ Passed k q' st resume u ts₁ st' w ∧
      (w = [] ∧ Lexes st' false q ts₂ ∨ w.head? = some '/' ∧ ∃ x rest, q = x ++ rest ∧ (x ≠ [] ∨ rest = []) ∧
        Skips (w ++ x) rest ∧ Lexes (st'.moved (w ++ x)) false rest ts₂) := by
  induction h generalizing u with
  | @done st =>
    obtain ⟨rfl, rfl⟩ := List.append_eq_nil_iff.mp hcs.symm
    exact ⟨[], [], st, [], rfl, .refl k q' st [], .inl ⟨rfl, .done⟩⟩
  | @skip st v rest ts hv h ih =>
    by_cases hu : u = []
    · subst hu
      obtain rfl : v ++ rest = q := hcs
      exact ⟨[], ts, st, [], rfl, .refl k q' st [], .inl ⟨rfl, .skip hv h⟩⟩
    rcases hv.indented hindent with ⟨hhead, rfl⟩ | ⟨hbreak, hscript⟩
    · obtain rfl : v = u ++ q := (List.append_nil v).symm.trans hcs
      rw [List.head?_append_of_ne_nil _ hu] at hhead
      exact ⟨[], ts, st, u, rfl, .refl k q' st u, .inr ⟨hhead, q, [], (List.append_nil q).symm, .inr rfl, hv, h⟩⟩
    rcases append_eq_append_cases hcs with ⟨u', rfl, rfl⟩ | ⟨x, hx, rfl, rfl⟩
    · have hnext : v.getLast? = some '\r' → u'.head? ≠ some '\n' := fun hlast hhead => hbreak hlast (by
        rw [List.head?_append, hhead, Option.some_or])
      obtain ⟨ts₁, ts₂, st', w, rfl, hpassed, hrest⟩ :=
        ih rfl (hk.after v) (hcut.drop hv.ne_nil (fun _ => rfl) (List.Subset.refl _))
      exact ⟨ts₁, ts₂, st', w, rfl, hpassed.skip hindent hk hnext hscript, hrest⟩
    · have hhead := hv.head_of_append hu hx hcut.last
      exact ⟨[], ts, st, u, rfl, .refl k q' st u, .inr ⟨hhead, x, rest, rfl, .inl hx, hv, h⟩⟩
  | @lexeme st resume v rest token offset ts hstart hl hproper h ih =>
    by_cases hu : resume = false ∧ u = []
    · obtain ⟨rfl, rfl⟩ := hu
      obtain rfl : v ++ rest = q := hcs
      exact ⟨[], _, st, [], rfl, .refl k q' st [], .inl ⟨rfl, .lexeme hstart hl hproper h⟩⟩
    obtain ⟨u', rfl, hsame⟩ := hcut.lexeme hindent (fun hresume hnil => hu ⟨hresume, hnil⟩) hstart hl hproper hcs
    have hv : v ≠ [] := ne_nil_of_lexemeAt hl hproper
    have hlast : v.getLast? = some '\n' → st.closes token = false := fun hlast =>
      absurd (hsame.last _ hlast) (by decide)
    rw [hsame.split] at hcut
    obtain ⟨ts₁, ts₂, st', w, rfl, hpassed, hrest⟩ := ih rfl (hk.after v) (hcut.drop hv hlast (List.subset_cons_self _ _))
    exact ⟨_ :: ts₁, ts₂, st', w, rfl, hpassed.lexeme hindent hk hv hproper hsame, hrest⟩

end Worksheet.Formula
