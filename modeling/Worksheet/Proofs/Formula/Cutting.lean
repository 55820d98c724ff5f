import Mathlib.Data.List.Forall2
import Worksheet.Formula.Compiled
import Worksheet.Proofs.Formula.Name
import Worksheet.Proofs.Formula.TextLiteral
/-!
# Cutting pieces of a script

What the lexer makes of a piece of a script, whatever comes after the piece. Each piece is on one line,
and all its tokens are.

* `Cuts`: a piece is cut into these tokens;
* `Cuts.append`, `Cuts.commaSeparated`: pieces one after the other;
* `Cuts.blank`, `Cuts.mark`, `Cuts.word`, `Cuts.textLiteral`: single pieces;
* **`lexFrom_lines`**: lines one after the other.
-/

namespace Worksheet.Formula

open Worksheet.Text

/-! ## Places -/

namespace Place

theorem after_append (p : Place) (v w : List Char) : p.after (v ++ w) = (p.after v).after w :=
  List.foldl_append

theorem after_line {w : List Char} (p : Place) (hw : '\n' ∉ w) : (p.after w).line = p.line := by
  induction w generalizing p with
  | nil => rfl
  | cons c w ih =>
    obtain ⟨hc, hw⟩ : '\n' ≠ c ∧ '\n' ∉ w := by simpa [not_or] using hw
    have hnext : (p.next c).line = p.line := by rw [next, if_neg (Ne.symm hc)]
    exact (ih (p.next c) hw).trans hnext

theorem after_of_not_mem {w : List Char} (p : Place) (hw : '\n' ∉ w) : p.after w = ⟨p.line, p.column + w.length⟩ := by
  induction w generalizing p with
  | nil => rfl
  | cons c w ih =>
    rw [List.mem_cons, not_or] at hw
    have hnext : p.next c = ⟨p.line, p.column + 1⟩ := if_neg (Ne.symm hw.1)
    have hafter := ih (p.next c) hw.2
    rw [hnext] at hafter
    rw [List.length_cons, Nat.add_comm w.length, ← Nat.add_assoc]
    exact (congrArg (Place.after · w) hnext).trans hafter

theorem line_le_after (p : Place) (w : List Char) : p.line ≤ (p.after w).line := by
  induction w generalizing p with
  | nil => exact Nat.le_refl _
  | cons c w ih =>
    have hnext : p.line ≤ (p.next c).line := by
      rw [next]
      split_ifs
      · exact Nat.le_succ _
      · exact Nat.le_refl _
    exact hnext.trans (ih (p.next c))

theorem eq_nil_of_after_eq {p : Place} {w : List Char} (h : p.after w = p) : w = [] := by
  by_cases hw : '\n' ∈ w
  · obtain ⟨u, v, rfl⟩ := List.append_of_mem hw
    have hle := (p.line_le_after u).trans_lt (Nat.lt_succ_self _)
    have hv := ((p.after u).next '\n').line_le_after v
    have hafter : (p.after (u ++ '\n' :: v)).line = (((p.after u).next '\n').after v).line := by
      rw [after_append]
      rfl
    rw [h] at hafter
    simp only [next, if_true] at hv hafter
    omega
  · rw [after_of_not_mem p hw] at h
    have hcolumn := congrArg column h
    exact List.eq_nil_of_length_eq_zero (by simpa using hcolumn)

end Place

/-! ## Pieces -/

/-- The tokens are these, and they start on this line. -/
def OnLine (located : List Located) (ts : List Token) (line : Nat) : Prop :=
  located.map (fun t => (t.token, t.place.line)) = ts.map (·, line)

theorem OnLine.append {located located' : List Located} {ts ts' : List Token} {line : Nat}
    (h : OnLine located ts line) (h' : OnLine located' ts' line) :
    OnLine (located ++ located') (ts ++ ts') line := by
  unfold OnLine at *
  rw [List.map_append, List.map_append, h, h']

/-- On one line, the lexer cuts the characters `w` into the tokens `ts`, whatever the rest of the script
is, as long as it starts with a character that may follow. An operand is due before the tokens if
`operand` is set, and after them if `operand'` is. -/
structure Cuts (operand : Bool) (w : List Char) (ts : List Token) (operand' : Bool)
    (follow : Char → Prop) : Prop where
  oneLine : '\n' ∉ w
  cut : ∀ place, ∃ located, OnLine located ts place.line ∧
    ∀ fuel rest, (∀ c ∈ rest.head?, follow c) → (w ++ rest).length < fuel → ∃ fuel', rest.length < fuel' ∧
      lexFrom fuel ⟨place, operand, []⟩ false (w ++ rest) =
        located ++ lexFrom fuel' ⟨place.after w, operand', []⟩ false rest

variable {operand operand₁ operand₂ : Bool} {w w' : List Char} {ws : List (List Char)}
  {ts ts' : List Token} {tss : List (List Token)} {follow follow' : Char → Prop}

namespace Cuts

theorem mono (h : Cuts operand w ts operand₁ follow) (hfollow : ∀ c, follow' c → follow c) :
    Cuts operand w ts operand₁ follow' := by
  refine ⟨h.oneLine, fun place => ?_⟩
  obtain ⟨located, hline, hcut⟩ := h.cut place
  exact ⟨located, hline, fun fuel rest hrest => hcut fuel rest fun c hc => hfollow c (hrest c hc)⟩

/-- Two pieces, the second of which may follow the first. -/
theorem append (h : Cuts operand w ts operand₁ follow) (h' : Cuts operand₁ w' ts' operand₂ follow')
    (hw : ∃ c ∈ w'.head?, follow c) : Cuts operand (w ++ w') (ts ++ ts') operand₂ follow' := by
  refine ⟨fun hmem => (List.mem_append.mp hmem).elim h.oneLine h'.oneLine, fun place => ?_⟩
  obtain ⟨located, hline, hcut⟩ := h.cut place
  obtain ⟨located', hline', hcut'⟩ := h'.cut (place.after w)
  rw [Place.after_line place h.oneLine] at hline'
  refine ⟨located ++ located', hline.append hline', fun fuel rest hrest hfuel => ?_⟩
  have hhead : ∀ c ∈ (w' ++ rest).head?, follow c := by
    obtain ⟨c, hc, hfollow⟩ := hw
    rw [List.head?_append, hc, Option.some_or]
    rintro d ⟨⟩
    exact hfollow
  rw [List.append_assoc] at hfuel
  obtain ⟨fuel₁, hfuel₁, heq₁⟩ := hcut fuel (w' ++ rest) hhead hfuel
  obtain ⟨fuel₂, hfuel₂, heq₂⟩ := hcut' fuel₁ rest hrest hfuel₁
  exact ⟨fuel₂, hfuel₂, by rw [List.append_assoc, heq₁, heq₂, Place.after_append, List.append_assoc]⟩

end Cuts

/-! ## Blanks -/

theorem skipLength_eq {c : Char} (hc : c ≠ '/') (rest : List Char) :
    skipLength (c :: rest) = ((c :: rest).takeWhile isBlank).length := by
  unfold skipLength
  split
  · rename_i heq
    exact absurd (List.cons.inj heq).1 hc
  · rename_i heq
    exact absurd (List.cons.inj heq).1 hc
  · rfl

theorem skipLength_blank {c : Char} (hc : c ≠ '/') (hblank : isBlank c = true) {rest : List Char}
    (hrest : ∀ d ∈ rest.head?, isBlank d = false) : skipLength (c :: rest) = 1 := by
  rw [skipLength_eq hc, List.takeWhile_cons_of_pos hblank]
  cases rest with
  | nil => rfl
  | cons d rest => rw [List.takeWhile_cons_of_neg (by simpa using hrest d rfl)]; rfl

theorem lexFrom_blank {c : Char} (hc : c ≠ '/') (hblank : isBlank c = true) {rest : List Char}
    (hrest : ∀ d ∈ rest.head?, isBlank d = false) (fuel : Nat) (place : Place) :
    lexFrom (fuel + 1) ⟨place, operand, []⟩ false (c :: rest) =
      lexFrom fuel ⟨place.next c, operand, []⟩ false rest := by
  rw [lexFrom]
  simp [skipLength_blank hc hblank hrest, Place.after]

theorem Cuts.blank : Cuts operand [' '] [] operand (isBlank · = false) := by
  refine ⟨by decide, fun place => ⟨[], rfl, fun fuel rest hrest hfuel => ?_⟩⟩
  obtain ⟨fuel, rfl⟩ : ∃ n, fuel = n + 1 := ⟨fuel - 1, by omega⟩
  exact ⟨fuel, by simpa using hfuel, lexFrom_blank (by decide) (by decide) hrest fuel place⟩

/-! ## Single tokens -/

/-- Neither the end of the script, nor a fault, nor a token that changes what a brace means. -/
def Token.isPlain : Token → Bool
  | .piece _ | .fault _ | .finish => false
  | _ => true

theorem countBrace_isPlain {token : Token} (h : token.isPlain = true) :
    LexState.countBrace [] token = ([], false) := by
  cases token with
  | piece s => cases h
  | mark m => cases m <;> rfl
  | _ => rfl

theorem lexFrom_lexeme {c : Char} (hc : c ≠ '/') (hblank : isBlank c = false) {rest : List Char}
    {token : Token} (hplain : token.isPlain = true) {fuel length : Nat} {place : Place}
    (hlexeme : nextLexeme operand place.column (c :: rest) = ⟨token, length, 0⟩) :
    lexFrom (fuel + 1) ⟨place, operand, []⟩ false (c :: rest) =
      ⟨token, place⟩ :: lexFrom fuel ⟨place.after ((c :: rest).take length), token.expectsOperand, []⟩ false
        ((c :: rest).drop length) := by
  have hskip : skipLength (c :: rest) = 0 := by
    rw [skipLength_eq hc, List.takeWhile_cons_of_neg (by simp [hblank])]
    rfl
  rw [lexFrom]
  simp only [hskip, hlexeme, Bool.false_eq_true, if_false, ne_eq, not_true_eq_false]
  cases token with
  | piece s => cases hplain
  | fault f => cases hplain
  | finish => cases hplain
  | _ => simp only [countBrace_isPlain hplain]

namespace Cuts

theorem lexeme {c : Char} {token : Token} (hc : c ≠ '/') (hblank : isBlank c = false)
    (hplain : token.isPlain = true) (honeLine : '\n' ∉ c :: w)
    (hlexeme : ∀ column rest, (∀ d ∈ rest.head?, follow d) →
      nextLexeme operand column (c :: w ++ rest) = ⟨token, (c :: w).length, 0⟩) :
    Cuts operand (c :: w) [token] token.expectsOperand follow := by
  refine ⟨honeLine, fun place => ⟨[⟨token, place⟩], rfl, fun fuel rest hrest hfuel => ?_⟩⟩
  obtain ⟨fuel, rfl⟩ : ∃ n, fuel = n + 1 := ⟨fuel - 1, by omega⟩
  refine ⟨fuel, ?_, ?_⟩
  · simp only [List.cons_append, List.length_cons, List.length_append] at hfuel
    omega
  · have hnext : nextLexeme operand place.column (c :: (w ++ rest)) = ⟨token, (c :: w).length, 0⟩ :=
      hlexeme place.column rest hrest
    rw [List.cons_append, lexFrom_lexeme hc hblank hplain hnext, ← List.cons_append, List.take_left,
      List.drop_left]
    rfl

theorem mark {m : Mark}
    (hm : m ∈ [Mark.openBracket, .closeBracket, .openRecord, .closeBrace, .comma, .semicolon, .closeParen]) :
    Cuts operand m.text.toList [.mark m] (Token.mark m).expectsOperand (fun _ => True) := by
  simp only [List.mem_cons, List.not_mem_nil, or_false] at hm
  rcases hm with rfl | rfl | rfl | rfl | rfl | rfl | rfl
  all_goals exact lexeme (by decide) (by decide) rfl (by decide) fun column rest _ => rfl

theorem colon : Cuts operand [':'] [.mark .colon] true (· = ' ') := by
  refine lexeme (by decide) (by decide) rfl (by decide) fun column rest hrest => ?_
  cases rest with
  | nil => rfl
  | cons d rest =>
    rw [hrest d rfl]
    rfl

theorem assign : Cuts operand ['='] [.assign none] true (· = ' ') := by
  refine lexeme (by decide) (by decide) rfl (by decide) fun column rest hrest => ?_
  cases rest with
  | nil => rfl
  | cons d rest =>
    rw [hrest d rfl]
    rfl

end Cuts

/-! ## Words and texts -/

/-- The characters that may follow a word or a literal in the lines about the row, or in a call. -/
def endsWord (c : Char) : Prop :=
  c ∈ [' ', ',', ';', ':', ']', '(', ')']

instance : DecidablePred endsWord := fun _ => inferInstanceAs (Decidable (_ ∈ _))

theorem isNameChar_between {c : Char} (h : isNameChar c = true) : 48 ≤ c.toNat ∧ c.toNat ≤ 122 := by
  simp only [isNameChar, Char.isAlphanum, Bool.or_eq_true, beq_iff_eq, isAlpha_iff_toNat,
    Char.isDigit_iff_toNat] at h
  rcases h with ((h | h) | h) | rfl
  · omega
  · omega
  · exact ⟨h.1, h.2.trans (by decide)⟩
  · decide

theorem isNameChar_isBlank {c : Char} (h : isNameChar c = true) : isBlank c = false := by
  have := isNameChar_between h
  simp only [isBlank, Bool.or_eq_false_iff, Bool.and_eq_false_iff, decide_eq_false_iff_not, beq_eq_false_iff_ne]
  omega

theorem IsVariableName.head_notBlank {cs : List Char} (h : IsVariableName cs) :
    ∃ c ∈ cs.head?, isBlank c = false := by
  obtain ⟨c, rest, rfl, -⟩ := h.head
  exact ⟨c, rfl, isNameChar_isBlank (h.all_nameChar c List.mem_cons_self)⟩

theorem isNameChar_of_endsWord {c : Char} (h : endsWord c) : isNameChar c = false := by
  have key : [' ', ',', ';', ':', ']', '(', ')'].all (isNameChar · == false) = true := by decide
  exact beq_iff_eq.mp (List.all_eq_true.mp key c h)

namespace Cuts

theorem word {cs : List Char} (hhead : ∃ c rest, cs = c :: rest ∧ (isNameLetter c || c == '_') = true)
    (hall : ∀ c ∈ cs, isNameChar c = true) (hplain : (wordToken cs).isPlain = true) :
    Cuts operand cs [wordToken cs] (wordToken cs).expectsOperand endsWord := by
  obtain ⟨c, more, rfl, hc⟩ := hhead
  have hslash : c ≠ '/' := by
    rintro rfl
    exact absurd (hall '/' List.mem_cons_self) (by decide)
  refine lexeme hslash (isNameChar_isBlank (hall c List.mem_cons_self)) hplain
    (fun hmem => absurd (hall _ hmem) (by decide)) fun column rest hrest => ?_
  have htake : (c :: more ++ rest).takeWhile isNameChar = c :: more := by
    rw [List.takeWhile_append_of_pos hall]
    cases rest with
    | nil => simp
    | cons d rest => simp [isNameChar_of_endsWord (hrest d rfl)]
  rw [List.cons_append] at htake ⊢
  rw [nextLexeme, if_pos hc, wordLexeme, htake]

theorem variableName {cs : List Char} (h : IsVariableName cs) :
    Cuts operand cs [.word (String.ofList cs)] false endsWord := by
  have htoken := wordToken_of_variableName h
  have hword : Cuts operand cs [wordToken cs] (wordToken cs).expectsOperand endsWord :=
    word h.head h.all_nameChar (by rw [htoken]; rfl)
  rwa [htoken] at hword

theorem textLiteral (s : String) :
    Cuts operand (Formula.textLiteral s).toList [.text s] false endsWord := by
  have honeLine := newline_not_mem_textLiteral s
  have hlexeme := fun column rest (hrest : List.head? rest ≠ some '\"') =>
    quotedLexeme_textLiteral s column hrest
  rw [toList_textLiteral] at honeLine hlexeme ⊢
  refine lexeme (by decide) (by decide) rfl honeLine fun column rest hrest => ?_
  refine hlexeme column rest fun hquote => ?_
  exact absurd (hrest _ hquote) (by decide)

end Cuts

/-! ## Rows of pieces -/

theorem exists_head_append {p : Char → Prop} (h : ∃ c ∈ w.head?, p c) (w' : List Char) :
    ∃ c ∈ (w ++ w').head?, p c := by
  obtain ⟨c, hc, hp⟩ := h
  refine ⟨c, ?_, hp⟩
  rw [List.head?_append, hc]
  rfl

/-- A piece that may stand in a list: no blank comes first, and what follows a literal may follow it. -/
structure CutsItem (operand : Bool) (w : List Char) (ts : List Token) : Prop
    extends Cuts operand w ts false endsWord where
  head : ∃ c ∈ w.head?, isBlank c = false

namespace CutsItem

theorem commaSeparated (hitem : CutsItem operand w ts) (h : List.Forall₂ (CutsItem true) ws tss) :
    CutsItem operand ([',', ' '].intercalate (w :: ws)) ([Token.mark .comma].intercalate (ts :: tss)) := by
  induction h generalizing w ts operand with
  | nil => simpa using hitem
  | cons hnext _ ih =>
    have hrest := ih hnext
    have hcomma : Cuts false [','] [.mark .comma] true (fun _ => True) := Cuts.mark (m := .comma) (by decide)
    have hspaced := hcomma.append (Cuts.blank.append hrest.toCuts hrest.head) ⟨' ', rfl, trivial⟩
    have hcuts := hitem.toCuts.append hspaced ⟨',', rfl, by decide⟩
    rw [List.intercalate_cons_cons, List.intercalate_cons_cons, List.append_assoc, List.append_assoc]
    exact ⟨hcuts, exists_head_append hitem.head _⟩

theorem array (h : List.Forall₂ (CutsItem true) ws tss) :
    CutsItem true ('[' :: ([',', ' '].intercalate ws ++ [']']))
      (.mark .openBracket :: ([Token.mark .comma].intercalate tss ++ [.mark .closeBracket])) := by
  have hopen : Cuts true ['['] [.mark .openBracket] true (fun _ => True) :=
    Cuts.mark (m := .openBracket) (by decide)
  have hclose : ∀ operand, Cuts operand [']'] [.mark .closeBracket] false endsWord := fun operand =>
    (Cuts.mark (m := .closeBracket) (by decide)).mono fun _ _ => trivial
  refine ⟨?_, '[', rfl, by decide⟩
  cases h with
  | nil => exact hopen.append (hclose true) ⟨']', rfl, trivial⟩
  | cons hitem hitems =>
    have hrow := commaSeparated hitem hitems
    obtain ⟨c, hc, -⟩ := exists_head_append hrow.head [']']
    exact hopen.append (hrow.toCuts.append (hclose false) ⟨']', rfl, by decide⟩) ⟨c, hc, trivial⟩

theorem record (hfield : CutsItem false w ts) (h : List.Forall₂ (CutsItem true) ws tss) :
    CutsItem true (['#', '\x7b'] ++ ([' '] ++ ([',', ' '].intercalate (w :: ws) ++ ([' '] ++ ['\x7d']))))
      (.mark .openRecord :: ([Token.mark .comma].intercalate (ts :: tss) ++ [.mark .closeBrace])) := by
  have hopen : Cuts true ['#', '\x7b'] [.mark .openRecord] false (fun _ => True) :=
    Cuts.mark (m := .openRecord) (by decide)
  have hclose : Cuts false ['\x7d'] [.mark .closeBrace] false endsWord :=
    (Cuts.mark (m := .closeBrace) (by decide)).mono fun _ _ => trivial
  have hrow := commaSeparated hfield h
  have htail := hrow.toCuts.append (Cuts.blank.append hclose ⟨'\x7d', rfl, by decide⟩) ⟨' ', rfl, by decide⟩
  have hspaced := Cuts.blank.append htail (exists_head_append hrow.head _)
  exact ⟨hopen.append hspaced ⟨' ', rfl, trivial⟩, '#', rfl, by decide⟩

end CutsItem

/-! ## Lines -/

/-- A line whose last token is a semicolon. -/
structure CutsLine (w : List Char) (ts : List Token) : Prop extends Cuts true w ts true (fun _ => True) where
  head : ∃ c ∈ w.head?, isBlank c = false

theorem unlines_cons_append (w : List Char) (ws : List (List Char)) (rest : List Char) :
    unlines (w :: ws) ++ rest = w ++ '\n' :: (unlines ws ++ rest) := by
  simp [unlines]

/-- **Lines are cut one after the other, and the rest of the script starts on a line of its own.** -/
theorem lexFrom_lines (h : List.Forall₂ CutsLine ws tss) (k : Nat) :
    ∃ groups : List (List Located), List.Forall₂ (fun g l => OnLine g l.1 l.2) groups (tss.zipIdx k) ∧
      ∀ fuel rest, (∀ c ∈ rest.head?, isBlank c = false) → (unlines ws ++ rest).length < fuel →
        ∃ fuel', rest.length < fuel' ∧ lexFrom fuel ⟨⟨k, 1⟩, true, []⟩ false (unlines ws ++ rest) =
          groups.flatten ++ lexFrom fuel' ⟨⟨k + ws.length, 1⟩, true, []⟩ false rest := by
  induction h generalizing k with
  | nil => exact ⟨[], .nil, fun fuel rest _ hfuel => ⟨fuel, hfuel, rfl⟩⟩
  | @cons w ts ws tss hline hlines ih =>
    obtain ⟨located, hon, hcut⟩ := hline.cut ⟨k, 1⟩
    obtain ⟨groups, hgroups, hrest⟩ := ih (k + 1)
    refine ⟨located :: groups, .cons hon hgroups, fun fuel rest hhead hfuel => ?_⟩
    rw [unlines_cons_append] at hfuel ⊢
    obtain ⟨fuel₁, hfuel₁, heq₁⟩ := hcut fuel _ (fun _ _ => trivial) hfuel
    obtain ⟨fuel₁, rfl⟩ : ∃ n, fuel₁ = n + 1 := ⟨fuel₁ - 1, by omega⟩
    have hnext : ∀ c ∈ (unlines ws ++ rest).head?, isBlank c = false := by
      cases hlines with
      | nil => exact hhead
      | cons hnext _ =>
        obtain ⟨c, hc, hblank⟩ := exists_head_append hnext.head _
        rw [unlines_cons_append, hc]
        rintro d ⟨⟩
        exact hblank
    have hplace : (Place.after ⟨k, 1⟩ w).next '\n' = ⟨k + 1, 1⟩ := by
      rw [Place.next, if_pos rfl, Place.after_line _ hline.oneLine]
    obtain ⟨fuel₂, hfuel₂, heq₂⟩ := hrest fuel₁ rest hhead (by simpa using hfuel₁)
    refine ⟨fuel₂, hfuel₂, ?_⟩
    rw [heq₁, lexFrom_blank (by decide) (by decide) hnext, hplace, heq₂, List.flatten_cons, List.append_assoc,
      List.length_cons, Nat.add_assoc, Nat.add_comm 1]

end Worksheet.Formula
