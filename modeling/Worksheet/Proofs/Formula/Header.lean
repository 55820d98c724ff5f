import Worksheet.Proofs.Formula.Library
import Worksheet.Proofs.Formula.Passing
import Worksheet.Proofs.Formula.ScriptLines
/-!
# The tokens before an expression

What comes before the author's lines is read without a fault, and the lexer starts with them as with a text of its own.

* `isHeader_library`, `isHeader_opening`: the library and the line that opens the wrapper, read once;
* `spellAll_library`, `spellAll_opening`: the same, further down in a script;
* **`lex_before`**: all that comes before the lines of an expression.
-/

namespace Worksheet.Formula

open Worksheet.Text

variable {operand after : Bool} {ts : List Spelled} {ls : List (List Char)}

/-! ## Reading the library -/

/-- The lines of the library. -/
def libraryText : List Char :=
  unlines (Builtin.source.map String.toList)

/-- The tokens are the given ones, and then the end. None of them belongs to a text with blocks or goes on over a line
break. Before them and after them an operand is due or not, as said. -/
def isSettled (before after : Bool) : List Token → List Spelled → Bool
  | [], [t] => decide (t.token = .finish) && before == after
  | token :: tokens, t :: ts => decide (t.token = token) && token.isPlain && !t.spelling.contains '\n' &&
      isSettled token.expectsOperand after tokens ts
  | _, _ => false

/-- The text holds no comment and no carriage return, and its tokens are the given ones and settled. -/
def isHeader (before after : Bool) (tokens : List Token) (cs : List Char) : Bool :=
  cs.all (fun c => c != '/' && c != '\r') &&
    isSettled before after tokens (spellAll ⟨Place.start, before, []⟩ false cs)

theorem map_toList_cons {cs : List Char} {css : List (List Char)} {text : String} {texts : List String}
    (h : String.ofList cs = text) (htexts : texts.map String.toList = css) :
    (text :: texts).map String.toList = cs :: css := by
  rw [List.map_cons, ← h, String.toList_ofList, htexts]

/-- The lines of the library as characters. It is faster to compute with them than to decode the bytes of the lines. -/
def libraryCharacters : {css : List (List Char) // Builtin.source.map String.toList = css} :=
  ⟨_, by
    simp only [Builtin.source]
    repeat apply map_toList_cons (by exact rfl)
    exact List.map_nil⟩

theorem isHeader_library : isHeader true false libraryTokens libraryText = true := by
  rw [libraryText, libraryCharacters.2]
  decide +kernel

/-- The tokens of the line that opens the wrapper. -/
def openingTokens : List Token :=
  [.keyword .let_, .word "fx", .assign none, .operator .either, .mark .openBrace]

theorem isHeader_opening : isHeader false true openingTokens (unlines (headerLines .expression)) = true := by
  decide +kernel

/-! ## Settled tokens -/

theorem isSettled_split {tokens : List Token} (h : isSettled operand after tokens ts = true) :
    ∃ kept last, ts = kept ++ [last] ∧ last.token = .finish ∧ kept.map (·.token) = tokens ∧
      (∀ t ∈ kept, t.token.isPlain = true ∧ '\n' ∉ t.spelling) ∧
      (kept.getLast?.map fun t => t.token.expectsOperand).getD operand = after := by
  induction tokens generalizing operand ts with
  | nil =>
    match ts, h with
    | [t], h =>
      simp only [isSettled, Bool.and_eq_true, decide_eq_true_eq, beq_iff_eq] at h
      exact ⟨[], t, rfl, h.1, rfl, List.forall_mem_nil _, h.2⟩
  | cons token tokens ih =>
    cases ts with
    | nil => cases h
    | cons t ts =>
      simp only [isSettled, Bool.and_eq_true, decide_eq_true_eq, Bool.not_eq_true', List.contains_eq_mem,
        decide_eq_false_iff_not] at h
      obtain ⟨⟨⟨rfl, hplain⟩, hfeed⟩, hrest⟩ := h
      obtain ⟨kept, last, rfl, hfinish, rfl, hkept, hlast⟩ := ih hrest
      refine ⟨t :: kept, last, rfl, hfinish, rfl, List.forall_mem_cons.mpr ⟨⟨hplain, hfeed⟩, hkept⟩, ?_⟩
      rw [List.getLast?_cons]
      cases hget : kept.getLast? with
      | none => rwa [hget] at hlast
      | some u => rwa [hget] at hlast

theorem foldl_countBrace_of_isPlain (h : ∀ t ∈ ts, t.token.isPlain = true) :
    ts.foldl (fun blocks t => (LexState.countBrace blocks t.token).1) [] = [] := by
  induction ts with
  | nil => rfl
  | cons t ts ih =>
    rw [List.forall_mem_cons] at h
    rw [List.foldl_cons, countBrace_isPlain h.1]
    exact ih h.2

/-! ## Further down in a script -/

theorem Place.after_unlines (h : ∀ line ∈ ls, '\n' ∉ line) (n : Nat) :
    (⟨n, 1⟩ : Place).after (unlines ls) = ⟨n + ls.length, 1⟩ := by
  induction ls generalizing n with
  | nil => rfl
  | cons line ls ih =>
    rw [List.forall_mem_cons] at h
    have hnext : (⟨n, 1⟩ : Place).after (line ++ ['\n']) = ⟨n + 1, 1⟩ := by
      rw [Place.after_append, Place.after_of_not_mem _ h.1]
      rfl
    rw [unlines, List.flatMap_cons, Place.after_append, hnext]
    exact (ih h.2 (n + 1)).trans (by rw [List.length_cons, Nat.add_assoc, Nat.add_comm 1])

theorem indentBreaks_nil {w : List Char} (hw : '\r' ∉ w) : indentBreaks [] w = w := by
  induction w with
  | nil => rfl
  | cons c w ih =>
    rw [List.mem_cons, not_or] at hw
    by_cases hc : c = '\n'
    · rw [hc, indentBreaks_feed, ih hw.2]
      rfl
    · rw [indentBreaks_cons hc fun heq => absurd heq.symm hw.1, ih hw.2]

/-- **Settled lines are read on their own**, and then the lexer starts anew. -/
theorem spellAll_settled {tokens : List Token} (hfeeds : ∀ line ∈ ls, '\n' ∉ line) (hls : ls ≠ [])
    (h : isHeader operand after tokens (unlines ls) = true) (n : Nat) (rest : List Char) :
    ∃ ts, ts.map (·.token) = tokens ∧ (∀ t ∈ ts, t.place.line ≤ n + ls.length) ∧
      spellAll ⟨⟨1 + n, 1⟩, operand, []⟩ false (unlines ls ++ rest) =
        ts ++ spellAll ⟨⟨1 + ls.length + n, 1⟩, after, []⟩ false rest := by
  obtain ⟨hcharacters, hsettled⟩ := Bool.and_eq_true_iff.mp h
  have hsolid : ∀ c ∈ unlines ls, c ≠ '/' ∧ c ≠ '\r' := by simpa using hcharacters
  obtain ⟨kept, last, hkept, hfinish, rfl, hplain, hoperand⟩ := isSettled_split hsettled
  have hfaults : ∀ t ∈ spellAll ⟨Place.start, operand, []⟩ false (unlines ls), ∀ f, t.token ≠ .fault f := by
    intro t ht f hfault
    have hmem : t ∈ kept ++ [last] := hkept ▸ ht
    rcases List.mem_append.mp hmem with hmem | hmem
    · have hnot := (hplain t hmem).1
      rw [hfault] at hnot
      cases hnot
    · rw [List.mem_singleton.mp hmem, hfinish] at hfault
      cases hfault
  obtain ⟨ts, place, heq, hlexes⟩ := exists_lexes hfaults
  obtain rfl : ts = kept := (List.append_inj' (heq.symm.trans hkept) rfl).1
  have hend : (⟨1, 1⟩ : Place).after (unlines ls) = ⟨1 + ls.length, 1⟩ := Place.after_unlines hfeeds 1
  have hlastFeed : (unlines ls).getLast? = some '\n' := by
    rw [← List.dropLast_append_getLast hls, unlines_append, List.getLast?_append_of_ne_nil _ (by simp [unlines])]
    simp [unlines]
  have hcut : Cut Place.start [] rest ts false (unlines ls) := .line hlastFeed fun t ht hline => by
    rwa [Place.after_line _ (hplain t ht).2]
  let k : Wrapping := ⟨n, [], none⟩
  have hpast : k.PastReturn Place.start := by
    intro p hp
    cases hp
  obtain ⟨ts₁, ts₂, st', w, rfl, hpassed, hleft⟩ :=
    hlexes.passed (k := k) (List.forall_mem_nil _) (List.append_nil _).symm hpast hcut
  obtain ⟨v, hv, hplace, -⟩ := hpassed.author
  obtain ⟨rfl, rfl⟩ : w = [] ∧ ts₂ = [] := by
    rcases hleft with ⟨rfl, h⟩ | ⟨hhead, -⟩
    · exact ⟨rfl, h.eq_nil_of_blank (List.forall_mem_nil _)⟩
    · exact absurd rfl (hsolid '/' (hv ▸ List.mem_append_right _ (List.mem_of_head? hhead))).1
  rw [List.append_nil] at hv hplain hoperand
  have hstate : st' = ⟨⟨1 + ls.length, 1⟩, after, []⟩ := by
    have hblocks := hpassed.blocks.trans (foldl_countBrace_of_isPlain fun t ht => (hplain t ht).1)
    have hplace := hplace.trans ((congrArg Place.start.after hv.symm).trans hend)
    obtain ⟨place', operand', blocks'⟩ := st'
    exact congr (congr (congrArg LexState.mk hplace) (hpassed.operand.trans hoperand)) hblocks
  have hscript := hpassed.script
  rw [hstate] at hscript
  refine ⟨ts₁.map k.spelled, ?_, List.forall_mem_map.mpr fun t ht => ?_, ?_⟩
  · rw [List.append_nil, List.map_map]
    exact List.map_congr_left fun t ht => if_pos (hplain t ht).2
  · have hline := hpassed.line_lt (.inr hlastFeed) t ht
    rw [show Place.start = ⟨1, 1⟩ from rfl, hend] at hline
    change t.place.line + n ≤ _
    simp only at hline
    omega
  · have hindented : indentBreaks k.indent (unlines ls) = unlines ls := indentBreaks_nil fun hmem => (hsolid _ hmem).2 rfl
    rw [hindented] at hscript
    exact hscript

/-- **The library is read on lines of its own**, whatever comes before it and after it. -/
theorem spellAll_library (n : Nat) (rest : List Char) :
    ∃ ts, ts.map (·.token) = libraryTokens ∧ (∀ t ∈ ts, t.place.line ≤ n + Builtin.source.length) ∧
      spellAll ⟨⟨1 + n, 1⟩, true, []⟩ false (libraryText ++ rest) =
        ts ++ spellAll ⟨⟨1 + Builtin.source.length + n, 1⟩, false, []⟩ false rest := by
  have hsettled :=
    spellAll_settled (List.forall_mem_map.mpr newline_not_mem_source) (List.cons_ne_nil _ _) isHeader_library n rest
  rwa [List.length_map] at hsettled

theorem spellAll_opening (n : Nat) (rest : List Char) :
    ∃ ts, ts.map (·.token) = openingTokens ∧ (∀ t ∈ ts, t.place.line ≤ n + 1) ∧
      spellAll ⟨⟨1 + n, 1⟩, false, []⟩ false (unlines (headerLines .expression) ++ rest) =
        ts ++ spellAll ⟨⟨1 + 1 + n, 1⟩, true, []⟩ false rest :=
  spellAll_settled (newline_not_mem_headerLines .expression) (List.cons_ne_nil _ _) isHeader_opening n rest

/-! ## All that comes before an expression -/

theorem OnLine.line_of_mem {located : List Located} {tokens : List Token} {line : Nat} (h : OnLine located tokens line)
    {t : Located} (ht : t ∈ located) : t.place.line = line := by
  have hmem : (t.token, t.place.line) ∈ tokens.map (·, line) := h ▸ List.mem_map_of_mem ht
  obtain ⟨token, -, heq⟩ := List.mem_map.mp hmem
  exact (Prod.mk.inj heq).2.symm

theorem line_lt_of_mem_groups {groups : List (List Located)} {tss : List (List Token)} {k : Nat}
    (h : List.Forall₂ (fun g l => OnLine g l.1 l.2) groups (tss.zipIdx k)) :
    ∀ t ∈ groups.flatten, t.place.line < k + tss.length := by
  induction tss generalizing k groups with
  | nil =>
    cases h
    exact List.forall_mem_nil _
  | cons ts tss ih =>
    rw [List.zipIdx_cons] at h
    cases h with
    | cons hline hlines =>
      refine List.forall_mem_append.mpr ⟨fun t ht => ?_, fun t ht => ?_⟩
      · have hk : t.place.line = k := hline.line_of_mem ht
        rw [hk, List.length_cons]
        omega
      · have hlt := ih hlines t ht
        rw [List.length_cons]
        omega

/-- **What comes before the author's lines**: the lines about the row, each with the tokens of its declaration, and the
library. After them the lexer starts anew, with no operand due. -/
theorem lex_preamble (mode : FormulaMode) (columns : List Column) (row : Row) (rest : List Char) :
    let n := (dataLines mode columns row).length
    ∃ (tss : List (List Token)) (groups : List (List Located)) (ts : List Spelled),
      List.Forall₂ ReadsLine tss (rowDeclarations mode columns row) ∧
      List.Forall₂ (fun g l => OnLine g l.1 l.2) groups (tss.zipIdx 1) ∧
      ts.map (·.token) = libraryTokens ∧
      (∀ t ∈ groups.flatten ++ ts.map Spelled.toLocated, t.place.line ≤ n + Builtin.source.length) ∧
      lex (unlines ((preamble mode columns row).map String.toList) ++ rest) =
        groups.flatten ++ (ts.map Spelled.toLocated ++
          (spellAll ⟨⟨1 + Builtin.source.length + n, 1⟩, false, []⟩ false rest).map Spelled.toLocated) := by
  intro n
  obtain ⟨tss, hcuts, hreads⟩ := exists_tokens (encodes_dataLines mode columns row)
  obtain ⟨groups, hgroups, hlex⟩ := lexFrom_lines hcuts 1
  have hbefore : unlines ((preamble mode columns row).map String.toList) ++ rest =
      unlines ((dataLines mode columns row).map String.toList) ++ (libraryText ++ rest) := by
    simp only [preamble, libraryText, List.map_append, unlines_append, List.append_assoc]
  have hhead : ∀ c ∈ (libraryText ++ rest).head?, isBlank c = false := by
    intro c hc
    obtain rfl : 'f' = c := Option.some.inj hc
    decide
  obtain ⟨fuel, hfuel, heq⟩ := hlex _ _ hhead (Nat.lt_succ_self _)
  obtain ⟨ts, htokens, hts, hlibrary⟩ := spellAll_library n rest
  rw [List.length_map] at heq
  refine ⟨tss, groups, ts, hreads, hgroups, htokens, ?_, ?_⟩
  · refine List.forall_mem_append.mpr ⟨fun t ht => ?_, List.forall_mem_map.mpr hts⟩
    have hline := line_lt_of_mem_groups hgroups t ht
    rw [← hcuts.length_eq, List.length_map] at hline
    omega
  · rw [lex, hbefore]
    refine heq.trans ?_
    rw [← map_spellFrom, spellFrom_eq_spellAll hfuel, hlibrary, List.map_append]

/-- **What comes before an expression**: its tokens stand on earlier lines, and the lexer starts with the expression as
with a text of its own. -/
theorem lex_before (columns : List Column) (row : Row) (rest : List Char) :
    let before := (preamble .expression columns row).map String.toList ++ headerLines .expression
    ∃ located, (∀ t ∈ located, t.place.line ≤ before.length) ∧
      lex (unlines before ++ rest) =
        located ++ (spellAll ⟨⟨1 + before.length, 1⟩, true, []⟩ false rest).map Spelled.toLocated := by
  intro before
  have hlength : before.length = 1 + Builtin.source.length + (dataLines .expression columns row).length := by
    simp only [before, preamble, List.map_append, List.length_append, List.length_map, headerLines, List.length_singleton]
    omega
  obtain ⟨tss, groups, ts, -, -, -, hlines, hlex⟩ :=
    lex_preamble .expression columns row (unlines (headerLines .expression) ++ rest)
  obtain ⟨ts', -, hts', hopening⟩ :=
    spellAll_opening (Builtin.source.length + (dataLines .expression columns row).length) rest
  refine ⟨groups.flatten ++ ts.map Spelled.toLocated ++ ts'.map Spelled.toLocated, ?_, ?_⟩
  · rw [hlength]
    refine List.forall_mem_append.mpr ⟨fun t ht => ?_, List.forall_mem_map.mpr fun t ht => ?_⟩
    · have hline := hlines t ht
      omega
    · have hline := hts' t ht
      omega
  · rw [← Nat.add_assoc] at hopening
    rw [unlines_append, List.append_assoc, hlex, hopening, List.map_append, hlength]
    simp only [List.append_assoc, Nat.add_assoc]

end Worksheet.Formula
