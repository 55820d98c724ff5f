import Worksheet.Proofs.Formula.Lexeme
/-!
# Indenting what stands after line breaks

Blanks put after each line break of a script, also inside of texts.

* `indentBreaks`: the script after that;
* `VerbatimText`: the texts in back quotes, with `VerbatimText.scan` and `VerbatimText.of_scan`;
* **`VerbatimText.indented`**: such a text holds the blanks as well.
-/

namespace Worksheet.Formula

open Worksheet.Text

/-- The characters with blanks after each line break. A carriage return right before a line feed is left out. -/
def indentBreaks (indent : List Char) : List Char → List Char
  | [] => []
  | '\n' :: rest => '\n' :: (indent ++ indentBreaks indent rest)
  | '\r' :: '\n' :: rest => '\n' :: (indent ++ indentBreaks indent rest)
  | c :: rest => c :: indentBreaks indent rest

variable {indent w v rest rest' : List Char} {c : Char}

theorem indentBreaks_feed (indent rest : List Char) :
    indentBreaks indent ('\n' :: rest) = '\n' :: (indent ++ indentBreaks indent rest) :=
  rfl

theorem indentBreaks_returnFeed (indent rest : List Char) :
    indentBreaks indent ('\r' :: '\n' :: rest) = '\n' :: (indent ++ indentBreaks indent rest) :=
  rfl

theorem indentBreaks_cons (hc : c ≠ '\n') (hreturn : c = '\r' → rest.head? ≠ some '\n') :
    indentBreaks indent (c :: rest) = c :: indentBreaks indent rest := by
  rw [indentBreaks]
  · exact hc
  · rintro rest' rfl rfl
    exact hreturn rfl rfl

theorem indentBreaks_cons_of_ne (hc : c ≠ '\n') (hc' : c ≠ '\r') (rest : List Char) :
    indentBreaks indent (c :: rest) = c :: indentBreaks indent rest :=
  indentBreaks_cons hc fun h => absurd h hc'

/-- A line break is not cut in two between the parts. -/
theorem indentBreaks_append (h : w.getLast? = some '\r' → v.head? ≠ some '\n') :
    indentBreaks indent (w ++ v) = indentBreaks indent w ++ indentBreaks indent v := by
  fun_induction indentBreaks indent w with
  | case1 => rfl
  | case2 rest ih =>
    have hrest : rest.getLast? = some '\r' → v.head? ≠ some '\n' := fun hlast => h (by
      rw [List.getLast?_cons, hlast]; rfl)
    rw [List.cons_append, indentBreaks_feed, ih hrest, List.cons_append, List.append_assoc]
  | case3 rest ih =>
    have hrest : rest.getLast? = some '\r' → v.head? ≠ some '\n' := fun hlast => h (by
      rw [List.getLast?_cons, List.getLast?_cons, hlast]; rfl)
    rw [List.cons_append, List.cons_append, indentBreaks_returnFeed, ih hrest, List.cons_append, List.append_assoc]
  | case4 c rest hfeed hreturn ih =>
    have hrest : rest.getLast? = some '\r' → v.head? ≠ some '\n' := fun hlast => h (by
      rw [List.getLast?_cons, hlast]; rfl)
    have hnext : c = '\r' → (rest ++ v).head? ≠ some '\n' := by
      rintro rfl
      cases rest with
      | nil => exact h rfl
      | cons d more =>
        rintro ⟨⟩
        exact hreturn more rfl rfl
    rw [List.cons_append, indentBreaks_cons hfeed hnext, ih hrest, List.cons_append]

theorem indentBreaks_of_not_mem (h : '\n' ∉ w) : indentBreaks indent w = w := by
  induction w with
  | nil => rfl
  | cons c w ih =>
    rw [List.mem_cons, not_or] at h
    have hnext : c = '\r' → w.head? ≠ some '\n' := fun _ hhead => h.2 (List.mem_of_head? hhead)
    rw [indentBreaks_cons (Ne.symm h.1) hnext, ih h.2]

theorem indentBreaks_solid_append (hw : ∀ c ∈ w, c ≠ '\n' ∧ c ≠ '\r') (v : List Char) :
    indentBreaks indent (w ++ v) = w ++ indentBreaks indent v := by
  rw [indentBreaks_append fun hlast => absurd rfl (hw _ (List.mem_of_getLast? hlast)).2,
    indentBreaks_of_not_mem fun hmem => absurd rfl (hw _ hmem).1]

theorem head?_indentBreaks (h : (indentBreaks indent w).head? ≠ some '\n') :
    (indentBreaks indent w).head? = w.head? := by
  fun_cases indentBreaks indent w with
  | case1 => rfl
  | case2 rest => exact absurd rfl h
  | case3 rest => exact absurd rfl h
  | case4 => rfl

theorem eq_of_head?_indentBreaks (h : (indentBreaks indent w).head? = some '\n') :
    ∃ rest, w = '\n' :: rest ∨ w = '\r' :: '\n' :: rest := by
  fun_cases indentBreaks indent w with
  | case1 => cases h
  | case2 rest => exact ⟨rest, .inl rfl⟩
  | case3 rest => exact ⟨rest, .inr rfl⟩
  | case4 c rest hfeed hreturn =>
    rw [indentBreaks.eq_4 _ _ _ hfeed hreturn, List.head?_cons, Option.some.injEq] at h
    exact absurd h hfeed

/-! ## Texts in back quotes -/

/-- The characters of a text in back quotes up to its end, the text, and how it ends. -/
inductive VerbatimText : TextEnd → List Char → List Char → Prop
  | closed : VerbatimText .closed [backQuote] []
  | block : VerbatimText .block ['$'] []
  | doubled {ending : TextEnd} {w cs : List Char} (h : VerbatimText ending w cs) :
    VerbatimText ending (backQuote :: backQuote :: w) (backQuote :: cs)
  | returnFeed {ending : TextEnd} {w cs : List Char} (h : VerbatimText ending ('\n' :: w) cs) :
    VerbatimText ending ('\r' :: '\n' :: w) cs
  | char {ending : TextEnd} {w cs : List Char} {c : Char} (hquote : c ≠ backQuote)
    (hblock : c = '$' → w.head? ≠ some '\x7b') (hreturn : c = '\r' → w.head? ≠ some '\n')
    (h : VerbatimText ending w cs) : VerbatimText ending (c :: w) (c :: cs)

/-- What comes after a text in back quotes, by how it ends. -/
def TextEnd.Followed : TextEnd → List Char → Prop
  | closed, rest => rest.head? ≠ some backQuote
  | block, rest => rest.head? = some '\x7b'
  | _, _ => False

/-- The end of the text was found. -/
def TextEnd.Found (ending : TextEnd) : Prop :=
  ending = .closed ∨ ending = .block

theorem TextScan.eq_of_before {s : TextScan} {cs ds : List Char} {m n : Nat} {ending : TextEnd}
    (h : s.before ds m = ⟨cs, n, ending⟩) (hfound : ending.Found) :
    ∃ cs' n', s = ⟨cs', n', ending⟩ ∧ cs = ds ++ cs' ∧ n = m + n' := by
  obtain ⟨cs', n', ending'⟩ := s
  rw [before, mk.injEq] at h
  obtain ⟨rfl, rfl, hending⟩ := h
  refine ⟨cs', n', ?_, rfl, rfl⟩
  cases ending' with
  | badEscape written offset => rcases hfound with rfl | rfl <;> cases hending
  | _ => cases hending; rfl

theorem TextScan.before_mk {ending : TextEnd} (h : ending.Followed rest) (cs ds : List Char) (m n : Nat) :
    (⟨cs, n, ending⟩ : TextScan).before ds m = ⟨ds ++ cs, m + n, ending⟩ := by
  cases ending with
  | badEscape written offset => exact h.elim
  | _ => rfl

namespace VerbatimText

variable {ending : TextEnd} {cs : List Char}

theorem ne_nil (h : VerbatimText ending w cs) : w ≠ [] := by
  cases h <;> exact List.cons_ne_nil _ _

theorem getLast? (h : VerbatimText ending w content) : w.getLast? = some backQuote ∨ w.getLast? = some '$' := by
  induction h with
  | closed => exact .inl rfl
  | block => exact .inr rfl
  | doubled h ih => rcases ih with ih | ih <;> simp [List.getLast?_cons, ih]
  | returnFeed h ih => rcases ih with ih | ih <;> simp [List.getLast?_cons, ih]
  | char _ _ _ h ih => rcases ih with ih | ih <;> simp [List.getLast?_cons, ih]

/-- The scanner reads such a text as a whole. -/
theorem scan (h : VerbatimText ending w cs) (hrest : ending.Followed rest) :
    scanVerbatim (w ++ rest) = ⟨cs, w.length, ending⟩ := by
  induction h with
  | closed =>
    cases rest with
    | nil => rfl
    | cons d rest =>
      have hd : (d == backQuote) = false := beq_eq_false_iff_ne.mpr fun heq => hrest (by rw [heq]; rfl)
      simp [scanVerbatim, hd]
  | block =>
    obtain ⟨more, rfl⟩ := List.head?_eq_some_iff.mp hrest
    rfl
  | doubled h ih =>
    rw [List.cons_append, List.cons_append, scanVerbatim, if_pos (beq_self_eq_true _), if_pos (beq_self_eq_true _), ih hrest,
      TextScan.before_mk hrest, Nat.add_comm 2]
    rfl
  | returnFeed h ih =>
    rw [List.cons_append, List.cons_append, scanVerbatim]
    rw [List.cons_append] at ih
    simp only [ih hrest, TextScan.before_mk hrest, Nat.add_comm 1]
    rfl
  | @char ending w cs c hquote hblock hreturn h ih =>
    obtain ⟨d, w, rfl⟩ := List.exists_cons_of_ne_nil h.ne_nil
    have hblock : ¬(c = '$' ∧ d = '\x7b') := fun ⟨hc, hd⟩ => hblock hc (by rw [hd]; rfl)
    have hreturn : ¬(c = '\r' ∧ d = '\n') := fun ⟨hc, hd⟩ => hreturn hc (by rw [hd]; rfl)
    rw [List.cons_append, List.cons_append, scanVerbatim]
    rw [List.cons_append] at ih
    simp [hquote, hblock, hreturn, ih hrest, TextScan.before_mk hrest, Nat.add_comm 1]

theorem of_scan {v : List Char} {n : Nat} (h : scanVerbatim v = ⟨cs, n, ending⟩) (hfound : ending.Found) :
    ∃ w rest, v = w ++ rest ∧ n = w.length ∧ VerbatimText ending w cs ∧ ending.Followed rest := by
  fun_induction scanVerbatim v generalizing cs n with
  | case1 => cases h; simp [TextEnd.Found] at hfound
  | case2 c hc =>
    cases h
    obtain rfl : c = backQuote := by simpa using hc
    exact ⟨[backQuote], [], rfl, rfl, .closed, nofun⟩
  | case3 => cases h; simp [TextEnd.Found] at hfound
  | case4 c d rest hc hd ih =>
    obtain rfl : c = backQuote := by simpa using hc
    obtain rfl : d = backQuote := by simpa using hd
    obtain ⟨cs', n', hscan, rfl, rfl⟩ := TextScan.eq_of_before h hfound
    obtain ⟨w, rest', rfl, rfl, htext, hrest⟩ := ih hscan
    exact ⟨backQuote :: backQuote :: w, rest', rfl, by simp [Nat.add_comm 2], .doubled htext, hrest⟩
  | case5 c d rest hc hd =>
    cases h
    obtain rfl : c = backQuote := by simpa using hc
    refine ⟨[backQuote], d :: rest, rfl, rfl, .closed, ?_⟩
    simpa [TextEnd.Followed] using hd
  | case6 c d rest hc hblock =>
    cases h
    obtain ⟨rfl, rfl⟩ : c = '$' ∧ d = '\x7b' := by simpa using hblock
    exact ⟨['$'], _, rfl, rfl, .block, rfl⟩
  | case7 c d rest hc hblock hreturn ih =>
    obtain ⟨rfl, rfl⟩ : c = '\r' ∧ d = '\n' := by simpa using hreturn
    obtain ⟨cs', n', hscan, rfl, rfl⟩ := TextScan.eq_of_before h hfound
    obtain ⟨w, rest', hw, rfl, htext, hrest⟩ := ih hscan
    obtain ⟨d, w, rfl⟩ := List.exists_cons_of_ne_nil htext.ne_nil
    obtain ⟨rfl, rfl⟩ := List.cons.inj hw
    exact ⟨'\r' :: '\n' :: w, rest', rfl, by simp [Nat.add_comm 1], .returnFeed htext, hrest⟩
  | case8 c d rest hc hblock hreturn ih =>
    obtain ⟨cs', n', hscan, rfl, rfl⟩ := TextScan.eq_of_before h hfound
    obtain ⟨w, rest', hw, rfl, htext, hrest⟩ := ih hscan
    obtain ⟨d, w, rfl⟩ := List.exists_cons_of_ne_nil htext.ne_nil
    obtain ⟨rfl, rfl⟩ := List.cons.inj hw
    refine ⟨c :: _ :: w, rest', rfl, by simp [Nat.add_comm 1], .char (by simpa using hc) ?_ ?_ htext, hrest⟩
    · rintro rfl hd
      exact hblock (by simpa using hd)
    · rintro rfl hd
      exact hreturn (by simpa using hd)

/-! ### Indenting -/

theorem blanks {blanks : List Char} (hblanks : ∀ c ∈ blanks, c = ' ') (h : VerbatimText ending w cs) :
    VerbatimText ending (blanks ++ w) (blanks ++ cs) := by
  induction blanks with
  | nil => exact h
  | cons c blanks ih =>
    obtain ⟨hc, hmore⟩ := List.forall_mem_cons.mp hblanks
    subst hc
    exact .char (by decide) nofun nofun (ih hmore)

theorem head?_eq_feed_iff (h : VerbatimText ending w cs) :
    (indentBreaks indent w).head? = some '\n' ↔ cs.head? = some '\n' := by
  cases h with
  | closed | block | doubled =>
    rw [indentBreaks_cons_of_ne (by decide) (by decide)]
    exact ⟨nofun, nofun⟩
  | returnFeed h =>
    cases h with
    | char => exact ⟨fun _ => rfl, fun _ => rfl⟩
  | @char _ w cs c hquote hblock hreturn h =>
    by_cases hc : c = '\n'
    · subst hc
      exact ⟨fun _ => rfl, fun _ => rfl⟩
    · rw [indentBreaks_cons hc hreturn]
      rfl

/-- **A text in back quotes holds the blanks after its line breaks.** -/
theorem indented (hindent : ∀ c ∈ indent, c = ' ') (h : VerbatimText ending w cs) :
    VerbatimText ending (indentBreaks indent w) (indentBreaks indent cs) := by
  induction h with
  | closed => exact .closed
  | block => exact .block
  | doubled h ih =>
    have hquote : ∀ rest, indentBreaks indent (backQuote :: rest) = backQuote :: indentBreaks indent rest :=
      indentBreaks_cons_of_ne (by decide) (by decide)
    rw [hquote, hquote, hquote]
    exact .doubled ih
  | returnFeed h ih => exact ih
  | @char ending w cs c hquote hblock hreturn h ih =>
    by_cases hfeed : c = '\n'
    · subst hfeed
      exact .char hquote nofun nofun (ih.blanks hindent)
    rw [indentBreaks_cons hfeed hreturn]
    by_cases hbreak : c = '\r' ∧ (indentBreaks indent w).head? = some '\n'
    · -- the carriage return has come to stand before a line feed
      obtain ⟨rfl, hhead⟩ := hbreak
      obtain ⟨cs, rfl⟩ := List.head?_eq_some_iff.mp (h.head?_eq_feed_iff.mp hhead)
      obtain ⟨w', hw⟩ := List.head?_eq_some_iff.mp hhead
      rw [hw] at ih ⊢
      exact .returnFeed ih
    · have hcontent : c = '\r' → cs.head? ≠ some '\n' := fun hc hhead => hbreak ⟨hc, h.head?_eq_feed_iff.mpr hhead⟩
      rw [indentBreaks_cons hfeed hcontent]
      refine .char hquote (fun hc hhead => hblock hc ?_) (fun hc hhead => hbreak ⟨hc, hhead⟩) ih
      rw [← head?_indentBreaks (by rw [hhead]; decide), hhead]

end VerbatimText

end Worksheet.Formula
