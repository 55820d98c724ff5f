import Worksheet.Proofs.Formula.LineBreaks
import Worksheet.Proofs.Formula.ScriptLines
/-!
# The text of an expression and its lines in a script

* `returnLine?`: the line of an expression that gets `return`;
* `FullLine`, `linesOf_cons`: lines with their endings;
* `linesOf_split`, `linesOf_trimmed`: the characters of the first and of the last lines, and these lines indented;
* `ExpressionText`, **`expressionText`**: an expression, and the characters that stand in the script for it.
-/

namespace Worksheet.Formula

open Worksheet.Text

/-- The number of the line of an expression that gets `return`. -/
def returnLine? (source : List Char) : Option Nat :=
  (((lines source).zip (wrappedLines source)).findIdx? fun l => l.1 != l.2).map (· + 1)

variable {s line full indent : List Char} {ls others before after more blanks : List (List Char)}

/-! ## Lines with their endings -/

/-- A line together with its ending. -/
structure FullLine (line full : List Char) : Prop where
  split : ∃ ending, full = line ++ ending ∧ ∀ c ∈ ending, isBlank c = true
  last : full.getLast? = some '\n'
  next : ∀ p : Place, (p.after full).line = p.line + 1
  indented : ∀ indent rest,
    indentBreaks indent (full ++ rest) = line ++ '\n' :: (indent ++ indentBreaks indent rest)

theorem Place.after_feed (p : Place) (hfeed : '\n' ∉ line) : (p.after (line ++ ['\n'])).line = p.line + 1 := by
  rw [Place.after_append, ← Place.after_line p hfeed]
  rfl

theorem FullLine.feed (hfeed : '\n' ∉ line) (hreturn : line.getLast? ≠ some '\r') : FullLine line (line ++ ['\n']) := by
  refine ⟨⟨['\n'], rfl, by decide⟩, by simp, fun p => p.after_feed hfeed, fun indent rest => ?_⟩
  rw [List.append_assoc, indentBreaks_append fun h => absurd h hreturn, indentBreaks_of_not_mem hfeed]
  rfl

theorem FullLine.returnFeed (hfeed : '\n' ∉ line) : FullLine line (line ++ ['\r', '\n']) := by
  refine ⟨⟨['\r', '\n'], rfl, by decide⟩, by simp, fun p => ?_, fun indent rest => ?_⟩
  · have hfeed' : '\n' ∉ line ++ ['\r'] := by simp [hfeed]
    have hline := p.after_feed hfeed'
    rwa [List.append_assoc] at hline
  · rw [List.append_assoc, indentBreaks_append fun _ => by simp, indentBreaks_of_not_mem hfeed]
    rfl

theorem linesOf_cons (h : LinesOf s (line :: others)) :
    s = line ∧ others = [] ∨ ∃ full rest, s = full ++ rest ∧ FullLine line full ∧ LinesOf rest others := by
  cases h with
  | unended => exact .inl ⟨rfl, rfl⟩
  | feed hfeed hreturn hrest => exact .inr ⟨_, _, by simp, .feed hfeed hreturn, hrest⟩
  | returnFeed hfeed hrest => exact .inr ⟨_, _, by simp, .returnFeed hfeed, hrest⟩

theorem linesOf_blank (h : LinesOf s ls) (hls : ∀ line ∈ ls, isAllBlank line = true) : ∀ c ∈ s, isBlank c = true := by
  induction ls generalizing s with
  | nil =>
    rw [h.eq_nil_iff.mp rfl]
    exact List.forall_mem_nil _
  | cons line ls ih =>
    rw [List.forall_mem_cons] at hls
    have hline : ∀ c ∈ line, isBlank c = true := List.all_eq_true.mp hls.1
    rcases linesOf_cons h with ⟨rfl, -⟩ | ⟨full, rest, rfl, hfull, hrest⟩
    · exact hline
    · obtain ⟨ending, rfl, hending⟩ := hfull.split
      simp only [List.forall_mem_append]
      exact ⟨⟨hline, hending⟩, ih hrest hls.2⟩

theorem linesOf_drop {b code : List Char} (h : LinesOf s ((b ++ code) :: others)) (hcode : code ≠ []) :
    ∃ v, s = b ++ v ∧ LinesOf v (code :: others) := by
  cases h with
  | unended hfeed =>
    rw [List.mem_append, not_or] at hfeed
    exact ⟨code, rfl, .unended hfeed.2 hcode⟩
  | feed hfeed hreturn hrest =>
    rw [List.mem_append, not_or] at hfeed
    rw [List.getLast?_append_of_ne_nil _ hcode] at hreturn
    exact ⟨_, List.append_assoc _ _ _, .feed hfeed.2 hreturn hrest⟩
  | returnFeed hfeed hrest =>
    rw [List.mem_append, not_or] at hfeed
    exact ⟨_, List.append_assoc _ _ _, .returnFeed hfeed.2 hrest⟩

/-! ## Lines and their characters -/

/-- The characters of the lines before a line, and these lines indented. -/
theorem linesOf_split (h : LinesOf s (before ++ line :: after)) :
    ∃ u v, s = u ++ v ∧ LinesOf v (line :: after) ∧ (u = [] ∨ u.getLast? = some '\n') ∧
      (∀ p : Place, (p.after u).line = p.line + before.length) ∧
      ∀ indent rest, unlines (before.map (indent ++ ·)) ++ (indent ++ rest) =
        indent ++ (indentBreaks indent u ++ rest) := by
  induction before generalizing s with
  | nil => exact ⟨[], s, rfl, h, .inl rfl, fun p => rfl, fun indent rest => rfl⟩
  | cons first before ih =>
    rcases linesOf_cons h with ⟨-, hnil⟩ | ⟨full, rest, rfl, hfull, hrest⟩
    · exact absurd hnil (by simp)
    obtain ⟨u, v, rfl, hv, hu, hline, htext⟩ := ih hrest
    refine ⟨full ++ u, v, by simp, hv, .inr ?_, fun p => ?_, fun indent rest => ?_⟩
    · rcases hu with rfl | hu
      · simpa using hfull.last
      · simp [List.getLast?_append, hu]
    · rw [Place.after_append, hline, hfull.next, List.length_cons]
      omega
    · rw [List.map_cons, unlines_cons, hfull.indented]
      simp only [List.append_assoc, List.cons_append, htext]

/-- The text up to its last character that is not blank; and what stands for it in a script, up to the end of the last
line, when all lines but the first are indented. -/
structure Trimmed (s u tail line : List Char) (more : List (List Char)) : Prop where
  split : ∃ z, s = u ++ z ∧ ∀ c ∈ z, isBlank c = true
  last : ∃ c ∈ u.getLast?, isBlank c = false
  blank : ∀ c ∈ tail, isBlank c = true
  oneLine : '\n' ∉ tail
  height : ∀ p : Place, (p.after u).line = p.line + more.length
  lines : ∀ indent, line ++ '\n' :: unlines (more.map (indent ++ ·)) = indentBreaks indent u ++ (tail ++ ['\n'])

/-- The characters of the last lines, but for blank lines at the end. -/
theorem linesOf_trimmed (h : LinesOf s (line :: (more ++ blanks)))
    (hlast : ∀ l ∈ (line :: more).getLast?, isAllBlank l = false) (hblanks : ∀ l ∈ blanks, isAllBlank l = true) :
    ∃ u tail, Trimmed s u tail line more := by
  induction more generalizing s line with
  | nil =>
    have hfeed := h.newline_not_mem line List.mem_cons_self
    obtain ⟨z, rfl, hz⟩ : ∃ z, s = line ++ z ∧ ∀ c ∈ z, isBlank c = true := by
      rcases linesOf_cons h with ⟨rfl, -⟩ | ⟨full, rest, rfl, hfull, hrest⟩
      · exact ⟨[], (List.append_nil _).symm, List.forall_mem_nil _⟩
      · obtain ⟨ending, rfl, hending⟩ := hfull.split
        exact ⟨ending ++ rest, List.append_assoc _ _ _,
          List.forall_mem_append.mpr ⟨hending, linesOf_blank hrest hblanks⟩⟩
    have hsplit : line.rdropWhile isBlank ++ line.rtakeWhile isBlank = line :=
      List.rdropWhile_append_rtakeWhile
    have hne : line.rdropWhile isBlank ≠ [] := fun hnil => by
      have hall : isAllBlank line = true := List.all_eq_true.mpr (List.rdropWhile_eq_nil_iff.mp hnil)
      rw [hlast line rfl] at hall
      cases hall
    have htail : ∀ c ∈ line.rtakeWhile isBlank, isBlank c = true := fun c hc => List.mem_rtakeWhile_imp hc
    rw [← hsplit, List.mem_append, not_or] at hfeed
    refine ⟨line.rdropWhile isBlank, line.rtakeWhile isBlank, ⟨_, ?_, List.forall_mem_append.mpr ⟨htail, hz⟩⟩, ?_, htail,
      hfeed.2, fun p => Place.after_line p hfeed.1, fun indent => ?_⟩
    · rw [← List.append_assoc, hsplit]
    · exact ⟨_, List.getLast?_eq_some_getLast hne, by simpa using List.rdropWhile_last_not isBlank line hne⟩
    · rw [indentBreaks_of_not_mem hfeed.1, ← List.append_assoc, hsplit]
      rfl
  | cons next more ih =>
    rcases linesOf_cons h with ⟨-, hnil⟩ | ⟨full, rest, rfl, hfull, hrest⟩
    · exact absurd hnil (by simp)
    obtain ⟨u, tail, ⟨⟨z, rfl, hz⟩, ⟨c, hc, hsolid⟩, htail, hone, hline, hlines⟩⟩ :=
      ih hrest (by rwa [List.getLast?_cons_cons] at hlast)
    refine ⟨full ++ u, tail, ⟨z, by simp, hz⟩, ⟨c, ?_, hsolid⟩, htail, hone, fun p => ?_, fun indent => ?_⟩
    · rw [List.getLast?_append, hc]
      rfl
    · rw [Place.after_append, hline, hfull.next, List.length_cons]
      omega
    · rw [hfull.indented, List.map_cons, unlines_cons]
      have hlines := hlines indent
      simp only [List.append_assoc, List.cons_append] at hlines ⊢
      rw [hlines]

/-! ## Expressions -/

/-- The text of an expression with code, and the characters of its lines in a script. -/
inductive ExpressionText (source : List Char) (body : List (List Char)) : Prop
  | unchanged {u tail line : List Char} {more : List (List Char)} (hnone : returnLine? source = none)
    (htrimmed : Trimmed source u tail line more)
    (htext : unlines (body.map (indentation ++ ·)) =
      indentation ++ (indentBreaks indentation u ++ (tail ++ ['\n'])))
    (hlength : body.length = (Place.start.after u).line)
  | returning {u b v w tail line : List Char} {more : List (List Char)} (hsource : source = u ++ (b ++ v))
    (hline : returnLine? source = some (Place.start.after u).line) (hu : u = [] ∨ u.getLast? = some '\n')
    (hblank : ∀ c ∈ b, isBlank c = true) (hone : '\n' ∉ b) (htrimmed : Trimmed v w tail line more)
    (htext : unlines (body.map (indentation ++ ·)) = indentation ++ (indentBreaks indentation u ++
      (b ++ (returnWord ++ (indentBreaks indentation w ++ (tail ++ ['\n']))))))
    (hlength : body.length = (Place.start.after (u ++ (b ++ w))).line)

theorem findIdx?_zip_self (kept blanks : List (List Char)) :
    ((kept ++ blanks).zip kept).findIdx? (fun l => l.1 != l.2) = none := by
  induction kept with
  | nil => simp
  | cons line kept ih => simp [List.findIdx?_cons, ih]

theorem findIdx?_zip_changed (before : List (List Char)) {line line' : List Char} (h : line ≠ line')
    (ls ls' : List (List Char)) :
    ((before ++ line :: ls).zip (before ++ line' :: ls')).findIdx? (fun l => l.1 != l.2) = some before.length := by
  induction before with
  | nil => simp [List.findIdx?_cons, h]
  | cons first before ih => simp [List.findIdx?_cons, ih]

theorem isAllBlank_of_isCodeLine {b code : List Char} (hb : ∀ c ∈ b, isBlank c = true) (h : isCodeLine (b ++ code) = true) :
    isAllBlank code = false := by
  by_contra hall
  have hline : isAllBlank (b ++ code) = true :=
    List.all_eq_true.mpr (List.forall_mem_append.mpr ⟨hb, List.all_eq_true.mp (Bool.not_eq_false _ ▸ hall)⟩)
  rw [isCodeLine, hline] at h
  cases h

theorem append_ne_returnWord_append (b code : List Char) : b ++ code ≠ b ++ returnWord ++ code := by
  intro heq
  have hword : returnWord.length = 7 := rfl
  have hlength := congrArg List.length heq
  simp only [List.length_append, hword] at hlength
  omega

/-- **The text of an expression, which holds more than blanks, stands in the script with its lines indented**, and perhaps
with `return` in one of them. Only blanks at its end are missing. -/
theorem expressionText (hsource : ∃ c ∈ s, isBlank c = false) : ExpressionText s (wrappedLines s) := by
  obtain ⟨kept, blanks, hlines, hblanks, hlast, hreturned⟩ := wrapped_wrappedLines s
  have hls := linesOf_lines s
  rw [hlines] at hls
  generalize hbody : wrappedLines s = body at hreturned
  have hzip : returnLine? s = (((kept ++ blanks).zip body).findIdx? fun l => l.1 != l.2).map (· + 1) := by
    rw [returnLine?, hlines, hbody]
  -- where no word is put in
  have hunchanged : kept ≠ [] → body = kept → ExpressionText s body := by
    rintro hkept rfl
    obtain ⟨line, more, rfl⟩ := List.exists_cons_of_ne_nil hkept
    obtain ⟨u, tail, h⟩ := linesOf_trimmed hls hlast hblanks
    refine .unchanged ?_ h ?_ ?_
    · rw [hzip, findIdx?_zip_self]
      rfl
    · rw [List.map_cons, unlines_cons, List.append_assoc, h.lines]
    · rw [h.height, List.length_cons, Nat.add_comm]
      rfl
  cases hreturned with
  | nothing =>
    obtain ⟨c, hc, hsolid⟩ := hsource
    rw [linesOf_blank hls hblanks c hc] at hsolid
    cases hsolid
  | codeless hkept => exact hunchanged hkept rfl
  | unchanged => exact hunchanged (by simp) rfl
  | @inserted before after b code hb hcode =>
    obtain ⟨u, v, rfl, hv, hu, hheight, htext⟩ := linesOf_split (by rwa [List.append_assoc] at hls)
    have hblank : ∀ c ∈ b, isBlank c = true := List.all_eq_true.mp hb
    have hcode' : isAllBlank code = false := isAllBlank_of_isCodeLine hblank hcode
    have hne : code ≠ [] := by
      rintro rfl
      cases hcode'
    obtain ⟨v, rfl, hv'⟩ := linesOf_drop hv hne
    have hkept : ∀ l ∈ (code :: after).getLast?, isAllBlank l = false := by
      cases after with
      | nil =>
        rintro l ⟨⟩
        exact hcode'
      | cons next after => simpa using hlast
    obtain ⟨w, tail, h⟩ := linesOf_trimmed hv' hkept hblanks
    have hfeed := hv.newline_not_mem _ List.mem_cons_self
    rw [List.mem_append, not_or] at hfeed
    refine .returning rfl ?_ hu hblank hfeed.1 h ?_ ?_
    · rw [hzip, List.append_assoc, List.cons_append, findIdx?_zip_changed _ (append_ne_returnWord_append b code), hheight, Nat.add_comm]
      rfl
    · rw [List.map_append, unlines_append, List.map_cons, unlines_cons, List.append_assoc indentation, htext]
      simp only [List.append_assoc, h.lines]
    · rw [Place.after_append, Place.after_append, h.height, Place.after_line _ hfeed.1, hheight, List.length_append,
        List.length_cons]
      change _ = 1 + _ + _
      omega

end Worksheet.Formula
