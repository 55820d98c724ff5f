import Worksheet.Proofs.Formula.ExpressionText
import Worksheet.Proofs.Formula.Header
/-!
# Places in the author's text

A message about a place of the script names a place of the author's text. Here the script is made up once more, and
every character of the author's carries along the place where it was written.

* `generated`, `authored`, `textOf`: characters with the places where they were written;
* `traced`, `textOf_traced`: the script of a formula with these places;
* `mem_traced`: each character of a line that is kept is in the script;
* `sourceMap`: the places of a script, with the places of the author's text that they come from;
* **`locate_traced`**: what is said about a character of the author's, and where it is wrong.
-/

namespace Worksheet.Formula

open Worksheet.Text

/-! ## Characters and where they come from -/

/-- Characters of a script, each with the place where the author wrote it, if the author did. -/
abbrev Traced : Type :=
  List (Char × Option Place)

/-- Characters that nobody wrote. -/
def generated (cs : List Char) : Traced :=
  cs.map (·, none)

/-- What the author wrote, from a place on. -/
def authored (p : Place) : List Char → Traced
  | [] => []
  | c :: cs => (c, some p) :: authored (p.next c) cs

/-- The characters alone. -/
def textOf (ts : Traced) : List Char :=
  ts.map (·.1)

/-- The line with `return` after its leading white space, unless it returns by itself or closes a block. -/
def tracedReturning (line : Traced) : Traced :=
  if returns (textOf line) || closesBlock (textOf line) then line
  else line.takeWhile (isBlank ·.1) ++ generated returnWord ++ line.dropWhile (isBlank ·.1)

/-- Lines of the author's, from the first one on. -/
def authoredLines (ls : List (List Char)) : List Traced :=
  ls.mapIdx fun k line => authored ⟨k + 1, 1⟩ line

/-- The lines of an expression as they stand in the script, without their indentation. -/
def tracedLines (source : List Char) : List Traced :=
  match dropBlankEnd (lines source) with
  | [] => [generated "return ();".toList]
  | kept => changeLast (isCodeLine ∘ textOf) tracedReturning (authoredLines kept)

/-- The script of a formula. -/
def traced (mode : FormulaMode) (source : String) (columns : List Column) (row : Row) : Traced :=
  let head := generated (unlines ((preamble mode columns row).map String.toList))
  match mode with
  | .expression =>
    head ++ generated "let fx = || \x7b\n".toList ++
      (tracedLines source.toList).flatMap (fun line => generated indentation ++ line ++ generated ['\n']) ++
      generated "\x7d;\nfx.call()\n".toList
  | .module =>
    head ++ authored Place.start source.toList ++
      generated (if source.toList.getLast? = some '\n' then [] else ['\n']) ++ generated "fx()\n".toList

/-- The author's lines that are in the script. -/
def keptLines (source : List Char) : FormulaMode → List (List Char)
  | .expression => dropBlankEnd (lines source)
  | .module => lines source

variable {s cs line : List Char} {ts us : Traced} {p q o o' : Place} {c : Char}

/-! ## The characters -/

@[simp] theorem textOf_generated (cs : List Char) : textOf (generated cs) = cs := by
  rw [textOf, generated, List.map_map]
  exact List.map_id _

@[simp] theorem textOf_authored (p : Place) (cs : List Char) : textOf (authored p cs) = cs := by
  induction cs generalizing p with
  | nil => rfl
  | cons c cs ih => exact congrArg (c :: ·) (ih _)

@[simp] theorem textOf_append (ts us : Traced) : textOf (ts ++ us) = textOf ts ++ textOf us :=
  List.map_append

@[simp] theorem map_textOf_authoredLines (ls : List (List Char)) : (authoredLines ls).map textOf = ls := by
  refine List.ext_getElem? fun k => ?_
  rw [List.getElem?_map, authoredLines, List.getElem?_mapIdx, Option.map_map]
  simp [Function.comp_def]

theorem textOf_takeWhile (line : Traced) :
    textOf (line.takeWhile (isBlank ·.1)) = (textOf line).takeWhile isBlank := by
  rw [textOf, textOf, List.takeWhile_map]
  rfl

theorem textOf_dropWhile (line : Traced) : textOf (line.dropWhile (isBlank ·.1)) = trimStart (textOf line) := by
  rw [textOf, textOf, trimStart, List.dropWhile_map]
  rfl

theorem textOf_tracedReturning (line : Traced) : textOf (tracedReturning line) = returning (textOf line) := by
  rw [tracedReturning, returning]
  split_ifs
  · rfl
  · rw [textOf_append, textOf_append, textOf_generated, textOf_takeWhile, textOf_dropWhile]

theorem map_changeLast {α β : Type} {p : β → Bool} {f : α → α} {g : α → β} {f' : β → β}
    (hf : ∀ a, g (f a) = f' (g a)) (l : List α) :
    (changeLast (p ∘ g) f l).map g = changeLast p f' (l.map g) := by
  induction l with
  | nil => rfl
  | cons a l ih =>
    have hany : l.any (p ∘ g) = (l.map g).any p := List.any_map.symm
    rw [changeLast, List.map_cons, changeLast, hany, Function.comp_apply]
    split_ifs
    · rw [List.map_cons, hf]
    · rw [List.map_cons, ih]

theorem map_textOf_tracedLines (s : List Char) : (tracedLines s).map textOf = wrappedLines s := by
  rw [tracedLines, wrappedLines]
  cases dropBlankEnd (lines s) with
  | nil => exact congrArg (· :: []) (textOf_generated _)
  | cons line kept =>
    exact (map_changeLast textOf_tracedReturning _).trans (congrArg _ (map_textOf_authoredLines _))

theorem textOf_flatMap (ls : List Traced) :
    textOf (ls.flatMap fun line => generated indentation ++ line ++ generated ['\n']) =
      unlines ((ls.map textOf).map (indentation ++ ·)) := by
  induction ls with
  | nil => rfl
  | cons line ls ih =>
    rw [List.flatMap_cons, textOf_append, ih]
    simp [unlines]

/-- **The characters of the traced script are those of the script.** -/
theorem textOf_traced (mode : FormulaMode) (source : String) (columns : List Column) (row : Row) :
    textOf (traced mode source columns row) = (compile mode source columns row).script := by
  cases mode with
  | expression =>
    simp only [traced, compile, textOf_append, textOf_generated, textOf_flatMap, map_textOf_tracedLines]
  | module =>
    simp only [traced, compile, textOf_append, textOf_generated, textOf_authored, moduleText]
    split_ifs <;> simp

/-! ## Source maps -/

/-- The places of the author's characters in a script that starts at a place, with those where they were written. -/
def sourceMap (p : Place) : Traced → List (Place × Place)
  | [] => []
  | (c, origin) :: ts => (origin.toList.map (p, ·)) ++ sourceMap (p.next c) ts

theorem sourceMap_append (p : Place) (ts us : Traced) :
    sourceMap p (ts ++ us) = sourceMap p ts ++ sourceMap (p.after (textOf ts)) us := by
  induction ts generalizing p with
  | nil => rfl
  | cons t ts ih =>
    rw [List.cons_append, sourceMap, ih, sourceMap, List.append_assoc]
    rfl

@[simp] theorem sourceMap_generated (p : Place) (cs : List Char) : sourceMap p (generated cs) = [] := by
  induction cs generalizing p with
  | nil => rfl
  | cons c cs ih => exact ih _

/-- A character of the author's is in the source map, at the place right after the characters before it. -/
theorem mem_sourceMap_of_eq {before after : Traced} (h : ts = before ++ (c, some o) :: after) (p : Place) :
    (p.after (textOf before), o) ∈ sourceMap p ts := by
  rw [h, sourceMap_append]
  exact List.mem_append_right _ List.mem_cons_self

theorem exists_of_mem_sourceMap (h : (q, o) ∈ sourceMap p (authored o' s)) :
    ∃ u c v, s = u ++ c :: v ∧ q = p.after u ∧ o = o'.after u := by
  induction s generalizing p o' with
  | nil => cases h
  | cons c s ih =>
    rcases List.mem_cons.mp h with heq | hmem
    · cases heq
      exact ⟨[], c, s, rfl, rfl, rfl⟩
    · obtain ⟨u, d, v, rfl, rfl, rfl⟩ := ih hmem
      exact ⟨c :: u, d, v, rfl, rfl, rfl⟩

/-- Characters that are next to each other on a line of the author's are so in the script. -/
theorem sourceMap_authored (hline : '\n' ∉ line) (h : (q, o) ∈ sourceMap p (authored o' line)) :
    ∃ i < line.length, q = ⟨p.line, p.column + i⟩ ∧ o = ⟨o'.line, o'.column + i⟩ := by
  obtain ⟨u, c, v, rfl, rfl, rfl⟩ := exists_of_mem_sourceMap h
  have hu : '\n' ∉ u := fun hmem => hline (List.mem_append_left _ hmem)
  exact ⟨u.length, by simp, Place.after_of_not_mem _ hu, Place.after_of_not_mem _ hu⟩

/-- The lines of an expression stand one below the other, behind their indentation. -/
theorem sourceMap_lines {ls : List Traced} (hls : ∀ line ∈ ls, '\n' ∉ textOf line) {n : Nat} {e : Place × Place}
    (h : e ∈ sourceMap ⟨n, 1⟩ (ls.flatMap fun line => generated indentation ++ line ++ generated ['\n'])) :
    ∃ i line, ls[i]? = some line ∧ e ∈ sourceMap ⟨n + i, 1 + indentation.length⟩ line := by
  induction ls generalizing n with
  | nil => cases h
  | cons line ls ih =>
    rw [List.forall_mem_cons] at hls
    have hindentation : (⟨n, 1⟩ : Place).after indentation = ⟨n, 1 + indentation.length⟩ := rfl
    have hfeed : (⟨n, 1⟩ : Place).after (textOf (generated indentation ++ line ++ generated ['\n'])) = ⟨n + 1, 1⟩ := by
      simp only [textOf_append, textOf_generated, Place.after_append, hindentation, Place.after_of_not_mem _ hls.1]
      rfl
    rw [List.flatMap_cons, sourceMap_append, hfeed] at h
    rcases List.mem_append.mp h with h | h
    · simp only [sourceMap_append, sourceMap_generated, List.nil_append, List.append_nil, textOf_generated,
        hindentation] at h
      exact ⟨0, line, rfl, h⟩
    · obtain ⟨i, line', hline', he⟩ := ih hls.2 h
      exact ⟨i + 1, line', hline', by rwa [Nat.add_comm i, ← Nat.add_assoc]⟩

/-! ## The line that gets `return` -/

/-- The line with `return` behind its leading white space. -/
def returned (p : Place) (line : List Char) : Traced :=
  authored p (line.takeWhile isBlank) ++ generated returnWord ++
    authored (p.after (line.takeWhile isBlank)) (trimStart line)

/-- A line of an expression as it stands in the script, whether or not it gets `return`. -/
def tracedLine (source : List Char) (k : Nat) (line : List Char) : Traced :=
  if returnLine? source = some (k + 1) then returned ⟨k + 1, 1⟩ line else authored ⟨k + 1, 1⟩ line

theorem takeWhile_append_trimStart (line : List Char) : line.takeWhile isBlank ++ trimStart line = line :=
  List.takeWhile_append_dropWhile

theorem takeWhile_authored (p : Place) (line : List Char) :
    (authored p line).takeWhile (isBlank ·.1) = authored p (line.takeWhile isBlank) := by
  induction line generalizing p with
  | nil => rfl
  | cons c line ih => by_cases hc : isBlank c = true <;> simp [authored, hc, ih]

theorem dropWhile_authored (p : Place) (line : List Char) :
    (authored p line).dropWhile (isBlank ·.1) = authored (p.after (line.takeWhile isBlank)) (trimStart line) := by
  induction line generalizing p with
  | nil => rfl
  | cons c line ih =>
    rw [trimStart] at ih ⊢
    by_cases hc : isBlank c = true
    · simp [authored, hc, ih, Place.after]
    · simp [authored, hc, Place.after]

theorem tracedReturning_authored (p : Place) (line : List Char) :
    tracedReturning (authored p line) =
      if returns line || closesBlock line then authored p line else returned p line := by
  rw [tracedReturning, textOf_authored, takeWhile_authored, dropWhile_authored]
  rfl

theorem getElem?_authoredLines (ls : List (List Char)) (k : Nat) :
    (authoredLines ls)[k]? = ls[k]?.map (authored ⟨k + 1, 1⟩) :=
  List.getElem?_mapIdx

theorem ne_textOf_returned (p : Place) (line : List Char) : line ≠ textOf (returned p line) := fun heq => by
  have hword : returnWord.length = 7 := rfl
  have hlength := congrArg List.length heq
  have hlength' := congrArg List.length (takeWhile_append_trimStart line)
  simp only [returned, textOf_append, textOf_authored, textOf_generated, List.length_append, hword] at hlength hlength'
  omega

theorem getElem?_append_cons_of_ne {α : Type} {before : List α} {k : Nat} (hk : k ≠ before.length) (a b : α)
    (after : List α) : (before ++ a :: after)[k]? = (before ++ b :: after)[k]? := by
  rcases Nat.lt_or_gt_of_ne hk with hlt | hgt
  · rw [List.getElem?_append_left hlt, List.getElem?_append_left hlt]
  · obtain ⟨i, rfl⟩ := Nat.exists_eq_add_of_lt hgt
    rw [List.getElem?_append_right hgt.le, List.getElem?_append_right hgt.le, Nat.add_assoc, Nat.add_sub_cancel_left]
    rfl

theorem dropBlankEnd_append (s : List Char) :
    dropBlankEnd (lines s) ++ (lines s).rtakeWhile isAllBlank = lines s := by
  rw [dropBlankEnd_eq, List.rdropWhile_append_rtakeWhile]

theorem getElem?_tracedLines (hkept : dropBlankEnd (lines s) ≠ []) (k : Nat) :
    (tracedLines s)[k]? = (dropBlankEnd (lines s))[k]?.map (tracedLine s k) := by
  have htraced : tracedLines s =
      changeLast (isCodeLine ∘ textOf) tracedReturning (authoredLines (dropBlankEnd (lines s))) := by
    rw [tracedLines]
    split
    · rename_i hnil
      exact absurd hnil hkept
    · rfl
  have hreturn : returnLine? s = (((dropBlankEnd (lines s) ++ (lines s).rtakeWhile isAllBlank).zip
      ((tracedLines s).map textOf)).findIdx? fun l => l.1 != l.2).map (· + 1) := by
    rw [dropBlankEnd_append, map_textOf_tracedLines]
    rfl
  -- where no word is put in
  have hunchanged : tracedLines s = authoredLines (dropBlankEnd (lines s)) →
      (tracedLines s)[k]? = (dropBlankEnd (lines s))[k]?.map (tracedLine s k) := fun heq => by
    rw [heq, map_textOf_authoredLines, findIdx?_zip_self] at hreturn
    have hnone : tracedLine s k = authored ⟨k + 1, 1⟩ := funext fun line => by
      rw [tracedLine, hreturn]
      rfl
    rw [heq, hnone, getElem?_authoredLines]
  rcases changeLast_cases (isCodeLine ∘ textOf) tracedReturning (authoredLines (dropBlankEnd (lines s))) with
    ⟨-, heq⟩ | ⟨before, line', after, hauthored, -, -, heq⟩
  · exact hunchanged (htraced.trans heq)
  · have hline' : (dropBlankEnd (lines s))[before.length]?.map (authored ⟨before.length + 1, 1⟩) = some line' := by
      rw [← getElem?_authoredLines, hauthored]
      simp
    obtain ⟨line, hline, rfl⟩ := Option.map_eq_some_iff.mp hline'
    rw [tracedReturning_authored] at heq
    split_ifs at heq with hsame
    · exact hunchanged (by rw [htraced, heq, hauthored])
    · have hchanged := ne_textOf_returned ⟨before.length + 1, 1⟩ line
      have hkept' := map_textOf_authoredLines (dropBlankEnd (lines s))
      rw [hauthored, List.map_append, List.map_cons, textOf_authored] at hkept'
      rw [← hkept', htraced, heq, List.map_append, List.map_cons, List.append_assoc, List.cons_append,
        findIdx?_zip_changed _ hchanged, List.length_map] at hreturn
      rw [htraced, heq]
      by_cases hk : k = before.length
      · subst hk
        have hhere : tracedLine s before.length line = returned ⟨before.length + 1, 1⟩ line := by
          rw [tracedLine, hreturn]
          exact if_pos rfl
        rw [hline, Option.map_some, hhere]
        simp
      · have hother : tracedLine s k = authored ⟨k + 1, 1⟩ := funext fun line => by
          rw [tracedLine, hreturn]
          exact if_neg (by simpa using Ne.symm hk)
        rw [getElem?_append_cons_of_ne hk _ (authored ⟨before.length + 1, 1⟩ line), ← hauthored,
          getElem?_authoredLines, hother]

/-! ## Places -/

/-- The number of blanks that a line of the author's starts with. -/
def leadingBlanks (source : List Char) (n : Nat) : Nat :=
  (((lines source)[n - 1]?.getD []).takeWhile isBlank).length

/-- By how many columns `return` moves a character of the author's to the right. -/
def columnShift (source : List Char) (o : Place) : FormulaMode → Nat
  | .expression =>
    if returnLine? source = some o.line ∧ leadingBlanks source o.line < o.column then returnWord.length else 0
  | .module => 0

theorem Place.after_below (p : Place) (n : Nat) (u : List Char) :
    (⟨p.line + n, p.column⟩ : Place).after u = ⟨(p.after u).line + n, (p.after u).column⟩ := by
  induction u generalizing p with
  | nil => rfl
  | cons c u ih =>
    have hnext : (⟨p.line + n, p.column⟩ : Place).next c = ⟨(p.next c).line + n, (p.next c).column⟩ := by
      rw [Place.next, Place.next]
      split_ifs
      · rw [Nat.add_right_comm]
      · rfl
    exact (congrArg (Place.after · u) hnext).trans (ih (p.next c))

theorem line_after_le (u : List Char) (c : Char) (v : List Char) :
    (Place.start.after u).line ≤ (lines (u ++ c :: v)).length := by
  obtain ⟨verbatim, hfeeds, htext, hlength⟩ := exists_verbatim (linesOf_lines (u ++ c :: v))
  obtain ⟨w, hw, hfeed⟩ : ∃ w, ended (u ++ c :: v) = u ++ w ∧ '\n' ∈ w := by
    rw [ended]
    split_ifs with h
    · have hlast := h.resolve_left (by simp)
      rw [List.getLast?_append_of_ne_nil _ (List.cons_ne_nil c v)] at hlast
      exact ⟨c :: v, rfl, List.mem_of_getLast? hlast⟩
    · exact ⟨c :: v ++ ['\n'], by simp, by simp⟩
  have hafter := Place.after_unlines hfeeds 1
  rw [htext, hw, Place.after_append, hlength] at hafter
  have hlt := Place.line_lt_after (p := Place.start.after u) hfeed
  have hend := congrArg Place.line hafter
  simp only at hend
  have hstart : Place.start = ⟨1, 1⟩ := rfl
  rw [hstart] at hlt ⊢
  omega

theorem Place.one_le_column_after (hp : 1 ≤ p.column) (u : List Char) : 1 ≤ (p.after u).column := by
  induction u generalizing p with
  | nil => exact hp
  | cons c u ih =>
    refine ih ?_
    rw [next]
    split_ifs
    · exact Nat.le_refl 1
    · exact Nat.le_add_left _ _

theorem mem_lines_of_kept {k : Nat} (h : (dropBlankEnd (lines s))[k]? = some line) : (lines s)[k]? = some line := by
  rw [← dropBlankEnd_append s, List.getElem?_append_left (List.getElem?_eq_some_iff.mp h).1, h]

/-- Where a character of the author's stands in a script. -/
structure Stands (c : Compiled) (shift : Nat) (q o : Place) : Prop where
  line_pos : 1 ≤ o.line
  line_le : o.line ≤ c.userLines
  column_pos : 1 ≤ o.column
  line : q.line + 1 = c.firstUserLine + o.line
  column : q.column = c.indentWidth + (o.column + shift)

variable {mode : FormulaMode} {source : String} {columns : List Column} {row : Row}

theorem after_preamble (mode : FormulaMode) (columns : List Column) (row : Row) :
    Place.start.after (unlines ((preamble mode columns row).map String.toList)) =
      ⟨1 + (preamble mode columns row).length, 1⟩ := by
  have hafter := Place.after_unlines (newline_not_mem_preamble mode columns row) 1
  rwa [List.length_map] at hafter

theorem sourceMap_module (h : (q, o) ∈ sourceMap Place.start (traced .module source columns row)) :
    Stands (compile .module source columns row) (columnShift source.toList o .module) q o := by
  simp only [traced, sourceMap_append, sourceMap_generated, List.nil_append, List.append_nil, textOf_generated,
    after_preamble] at h
  obtain ⟨u, c, v, hsource, rfl, rfl⟩ := exists_of_mem_sourceMap h
  have hbelow := Place.after_below Place.start (preamble .module columns row).length u
  change (⟨1 + _, 1⟩ : Place).after u = _ at hbelow
  refine ⟨Place.line_le_after Place.start u, ?_, Place.one_le_column_after (Nat.le_refl 1) u, ?_, ?_⟩
  · exact (hsource ▸ line_after_le u c v : _ ≤ (lines source.toList).length)
  · rw [hbelow, firstUserLine_compile]
    simp only [headerLines, List.length_nil]
    omega
  · rw [hbelow]
    simp only [compile, Compiled.indentWidth, columnShift]
    omega

theorem sourceMap_expression (h : (q, o) ∈ sourceMap Place.start (traced .expression source columns row)) :
    Stands (compile .expression source columns row) (columnShift source.toList o .expression) q o := by
  have hhead : ∀ p : Place, p.after "let fx = || \x7b\n".toList = ⟨p.line + 1, 1⟩ := fun _ => rfl
  simp only [traced, sourceMap_append, sourceMap_generated, List.nil_append, List.append_nil, textOf_generated,
    textOf_append, Place.after_append, after_preamble, hhead] at h
  have hfeeds : ∀ line ∈ tracedLines source.toList, '\n' ∉ textOf line := fun line hline =>
    newline_not_mem_wrappedLines source.toList _ (map_textOf_tracedLines source.toList ▸ List.mem_map_of_mem hline)
  obtain ⟨i, t, ht, hmem⟩ := sourceMap_lines hfeeds h
  have huser : i < (compile .expression source columns row).userLines := by
    have hlt := (List.getElem?_eq_some_iff.mp ht).1
    rwa [← List.length_map textOf, map_textOf_tracedLines] at hlt
  by_cases hkept : dropBlankEnd (lines source.toList) = []
  · rw [tracedLines, hkept] at ht
    rw [List.mem_singleton.mp (List.mem_of_getElem? ht), sourceMap_generated] at hmem
    cases hmem
  rw [getElem?_tracedLines hkept] at ht
  obtain ⟨line, hline, rfl⟩ := Option.map_eq_some_iff.mp ht
  have hauthor := mem_lines_of_kept hline
  have hfeed := (linesOf_lines source.toList).newline_not_mem line (List.mem_of_getElem? hauthor)
  rw [← takeWhile_append_trimStart line, List.mem_append, not_or] at hfeed
  have hafter : ∀ p : Place, p.after returnWord = ⟨p.line, p.column + returnWord.length⟩ := fun p => rfl
  have hstands : ∀ shift column, q = ⟨1 + (preamble .expression columns row).length + 1 + i,
      1 + indentation.length + column + shift⟩ → o = ⟨i + 1, 1 + column⟩ →
      columnShift source.toList o .expression = shift →
      Stands (compile .expression source columns row) (columnShift source.toList o .expression) q o := by
    rintro shift column rfl rfl rfl
    refine ⟨Nat.le_add_left _ _, huser, Nat.le_add_right _ _, ?_, ?_⟩
    · rw [firstUserLine_compile]
      simp only [headerLines, List.length_singleton]
      omega
    · simp only [compile, Compiled.indentWidth]
      omega
  rw [tracedLine] at hmem
  split_ifs at hmem with hreturn
  · simp only [returned, sourceMap_append, sourceMap_generated, List.append_nil, textOf_append, textOf_authored,
      textOf_generated, Place.after_append, Place.after_of_not_mem _ hfeed.1, hafter] at hmem
    rcases List.mem_append.mp hmem with hmem | hmem
    · obtain ⟨j, hj, rfl, rfl⟩ := sourceMap_authored hfeed.1 hmem
      refine hstands 0 j rfl rfl (if_neg fun hshift => ?_)
      have hlt := hshift.2
      simp only [leadingBlanks, Nat.add_sub_cancel, hauthor, Option.getD_some] at hlt
      omega
    · obtain ⟨j, hj, rfl, rfl⟩ := sourceMap_authored hfeed.2 hmem
      refine hstands returnWord.length ((line.takeWhile isBlank).length + j) ?_ ?_ (if_pos ⟨hreturn, ?_⟩)
      · simp only [Place.mk.injEq, true_and]
        omega
      · simp only [Place.mk.injEq, true_and]
        omega
      · simp only [leadingBlanks, Nat.add_sub_cancel, hauthor, Option.getD_some]
        omega
  · obtain ⟨j, hj, rfl, rfl⟩ := sourceMap_authored (takeWhile_append_trimStart line ▸ List.not_mem_append hfeed.1 hfeed.2) hmem
    exact hstands 0 j rfl rfl (if_neg fun hshift => hreturn hshift.1)

theorem sourceMap_traced (h : (q, o) ∈ sourceMap Place.start (traced mode source columns row)) :
    Stands (compile mode source columns row) (columnShift source.toList o mode) q o := by
  cases mode with
  | expression => exact sourceMap_expression h
  | module => exact sourceMap_module h

theorem Stands.named {c : Compiled} {shift : Nat} (h : Stands c shift q o) (name : String) :
    Stands (c.named name) shift q o :=
  ⟨h.line_pos, h.line_le, h.column_pos, h.line, h.column⟩

theorem Stands.locate {c : Compiled} {shift : Nat} (h : Stands c shift q o) (message : String) :
    c.locate (some q) message =
      toString o.line ++ ":" ++ toString (o.column + shift) ++ ": " ++ message := by
  obtain ⟨hpos, hle, hcolumn, hline, hshift⟩ := h
  have huser : c.userLine? q.line = some o.line := (c.userLine?_eq_some_iff _ _).mpr ⟨hpos, hle, hline⟩
  have hformula : c.formulaLine? q.line = some o.line := by
    rw [Compiled.formulaLine?, if_pos (by omega)]
    congr 1
    omega
  have hmax : max (q.column - c.indentWidth) 1 = o.column + shift := by omega
  simp only [Compiled.locate, hformula, huser, Option.isSome_some, if_true, hmax]

theorem locate_of_eq {before after : Traced}
    (h : traced mode source columns row = before ++ (c, some o) :: after) (name message : String) :
    ((compile mode source columns row).named name).locate (some (Place.start.after (textOf before))) message =
      toString o.line ++ ":" ++ toString (o.column + columnShift source.toList o mode) ++ ": " ++ message :=
  ((sourceMap_traced (mem_sourceMap_of_eq h Place.start)).named name).locate message

/-! ## Nothing is lost -/

theorem authored_append (p : Place) (u v : List Char) :
    authored p (u ++ v) = authored p u ++ authored (p.after u) v := by
  induction u generalizing p with
  | nil => rfl
  | cons c u ih => exact congrArg ((c, some p) :: ·) (ih _)

theorem mem_authored {i : Nat} (hline : '\n' ∉ cs) (hc : cs[i]? = some c) :
    (c, some ⟨p.line, p.column + i⟩) ∈ authored p cs := by
  induction cs generalizing p i with
  | nil => cases hc
  | cons d cs ih =>
    rw [List.mem_cons, not_or] at hline
    cases i with
    | zero =>
      obtain rfl : d = c := Option.some.inj hc
      exact List.mem_cons_self
    | succ i =>
      have hnext : p.next d = ⟨p.line, p.column + 1⟩ := if_neg (Ne.symm hline.1)
      have hmem := ih (p := ⟨p.line, p.column + 1⟩) hline.2 hc
      rw [Nat.add_assoc, Nat.add_comm 1] at hmem
      rw [authored, hnext]
      exact List.mem_cons_of_mem _ hmem

/-- The characters of lines are among those of the first line, or of what comes after it. -/
theorem mem_authored_or {l : List Char} {ls : List (List Char)} (hfeed : '\n' ∉ l) {n k i : Nat}
    (hline : (l :: ls)[k]? = some cs) (hc : cs[i]? = some c)
    (hlater : ∀ {n k : Nat}, ls[k]? = some cs → (c, some ⟨n + k, 1 + i⟩) ∈ authored ⟨n, 1⟩ s) :
    (c, some ⟨n + k, 1 + i⟩) ∈ authored ⟨n, 1⟩ l ∨ (c, some ⟨n + k, 1 + i⟩) ∈ authored ⟨n + 1, 1⟩ s := by
  cases k with
  | zero =>
    cases hline
    exact Or.inl (mem_authored hfeed hc)
  | succ k =>
    have hmem := hlater (n := n + 1) hline
    rw [Nat.add_assoc, Nat.add_comm 1] at hmem
    exact Or.inr hmem

theorem mem_authored_of_lines {ls : List (List Char)} (h : LinesOf s ls) {n k i : Nat} (hline : ls[k]? = some cs)
    (hc : cs[i]? = some c) : (c, some ⟨n + k, 1 + i⟩) ∈ authored ⟨n, 1⟩ s := by
  induction h generalizing n k with
  | nil => cases hline
  | unended hfeed =>
    cases k with
    | zero =>
      cases hline
      exact mem_authored hfeed hc
    | succ k => cases hline
  | feed hfeed _ _ ih =>
    rw [authored_append, Place.after_of_not_mem _ hfeed, List.mem_append]
    exact (mem_authored_or hfeed hline hc ih).imp_right (List.mem_cons_of_mem _)
  | returnFeed hfeed _ ih =>
    rw [authored_append, Place.after_of_not_mem _ hfeed, List.mem_append]
    exact (mem_authored_or hfeed hline hc ih).imp_right fun hmem => List.mem_cons_of_mem _ (List.mem_cons_of_mem _ hmem)

theorem mem_returned {e : Char × Option Place} (h : e ∈ authored p line) : e ∈ returned p line := by
  rw [← takeWhile_append_trimStart line, authored_append] at h
  rw [returned, List.append_assoc]
  exact (List.mem_append.mp h).elim (List.mem_append_left _) fun hcode =>
    List.mem_append_right _ (List.mem_append_right _ hcode)

theorem mem_traced {k i : Nat} (hline : (keptLines source.toList mode)[k]? = some cs) (hc : cs[i]? = some c)
    (columns : List Column) (row : Row) : (c, some ⟨k + 1, i + 1⟩) ∈ traced mode source columns row := by
  have hlines := linesOf_lines source.toList
  cases mode with
  | module =>
    have hmem := mem_authored_of_lines hlines (n := 1) hline hc
    rw [Nat.add_comm 1, Nat.add_comm 1] at hmem
    exact List.mem_append_left _ (List.mem_append_left _ (List.mem_append_right _ hmem))
  | expression =>
    have hkept : dropBlankEnd (lines source.toList) ≠ [] := fun hnil => by
      rw [keptLines, hnil] at hline
      cases hline
    have hfeed := hlines.newline_not_mem cs (List.mem_of_getElem? (mem_lines_of_kept hline))
    have hmem : (c, some ⟨k + 1, i + 1⟩) ∈ authored ⟨k + 1, 1⟩ cs := Nat.add_comm 1 i ▸ mem_authored hfeed hc
    obtain ⟨t, ht, hmem'⟩ : ∃ t, (tracedLines source.toList)[k]? = some t ∧ (c, some ⟨k + 1, i + 1⟩) ∈ t := by
      refine ⟨_, (getElem?_tracedLines hkept k).trans (congrArg _ hline), ?_⟩
      rw [tracedLine]
      split_ifs
      · exact mem_returned hmem
      · exact hmem
    refine List.mem_append_left _ (List.mem_append_right _ (List.mem_flatMap.mpr ⟨t, List.mem_of_getElem? ht, ?_⟩))
    exact List.mem_append_left _ (List.mem_append_right _ hmem')

/-- **What is said about a character of the author's.** Let every character of a script carry along the place where
its author wrote it. Each character of each line that is kept is there with its line and its column. A message about
such a character, wherever it stands in the script, names its line and its column in the author's text. Only on the
line of an expression that gets `return` is the column too large: by the length of the word, from where it is put in. -/
theorem locate_traced (mode : FormulaMode) (source : String) (columns : List Column) (row : Row) :
    textOf (traced mode source columns row) = (compile mode source columns row).script ∧
    (∀ (k i : Nat) cs c, (keptLines source.toList mode)[k]? = some cs → cs[i]? = some c →
      (c, some ⟨k + 1, i + 1⟩) ∈ traced mode source columns row) ∧
    ∀ before c o after, traced mode source columns row = before ++ (c, some o) :: after → ∀ name message,
      ((compile mode source columns row).named name).locate (some (Place.start.after (textOf before))) message =
        toString o.line ++ ":" ++ toString (o.column + columnShift source.toList o mode) ++ ": " ++ message :=
  ⟨textOf_traced mode source columns row, fun _ _ _ _ hline hc => mem_traced hline hc columns row,
    fun _ _ _ _ h => locate_of_eq h⟩

/-- A variable that is all of an expression is said to stand behind the word that the author did not write. -/
theorem locate_behind_return : ∃ before after,
    traced .expression "x" [] (Row.new "r") = before ++ ('x', some ⟨1, 1⟩) :: after ∧
    (compile .expression "x" [] (Row.new "r")).locate (some (Place.start.after (textOf before)))
      "Variable not found: x" = "1:8: Variable not found: x" := by
  have hkept : (keptLines "x".toList .expression)[0]? = some ['x'] := by decide
  obtain ⟨before, after, h⟩ := List.append_of_mem (mem_traced hkept (i := 0) rfl [] (Row.new "r"))
  have hshift : columnShift "x".toList ⟨1, 1⟩ .expression = 7 := by decide
  have hlocate := locate_of_eq h (compile .expression "x" [] (Row.new "r")).name "Variable not found: x"
  rw [hshift] at hlocate
  exact ⟨before, after, h, hlocate⟩

end Worksheet.Formula
