import Mathlib.Data.List.DropRight
import Worksheet.Proofs.Formula.RowData
import Worksheet.Proofs.Text.Lines
/-!
# Where the author's lines stand in a script

* `splitAtFeeds_unlines`, `length_lines_unlines`: lines that were joined are found again between the line feeds, and
  are counted right;
* `exists_verbatim`: a module stands in a script line by line, as its author wrote it;
* `Wrapped`, `wrapped_wrappedLines`: what becomes of the lines of an expression;
* **`compile_lines`**: the lines of a script, and the author's lines among them.
-/

namespace Worksheet.Formula

open Worksheet.Text

variable {s rest : List Char} {ls : List (List Char)}

theorem unlines_cons (line : List Char) (ls : List (List Char)) : unlines (line :: ls) = line ++ '\n' :: unlines ls := by
  simp [unlines]

theorem splitAtFeeds_unlines (h : ∀ line ∈ ls, '\n' ∉ line) (rest : List Char) :
    splitAtFeeds (unlines ls ++ rest) = ls ++ splitAtFeeds rest := by
  induction ls with
  | nil => rfl
  | cons line ls ih =>
    rw [List.forall_mem_cons] at h
    rw [unlines_cons, List.append_assoc, List.cons_append, splitAtFeeds_line h.1, List.cons_append, ih h.2]

theorem length_lines_unlines (h : ∀ line ∈ ls, '\n' ∉ line) : (lines (unlines ls)).length = ls.length := by
  induction ls with
  | nil => rfl
  | cons line ls ih =>
    rw [List.forall_mem_cons] at h
    rw [unlines_cons, length_lines_line h.1, ih h.2, List.length_cons]

/-! ## Modules -/

/-- The text with its last line ended. -/
def ended (s : List Char) : List Char :=
  if s = [] ∨ s.getLast? = some '\n' then s else s ++ ['\n']

theorem ended_line (line rest : List Char) : ended (line ++ '\n' :: rest) = line ++ '\n' :: ended rest := by
  cases hrest : rest with
  | nil => simp [ended]
  | cons c more =>
    have hlast : (line ++ '\n' :: c :: more).getLast? = (c :: more).getLast? := by
      rw [List.getLast?_append, List.getLast?_cons_cons, List.getLast?_cons]
      rfl
    simp only [ended, hlast]
    split_ifs <;> simp_all

theorem moduleText_of_ne_nil (h : s ≠ []) : moduleText s = ended s := by
  simp [moduleText, ended, h]

/-- The lines of a text can be taken from it with all that comes before each line feed. -/
theorem exists_verbatim (h : LinesOf s ls) :
    ∃ verbatim, (∀ line ∈ verbatim, '\n' ∉ line) ∧ unlines verbatim = ended s ∧
      verbatim.length = ls.length := by
  induction h with
  | nil => exact ⟨[], by simp, rfl, rfl⟩
  | @unended line hfeed hline =>
    refine ⟨[line], by simpa using hfeed, ?_, rfl⟩
    have hlast : line.getLast? ≠ some '\n' := fun hlast => hfeed (List.mem_of_getLast? hlast)
    simp [unlines, ended, hline, hlast]
  | @feed line rest others hfeed _ _ ih =>
    obtain ⟨verbatim, hfeeds, htext, hlength⟩ := ih
    refine ⟨line :: verbatim, by simpa using ⟨hfeed, hfeeds⟩, ?_, by simp [hlength]⟩
    rw [ended_line, ← htext]
    simp [unlines]
  | @returnFeed line rest others hfeed _ ih =>
    obtain ⟨verbatim, hfeeds, htext, hlength⟩ := ih
    refine ⟨(line ++ ['\r']) :: verbatim, by simpa using ⟨hfeed, hfeeds⟩, ?_, by simp [hlength]⟩
    have hline : line ++ '\r' :: '\n' :: rest = (line ++ ['\r']) ++ '\n' :: rest := by simp
    rw [hline, ended_line, ← htext]
    simp [unlines]

/-! ## Expressions -/

/-- What becomes of the lines of an expression, the blank ones at its end left out: `return` may be put before the
code of the last line that holds code. -/
inductive Returned : List (List Char) → List (List Char) → Prop
  | nothing : Returned [] ["return ();".toList]
  | codeless {kept : List (List Char)} (hkept : kept ≠ []) (hcode : ∀ line ∈ kept, isCodeLine line = false) :
      Returned kept kept
  | unchanged {before after : List (List Char)} {line : List Char} (hcode : isCodeLine line = true)
      (hafter : ∀ line ∈ after, isCodeLine line = false) (hline : returns line = true ∨ closesBlock line = true) :
      Returned (before ++ line :: after) (before ++ line :: after)
  | inserted {before after : List (List Char)} {indent code : List Char} (hindent : isAllBlank indent = true)
      (hcode : isCodeLine (indent ++ code) = true) (hafter : ∀ line ∈ after, isCodeLine line = false) :
      Returned (before ++ (indent ++ code) :: after) (before ++ (indent ++ returnWord ++ code) :: after)

/-- The lines of an expression and those that are in the script. Only blank lines at the end are missing. -/
def Wrapped (author body : List (List Char)) : Prop :=
  ∃ kept blanks, author = kept ++ blanks ∧ (∀ line ∈ blanks, isAllBlank line = true) ∧
    (∀ line ∈ kept.getLast?, isAllBlank line = false) ∧ Returned kept body

theorem changeLast_cases {α : Type} (p : α → Bool) (f : α → α) (l : List α) :
    (∀ a ∈ l, p a = false) ∧ changeLast p f l = l ∨
      ∃ before a after, l = before ++ a :: after ∧ p a = true ∧ (∀ b ∈ after, p b = false) ∧
        changeLast p f l = before ++ f a :: after := by
  induction l with
  | nil => exact Or.inl ⟨by simp, rfl⟩
  | cons a rest ih =>
    rcases ih with ⟨hnone, hrest⟩ | ⟨before, b, after, rfl, hb, hafter, hrest⟩
    · have hany : rest.any p = false := by simpa using hnone
      cases ha : p a with
      | false => exact Or.inl ⟨by simpa [ha] using hnone, by simp [changeLast, ha, hrest]⟩
      | true => exact Or.inr ⟨[], a, rest, rfl, ha, hnone, by simp [changeLast, ha, hany]⟩
    · refine Or.inr ⟨a :: before, b, after, rfl, hb, hafter, ?_⟩
      simp [changeLast, hb, hrest]

theorem returned_changeLast {kept : List (List Char)} (hkept : kept ≠ []) :
    Returned kept (changeLast isCodeLine returning kept) := by
  rcases changeLast_cases isCodeLine returning kept with
    ⟨hnone, heq⟩ | ⟨before, line, after, rfl, hcode, hafter, heq⟩
  · rw [heq]
    exact .codeless hkept hnone
  · rw [heq, returning]
    split_ifs with h
    · exact .unchanged hcode hafter (by simpa using h)
    · have hline : line.takeWhile isBlank ++ trimStart line = line := List.takeWhile_append_dropWhile
      rw [← hline] at hcode
      have hinserted : Returned (before ++ (line.takeWhile isBlank ++ trimStart line) :: after) _ :=
        .inserted List.all_takeWhile hcode hafter
      rwa [hline] at hinserted

theorem dropBlankEnd_eq (ls : List (List Char)) : dropBlankEnd ls = ls.rdropWhile isAllBlank :=
  rfl

theorem wrapped_wrappedLines (s : List Char) : Wrapped (lines s) (wrappedLines s) := by
  refine ⟨dropBlankEnd (lines s), (lines s).rtakeWhile isAllBlank, ?_, ?_, ?_, ?_⟩
  · rw [dropBlankEnd_eq, List.rdropWhile_append_rtakeWhile]
  · exact fun line hline => List.mem_rtakeWhile_imp hline
  · intro line hline
    rw [dropBlankEnd_eq] at hline
    obtain ⟨hne, rfl⟩ := List.mem_getLast?_eq_getLast hline
    simpa using List.rdropWhile_last_not isAllBlank (lines s) hne
  · rw [wrappedLines]
    split
    · rename_i hnil
      rw [hnil]
      exact .nothing
    · rename_i hkept
      exact returned_changeLast hkept

theorem Returned.newline_not_mem {kept body : List (List Char)} (h : Returned kept body)
    (hkept : ∀ line ∈ kept, '\n' ∉ line) : ∀ line ∈ body, '\n' ∉ line := by
  have hword : '\n' ∉ returnWord := by decide
  cases h with
  | nothing => decide
  | codeless => exact hkept
  | unchanged => exact hkept
  | inserted =>
    rw [List.forall_mem_append, List.forall_mem_cons] at hkept ⊢
    obtain ⟨hbefore, hline, hafter⟩ := hkept
    refine ⟨hbefore, ?_, hafter⟩
    simp only [List.mem_append, not_or] at hline ⊢
    exact ⟨⟨hline.1, hword⟩, hline.2⟩

theorem newline_not_mem_wrappedLines (s : List Char) : ∀ line ∈ wrappedLines s, '\n' ∉ line := by
  obtain ⟨kept, blanks, hlines, -, -, hreturned⟩ := wrapped_wrappedLines s
  have hfeeds := (linesOf_lines s).newline_not_mem
  rw [hlines, List.forall_mem_append] at hfeeds
  exact hreturned.newline_not_mem hfeeds.1

/-! ## Scripts -/

/-- The lines between the preamble and the author's lines. -/
def headerLines : FormulaMode → List (List Char)
  | .expression => ["let fx = || \x7b".toList]
  | .module => []

/-- The lines after the author's ones. A module without text leaves an empty line. -/
def entryLines (source : List Char) : FormulaMode → List (List Char)
  | .expression => ["\x7d;".toList, "fx.call()".toList]
  | .module => (if source = [] then [[]] else []) ++ ["fx()".toList]

theorem newline_not_mem_headerLines (mode : FormulaMode) : ∀ line ∈ headerLines mode, '\n' ∉ line := by
  cases mode <;> decide

theorem newline_not_mem_entryLines (source : List Char) (mode : FormulaMode) :
    ∀ line ∈ entryLines source mode, '\n' ∉ line := by
  cases mode <;> rw [entryLines]
  · decide
  · split_ifs <;> decide

/-- Those lines of a script are the author's. -/
inductive Authored (source : List Char) : FormulaMode → List (List Char) → Prop
  | expression {author body : List (List Char)} (hauthor : LinesOf source author) (hbody : Wrapped author body) :
      Authored source .expression (body.map (indentation ++ ·))
  | module {verbatim : List (List Char)} (hfeeds : ∀ line ∈ verbatim, '\n' ∉ line)
      (htext : unlines verbatim = ended source) : Authored source .module verbatim

/-- A literal is checked by the characters that it is written with, which is faster than to decode its bytes. -/
theorem newline_not_mem_literal {text : String} {characters : List Char} (h : String.ofList characters = text)
    (hfeed : characters.contains '\n' = false) : '\n' ∉ text.toList := by
  rw [← h, String.toList_ofList]
  simpa using hfeed

theorem newline_not_mem_source : ∀ line ∈ Builtin.source, '\n' ∉ line.toList := by
  simp only [Builtin.source, List.forall_mem_cons]
  and_intros
  all_goals first
    | exact newline_not_mem_literal rfl rfl
    | exact List.forall_mem_nil _

theorem newline_not_mem_preamble (mode : FormulaMode) (columns : List Column) (row : Row) :
    ∀ line ∈ (preamble mode columns row).map String.toList, '\n' ∉ line := by
  have hdata : ∀ line ∈ (dataLines mode columns row).map String.toList, '\n' ∉ line :=
    ((List.forall₂_and_left (p := fun line => '\n' ∉ line) _ _).mp
      ((encodes_dataLines mode columns row).imp fun line d h => ⟨h.oneLine, h⟩)).1
  rw [preamble, List.map_append, List.forall_mem_append]
  exact ⟨hdata, List.forall_mem_map.mpr newline_not_mem_source⟩

theorem length_preamble (mode : FormulaMode) (columns : List Column) (row : Row) :
    (preamble mode columns row).length = 2 + (boundColumns columns).length + Builtin.source.length := by
  simp only [preamble, dataLines, List.length_append, List.length_cons, List.length_map]
  omega

theorem preambleLines_compile (mode : FormulaMode) (source : String) (columns : List Column) (row : Row) :
    (compile mode source columns row).preambleLines = (preamble mode columns row).length := by
  have hlines := length_lines_unlines (newline_not_mem_preamble mode columns row)
  rw [List.length_map] at hlines
  cases mode <;> exact hlines

theorem firstUserLine_compile (mode : FormulaMode) (source : String) (columns : List Column) (row : Row) :
    (compile mode source columns row).firstUserLine =
      (preamble mode columns row).length + (headerLines mode).length + 1 := by
  rw [Compiled.firstUserLine, preambleLines_compile]
  cases mode <;> rfl

@[simp] theorem Compiled.firstUserLine_named (c : Compiled) (name : String) :
    (c.named name).firstUserLine = c.firstUserLine :=
  rfl

theorem unlines_append (ls more : List (List Char)) : unlines (ls ++ more) = unlines ls ++ unlines more :=
  List.flatMap_append

theorem script_expression (source : String) (columns : List Column) (row : Row) :
    (compile .expression source columns row).script = unlines ((preamble .expression columns row).map String.toList ++
      headerLines .expression ++ (wrappedLines source.toList).map (indentation ++ ·) ++
      entryLines source.toList .expression) := by
  have hheader : "let fx = || \x7b\n".toList = unlines (headerLines .expression) := by decide
  have hentry : "\x7d;\nfx.call()\n".toList = unlines (entryLines source.toList .expression) := by
    rw [entryLines]; decide
  simp only [compile, unlines_append, hheader, hentry]

/-- A script is made up of lines, and the author's are among them. -/
theorem script_eq (mode : FormulaMode) (source : String) (columns : List Column) (row : Row) :
    ∃ user, (∀ line ∈ user, '\n' ∉ line) ∧ Authored source.toList mode user ∧
      user.length = (compile mode source columns row).userLines ∧
      (compile mode source columns row).script = unlines ((preamble mode columns row).map String.toList ++
        headerLines mode ++ user ++ entryLines source.toList mode) := by
  cases mode with
  | expression =>
    refine ⟨(wrappedLines source.toList).map (indentation ++ ·), ?_, ?_, by simp [compile], ?_⟩
    · have hindentation : '\n' ∉ indentation := by decide
      intro line hline
      obtain ⟨body, hbody, rfl⟩ := List.mem_map.mp hline
      rw [List.mem_append, not_or]
      exact ⟨hindentation, newline_not_mem_wrappedLines source.toList body hbody⟩
    · exact .expression (linesOf_lines source.toList) (wrapped_wrappedLines source.toList)
    · exact script_expression source columns row
  | module =>
    obtain ⟨user, hfeeds, htext, hlength⟩ := exists_verbatim (linesOf_lines source.toList)
    refine ⟨user, hfeeds, .module hfeeds htext, hlength, ?_⟩
    have hentry : "fx()\n".toList = unlines ["fx()".toList] := by decide
    have hmodule : moduleText source.toList = unlines user ++ unlines (if source.toList = [] then [[]] else []) := by
      split_ifs with h
      · rw [htext, h]
        rfl
      · rw [htext, moduleText_of_ne_nil h]
        exact (List.append_nil _).symm
    simp only [compile, headerLines, entryLines, unlines_append, hmodule, hentry, List.append_nil, List.append_assoc]

/-! ## Numbers of lines -/

theorem Compiled.userLine?_eq_some_iff (c : Compiled) (n k : Nat) :
    c.userLine? n = some k ↔ 1 ≤ k ∧ k ≤ c.userLines ∧ n + 1 = c.firstUserLine + k := by
  unfold userLine?
  split_ifs with h
  · rw [Option.some.injEq]
    omega
  · constructor
    · nofun
    · omega

/-- **The author's lines in a script.** Cut at its line feeds, a script is the lines of the preamble, as many as it
is said to have: two, one for each variable and the lines of the library; then the header of the wrapper, the
author's lines, as many as they are said to be, and the lines that call the entry function. A line of an
expression is the author's line with its indentation and perhaps `return`, a line of a module is the author's
line as it is. The numbers of the author's lines are those that `userLine?` gives back; `formulaLine?` gives
back the same, none before the author's lines, and after them the number past the last. -/
theorem compile_lines (mode : FormulaMode) (source : String) (columns : List Column) (row : Row) :
    let c := compile mode source columns row
    let before := (preamble mode columns row).map String.toList ++ headerLines mode
    (c.preambleLines = (preamble mode columns row).length ∧
      c.preambleLines = 2 + (boundColumns columns).length + Builtin.source.length) ∧
    (∃ user, splitAtFeeds c.script = before ++ user ++ entryLines source.toList mode ++ [[]] ∧
      user.length = c.userLines ∧ Authored source.toList mode user) ∧
    (∀ n k, c.userLine? n = some k ↔ 1 ≤ k ∧ k ≤ c.userLines ∧ n = before.length + k) ∧
    (∀ n ≤ before.length, c.formulaLine? n = none) ∧
    (∀ k, 1 ≤ k → k ≤ c.userLines → c.formulaLine? (before.length + k) = some k) ∧
    (∀ n, before.length + c.userLines < n → c.formulaLine? n = some (c.userLines + 1)) := by
  intro c before
  have hpreamble : c.preambleLines = (preamble mode columns row).length :=
    preambleLines_compile mode source columns row
  have hfirst : c.firstUserLine = before.length + 1 := by
    rw [firstUserLine_compile, List.length_append, List.length_map]
  refine ⟨⟨hpreamble, hpreamble.trans (length_preamble mode columns row)⟩, ?_, fun n k => ?_, ?_, ?_, ?_⟩
  · obtain ⟨user, hfeeds, hauthored, hlength, hscript⟩ := script_eq mode source columns row
    refine ⟨user, ?_, hlength, hauthored⟩
    have hfeeds' : ∀ line ∈ before ++ user ++ entryLines source.toList mode, '\n' ∉ line := by
      simp only [before, List.forall_mem_append]
      exact ⟨⟨⟨newline_not_mem_preamble mode columns row, newline_not_mem_headerLines mode⟩, hfeeds⟩,
        newline_not_mem_entryLines source.toList mode⟩
    have hsplit := splitAtFeeds_unlines hfeeds' []
    rw [List.append_nil] at hsplit
    exact (congrArg splitAtFeeds hscript).trans hsplit
  · rw [c.userLine?_eq_some_iff]
    omega
  · intro n hn
    exact if_neg (by omega)
  · intro k hk hle
    rw [Compiled.formulaLine?, if_pos (by omega)]
    congr 1
    omega
  · intro n hn
    rw [Compiled.formulaLine?, if_pos (by omega)]
    congr 1
    omega

end Worksheet.Formula
