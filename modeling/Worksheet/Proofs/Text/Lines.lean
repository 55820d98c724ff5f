import Mathlib.Data.List.Basic
import Worksheet.Text.Lines
/-!
# Lines of texts

* `LinesOf`, `linesOf_lines`: the lines of a text, with their endings taken off;
* `length_lines_line`: a text has one line more with a line in front of it;
* `splitAtFeeds_append`, `splitAtFeeds_line`: what stands before the first line feed is the first piece;
* `splitAtFeeds_append_feed`, `length_splitAtFeeds`: the pieces of a text with a line feed in it.
-/

namespace Worksheet.Text

/-! ## Lines and their endings -/

/-- The text has those lines. Each ends at a line feed, and a carriage return right before belongs to the line
ending. Only the last line may lack its ending, and then it is not empty. -/
inductive LinesOf : List Char → List (List Char) → Prop
  | nil : LinesOf [] []
  | unended {line : List Char} (hfeed : '\n' ∉ line) (hline : line ≠ []) : LinesOf line [line]
  | feed {line rest : List Char} {others : List (List Char)} (hfeed : '\n' ∉ line)
      (hreturn : line.getLast? ≠ some '\r') (hrest : LinesOf rest others) :
      LinesOf (line ++ '\n' :: rest) (line :: others)
  | returnFeed {line rest : List Char} {others : List (List Char)} (hfeed : '\n' ∉ line)
      (hrest : LinesOf rest others) : LinesOf (line ++ '\r' :: '\n' :: rest) (line :: others)

variable {s line : List Char} {ls : List (List Char)} {c : Char}

theorem LinesOf.newline_not_mem (h : LinesOf s ls) : ∀ line ∈ ls, '\n' ∉ line := by
  induction h with
  | nil => simp
  | unended hfeed _ => simpa using hfeed
  | feed hfeed _ _ ih | returnFeed hfeed _ ih => simpa using ⟨hfeed, ih⟩

theorem LinesOf.eq_nil_iff (h : LinesOf s ls) : ls = [] ↔ s = [] := by
  cases h <;> simp_all

theorem LinesOf.cons (h : LinesOf s (line :: ls)) (hc : c ≠ '\n') (hreturn : c = '\r' → s.head? ≠ some '\n') :
    LinesOf (c :: s) ((c :: line) :: ls) := by
  cases h with
  | unended hfeed hline => exact .unended (by simp [hc.symm, hfeed]) (by simp)
  | feed hfeed hlast hrest =>
    have hlast' : (c :: line).getLast? ≠ some '\r' := by
      cases line with
      | nil => simpa using fun h => hreturn h rfl
      | cons => simpa using hlast
    have hfeed' : '\n' ∉ c :: line := by simp [hc.symm, hfeed]
    exact .feed hfeed' hlast' hrest
  | returnFeed hfeed hrest =>
    have hfeed' : '\n' ∉ c :: line := by simp [hc.symm, hfeed]
    exact .returnFeed hfeed' hrest

/-- **The lines are those of the text.** -/
theorem linesOf_lines (s : List Char) : LinesOf s (lines s) := by
  fun_induction lines s with
  | case1 => exact .nil
  | case2 rest ih => exact .feed List.not_mem_nil nofun ih
  | case3 rest ih => exact .returnFeed List.not_mem_nil ih
  | case4 c rest hfeed hreturn hnone ih =>
    obtain rfl := ih.eq_nil_iff.mp hnone
    exact .unended (by simpa using fun h => hfeed h.symm) (by simp)
  | case5 c rest hfeed hreturn line others hsome ih =>
    rw [hsome] at ih
    refine ih.cons hfeed fun hc hhead => ?_
    obtain ⟨more, rfl⟩ := List.head?_eq_some_iff.mp hhead
    exact hreturn more hc rfl

theorem length_lines_line (h : '\n' ∉ line) (rest : List Char) :
    (lines (line ++ '\n' :: rest)).length = (lines rest).length + 1 := by
  induction line with
  | nil => rfl
  | cons c line ih =>
    rw [List.mem_cons, not_or] at h
    have hrest := ih h.2
    by_cases hreturn : c = '\r' ∧ line = []
    · obtain ⟨rfl, rfl⟩ := hreturn
      rfl
    · rw [List.cons_append, lines]
      · cases hlines : lines (line ++ '\n' :: rest) with
        | nil => simp [hlines] at hrest
        | cons first others => simpa [hlines] using hrest
      · exact fun hc => h.1 hc.symm
      · rintro more rfl heq
        cases line with
        | nil => exact hreturn ⟨rfl, rfl⟩
        | cons d line => exact h.2 ((List.cons.inj heq).1 ▸ List.mem_cons_self)

/-! ## Pieces between line feeds -/

variable {first : List Char} {others : List (List Char)}

theorem splitAtFeeds_ne_nil (s : List Char) : splitAtFeeds s ≠ [] := by
  fun_induction splitAtFeeds s <;> simp

theorem length_splitAtFeeds (s : List Char) : (splitAtFeeds s).length = s.count '\n' + 1 := by
  fun_induction splitAtFeeds s with
  | case1 => rfl
  | case2 s ih => simp [ih]
  | case3 c s _ hnil => exact absurd hnil (splitAtFeeds_ne_nil s)
  | case4 c s hc first others hsplit ih =>
    rw [List.count_cons_of_ne fun h => hc h, ← ih, hsplit]
    rfl

theorem splitAtFeeds_append (h : '\n' ∉ line) (hs : splitAtFeeds s = first :: others) :
    splitAtFeeds (line ++ s) = (line ++ first) :: others := by
  induction line with
  | nil => exact hs
  | cons c line ih =>
    rw [List.mem_cons, not_or] at h
    rw [List.cons_append, splitAtFeeds, ih h.2]
    · rfl
    · exact fun hc => h.1 hc.symm

theorem splitAtFeeds_of_not_mem (h : '\n' ∉ line) : splitAtFeeds line = [line] := by
  have hnil : splitAtFeeds [] = [[]] := rfl
  simpa only [List.append_nil] using splitAtFeeds_append h hnil

theorem splitAtFeeds_line (h : '\n' ∉ line) (rest : List Char) :
    splitAtFeeds (line ++ '\n' :: rest) = line :: splitAtFeeds rest := by
  have hfeed : splitAtFeeds ('\n' :: rest) = [] :: splitAtFeeds rest := rfl
  rw [splitAtFeeds_append h hfeed, List.append_nil]

theorem splitAtFeeds_append_feed (s rest : List Char) :
    splitAtFeeds (s ++ '\n' :: rest) = splitAtFeeds s ++ splitAtFeeds rest := by
  fun_induction splitAtFeeds s with
  | case1 => rfl
  | case2 s ih => exact congrArg ([] :: ·) ih
  | case3 c s _ hnil => exact absurd hnil (splitAtFeeds_ne_nil s)
  | case4 c s hc first others hsplit ih =>
    have hline : '\n' ∉ [c] := by simpa using fun h => hc h.symm
    rw [hsplit, List.cons_append] at ih
    exact splitAtFeeds_append hline ih

end Worksheet.Text
