import Mathlib.Data.List.Basic
import Mathlib.Tactic.SplitIfs
import Worksheet.Formula.Compiled
/-!
# What a script takes from the columns and the row

* `mem_boundColumns`: a variable is the one of a column, named after its title;
* `preamble_congr`, **`compile_congr`**: a script depends on the row only by what it holds under the columns.
-/

namespace Worksheet.Formula

/-! ## Variables -/

theorem mem_bindColumn {bound : List (String × Column)} {c : Column} {b : String × Column}
    (hb : b ∈ bindColumn bound c) : b ∈ bound ∨ b.2 = c ∧ Identifier.ofTitle? c.title = some b.1 := by
  unfold bindColumn at hb
  split at hb
  · exact .inl hb
  · rename_i name hname
    split_ifs at hb
    · exact .inl hb
    · rcases List.mem_append.mp hb with hb | hb
      · exact .inl hb
      · obtain rfl := List.mem_singleton.mp hb
        exact .inr ⟨rfl, hname⟩

theorem mem_foldl_bindColumn {columns : List Column} {bound : List (String × Column)} {b : String × Column}
    (hb : b ∈ columns.foldl bindColumn bound) :
    b ∈ bound ∨ b.2 ∈ columns ∧ Identifier.ofTitle? b.2.title = some b.1 := by
  induction columns generalizing bound with
  | nil => exact .inl hb
  | cons c columns ih =>
    rcases ih hb with hb | ⟨hmem, hname⟩
    · rcases mem_bindColumn hb with hb | ⟨rfl, hname⟩
      · exact .inl hb
      · exact .inr ⟨List.mem_cons_self, hname⟩
    · exact .inr ⟨List.mem_cons_of_mem _ hmem, hname⟩

theorem mem_boundColumns {columns : List Column} {b : String × Column} (hb : b ∈ boundColumns columns) :
    b.2 ∈ columns ∧ Identifier.ofTitle? b.2.title = some b.1 :=
  (mem_foldl_bindColumn hb).resolve_left List.not_mem_nil

/-! ## What a script depends on -/

variable {columns : List Column} {r r' : Row}

theorem cellEntry_congr {c : Column} (h : r.value? c.id = r'.value? c.id) :
    cellEntry r c = cellEntry r' c := by
  unfold cellEntry
  rw [h]

theorem bindingLine_congr {mode : FormulaMode} {b : String × Column}
    (h : r.value? b.2.id = r'.value? b.2.id) : bindingLine mode r b = bindingLine mode r' b := by
  unfold bindingLine
  rw [h]

/-- The lines before the author's text depend on what the row holds under the columns. -/
theorem preamble_congr (mode : FormulaMode) (h : ∀ c ∈ columns, r.value? c.id = r'.value? c.id) :
    preamble mode columns r = preamble mode columns r' := by
  have hcells : columns.map (cellEntry r) = columns.map (cellEntry r') :=
    List.map_congr_left fun c hc => cellEntry_congr (h c hc)
  have hbound : (boundColumns columns).map (bindingLine mode r) =
      (boundColumns columns).map (bindingLine mode r') :=
    List.map_congr_left fun b hb => bindingLine_congr (h b.2 ((mem_boundColumns hb).1))
  unfold preamble dataLines cellsLine
  rw [hcells, hbound]

/-- A compiled formula with a name of its own depends on what the row holds under the columns. -/
theorem compile_congr (mode : FormulaMode) (source name : String)
    (h : ∀ c ∈ columns, r.value? c.id = r'.value? c.id) :
    (compile mode source columns r).named name = (compile mode source columns r').named name := by
  cases mode <;> simp only [compile, Compiled.named, preamble_congr _ h]

end Worksheet.Formula
