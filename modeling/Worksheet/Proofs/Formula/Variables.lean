import Mathlib.Data.List.Forall2
import Mathlib.Data.List.Induction
import Mathlib.Data.List.Nodup
import Worksheet.Proofs.Formula.Preamble
/-!
# Columns with a variable

Which columns have a variable in formulas, and under which name.

* `bindColumn_cases`: what becomes of one more column;
* `prefix_boundColumns`: more columns leave the variables as they are;
* `Binds`, `binds_boundColumns`: the columns at these positions have the variables, and no others;
* **`boundColumns_accounted`**: the variables of all columns.
-/

namespace Worksheet.Formula

open Identifier

variable {columns more : List Column} {bound : List (String × Column)} {positions : List Nat} {c : Column} {name : String}

/-! ## One more column -/

/-- A column has no name, its name is taken, or it gets a variable. -/
theorem bindColumn_cases (bound : List (String × Column)) (c : Column) :
    ofTitle? c.title = none ∧ bindColumn bound c = bound ∨
    ∃ name, ofTitle? c.title = some name ∧
      (name ∈ bound.map (·.1) ∧ bindColumn bound c = bound ∨
        name ∉ bound.map (·.1) ∧ bindColumn bound c = bound ++ [(name, c)]) := by
  unfold bindColumn
  cases hname : ofTitle? c.title with
  | none => exact .inl ⟨rfl, rfl⟩
  | some name =>
    have htaken : bound.any (·.1 == name) = true ↔ name ∈ bound.map (·.1) := by
      simp [List.any_eq_true]
    refine .inr ⟨name, rfl, ?_⟩
    by_cases hmem : name ∈ bound.map (·.1)
    · exact .inl ⟨hmem, if_pos (htaken.mpr hmem)⟩
    · exact .inr ⟨hmem, if_neg (htaken.not.mpr hmem)⟩

theorem prefix_bindColumn (bound : List (String × Column)) (c : Column) : bound <+: bindColumn bound c := by
  rcases bindColumn_cases bound c with ⟨-, h⟩ | ⟨name, -, ⟨-, h⟩ | ⟨-, h⟩⟩
  · exact ⟨[], by rw [h, List.append_nil]⟩
  · exact ⟨[], by rw [h, List.append_nil]⟩
  · exact ⟨_, h.symm⟩

theorem prefix_foldl_bindColumn (bound : List (String × Column)) (columns : List Column) :
    bound <+: columns.foldl bindColumn bound := by
  induction columns generalizing bound with
  | nil => exact List.prefix_refl _
  | cons c columns ih => exact (prefix_bindColumn bound c).trans (ih _)

theorem prefix_boundColumns (columns more : List Column) : boundColumns columns <+: boundColumns (columns ++ more) := by
  unfold boundColumns
  rw [List.foldl_append]
  exact prefix_foldl_bindColumn _ _

theorem boundColumns_concat (columns : List Column) (c : Column) :
    boundColumns (columns ++ [c]) = bindColumn (boundColumns columns) c :=
  List.foldl_concat _ _ _ _

/-! ## Names -/

theorem mem_names_boundColumns : name ∈ (boundColumns columns).map (·.1) ↔
    ∃ c ∈ columns, ofTitle? c.title = some name := by
  constructor
  · intro h
    obtain ⟨b, hb, rfl⟩ := List.mem_map.mp h
    exact ⟨b.2, mem_boundColumns hb⟩
  · rintro ⟨c, hc, hname⟩
    obtain ⟨before, after, rfl⟩ := List.append_of_mem hc
    rw [List.append_cons]
    refine ((prefix_boundColumns _ after).map _).mem ?_
    rw [boundColumns_concat]
    rcases bindColumn_cases (boundColumns before) c with ⟨hnone, -⟩ | ⟨name', hname', ⟨hmem, h⟩ | ⟨-, h⟩⟩
    · rw [hname] at hnone
      cases hnone
    · rw [h, Option.some.inj (hname.symm.trans hname')]
      exact hmem
    · rw [h, Option.some.inj (hname.symm.trans hname')]
      simp

theorem nodup_names_boundColumns (columns : List Column) : ((boundColumns columns).map (·.1)).Nodup := by
  induction columns using List.reverseRecOn with
  | nil => exact List.nodup_nil
  | append_singleton columns c ih =>
    rw [boundColumns_concat]
    rcases bindColumn_cases (boundColumns columns) c with ⟨-, h⟩ | ⟨name, -, ⟨-, h⟩ | ⟨hfresh, h⟩⟩
    · rwa [h]
    · rwa [h]
    · rw [h, List.map_append]
      exact ih.append (List.nodup_singleton name) (by simpa using hfresh)

/-! ## Positions -/

/-- The columns at these positions have these variables, and the others have a reason to have none. -/
structure Binds (columns : List Column) (positions : List Nat) (bound : List (String × Column)) : Prop where
  ascending : positions.Pairwise (· < ·)
  named : List.Forall₂ (fun i b => columns[i]? = some b.2 ∧ ofTitle? b.2.title = some b.1) positions bound
  missing : ∀ i c, columns[i]? = some c →
    (i ∉ positions ↔ ofTitle? c.title = none ∨
      ∃ j < i, ∃ d, columns[j]? = some d ∧ ofTitle? d.title = ofTitle? c.title)

theorem Binds.lt_length (h : Binds columns positions bound) : ∀ i ∈ positions, i < columns.length := by
  have hlt : List.Forall₂ (fun i b => i < columns.length ∧ ofTitle? b.2.title = some b.1) positions bound :=
    h.named.imp fun i b hb => ⟨(List.getElem?_eq_some_iff.mp hb.1).1, hb.2⟩
  exact ((List.forall₂_and_left _ _).mp hlt).1

theorem Binds.append_named (h : Binds columns positions bound) (more : List Column) :
    List.Forall₂ (fun i b => (columns ++ more)[i]? = some b.2 ∧ ofTitle? b.2.title = some b.1) positions bound :=
  h.named.imp fun _ _ hb =>
    ⟨(List.getElem?_append_left (List.getElem?_eq_some_iff.mp hb.1).1).trans hb.1, hb.2⟩

theorem Binds.missing_concat {positions' : List Nat} (h : Binds columns positions bound)
    (hpositions : ∀ i < columns.length, i ∈ positions' ↔ i ∈ positions)
    (hlast : columns.length ∉ positions' ↔ ofTitle? c.title = none ∨ ∃ d ∈ columns, ofTitle? d.title = ofTitle? c.title) :
    ∀ i d, (columns ++ [c])[i]? = some d →
      (i ∉ positions' ↔ ofTitle? d.title = none ∨
        ∃ j < i, ∃ e, (columns ++ [c])[j]? = some e ∧ ofTitle? e.title = ofTitle? d.title) := by
  intro i d hd
  rcases Nat.lt_or_ge i columns.length with hi | hi
  · rw [List.getElem?_append_left hi] at hd
    rw [hpositions i hi, h.missing i d hd]
    refine or_congr_right (exists_congr fun j => and_congr_right fun hj => ?_)
    rw [List.getElem?_append_left (Nat.lt_trans hj hi)]
  · obtain ⟨rfl, rfl⟩ : i = columns.length ∧ c = d := by
      rw [List.getElem?_append_right hi, List.getElem?_singleton] at hd
      split_ifs at hd with hzero
      exact ⟨by omega, Option.some.inj hd⟩
    rw [hlast]
    refine or_congr_right ⟨?_, ?_⟩
    · rintro ⟨d, hd, hsame⟩
      obtain ⟨j, hj, rfl⟩ := List.getElem_of_mem hd
      exact ⟨j, hj, _, (List.getElem?_append_left hj).trans (List.getElem?_eq_getElem hj), hsame⟩
    · rintro ⟨j, hj, d, hd, hsame⟩
      rw [List.getElem?_append_left hj] at hd
      exact ⟨d, List.mem_of_getElem? hd, hsame⟩

theorem binds_boundColumns (columns : List Column) : ∃ positions, Binds columns positions (boundColumns columns) := by
  -- At the end, since the reason of a column is in the columns before it.
  induction columns using List.reverseRecOn with
  | nil => exact ⟨[], .nil, .nil, fun i c h => by simp at h⟩
  | append_singleton columns c ih =>
    obtain ⟨positions, h⟩ := ih
    have hfresh : columns.length ∉ positions := fun hmem => Nat.lt_irrefl _ (h.lt_length _ hmem)
    rw [boundColumns_concat]
    have hkept : ofTitle? c.title = none ∨ (∃ d ∈ columns, ofTitle? d.title = ofTitle? c.title) →
        Binds (columns ++ [c]) positions (boundColumns columns) := fun hreason =>
      ⟨h.ascending, h.append_named _, h.missing_concat (fun _ _ => Iff.rfl) (iff_of_true hfresh hreason)⟩
    rcases bindColumn_cases (boundColumns columns) c with ⟨hnone, heq⟩ | ⟨name, hname, ⟨hmem, heq⟩ | ⟨hnew, heq⟩⟩
    · rw [heq]
      exact ⟨positions, hkept (.inl hnone)⟩
    · rw [heq]
      exact ⟨positions, hkept (.inr (hname ▸ mem_names_boundColumns.mp hmem))⟩
    · rw [heq]
      refine ⟨positions ++ [columns.length], ?_, ?_, h.missing_concat (fun i hi => ?_) ?_⟩
      · rw [List.pairwise_append]
        exact ⟨h.ascending, List.pairwise_singleton _ _, fun i hi j hj => List.mem_singleton.mp hj ▸ h.lt_length i hi⟩
      · exact List.rel_append (h.append_named _) (.cons ⟨by simp, hname⟩ .nil)
      · simp [Nat.ne_of_lt hi]
      · rw [mem_names_boundColumns] at hnew
        simpa [hname] using hnew

/-- **The variables of all columns**: their names are distinct, they are in the order of the columns, the columns without one
are those that have no name or the same name as an earlier column, and more columns leave them as they are. -/
theorem boundColumns_accounted (columns : List Column) :
    ((boundColumns columns).map (·.1)).Nodup ∧
    (∃ positions, Binds columns positions (boundColumns columns)) ∧
    ∀ more : List Column, boundColumns columns <+: boundColumns (columns ++ more) ∧
      ∀ name b, (boundColumns columns).find? (·.1 == name) = some b →
        (boundColumns (columns ++ more)).find? (·.1 == name) = some b := by
  refine ⟨nodup_names_boundColumns columns, binds_boundColumns columns, fun more => ⟨prefix_boundColumns columns more, ?_⟩⟩
  intro name b hb
  obtain ⟨others, hothers⟩ := prefix_boundColumns columns more
  rw [← hothers, List.find?_append, hb]
  rfl

end Worksheet.Formula
