import Worksheet.Proofs.Formula.NumberLiteral
import Worksheet.Proofs.Text.Trimmed
/-!
# Names of titles

Which titles have a name, and that a name is a title with this name.

* `mem_usable`: the letters and digits of a title are all used;
* `ofTitle?_of_isNameForm`: a name in the right form that is not reserved is its own name;
* **`ofTitle?_legal`**: a title with a letter or a digit has a name, and all names are legal.
-/

namespace Worksheet.Formula.Identifier

open Worksheet.Text

variable {cs : List Char} {c : Char} {title name : String}

theorem isNameChar_of_isAlphanum (hc : c.isAlphanum = true) : isNameChar c = true := by
  rw [isNameChar, hc, Bool.true_or]

/-! ## What is used of a title -/

theorem mem_collapse (hblank : isBlank c = false) (hc : c ≠ '_') (inRun : Bool) : c ∈ collapse inRun cs ↔ c ∈ cs := by
  have hother : ∀ d, isBlank d = true → c ≠ d := by
    rintro d hd rfl
    rw [hblank] at hd
    cases hd
  fun_induction collapse inRun cs with
  | case1 => exact Iff.rfl
  | case2 d rest hd ih => simpa [hother d hd] using ih
  | case3 inRun d rest hd hrun ih => simpa [hother d hd, hc] using ih
  | case4 inRun d rest hd ih => simp [ih]

theorem mem_usable (hc : c.isAlphanum = true) : c ∈ usable cs ↔ c ∈ cs := by
  have hname := isNameChar_of_isAlphanum hc
  have hblank := isNameChar_isBlank hname
  have hne : c ≠ '_' := by
    rintro rfl
    exact absurd hc (by decide)
  rw [usable, List.mem_filter, mem_collapse hblank hne, mem_trim hblank, and_iff_left hname]

theorem all_underscore_usable_iff (cs : List Char) :
    (usable cs).all (· == '_') = false ↔ ∃ c ∈ cs, c.isAlphanum = true := by
  rw [List.all_eq_false]
  constructor
  · rintro ⟨c, hmem, hc⟩
    have hname := List.all_eq_true.mp (all_usable cs) c hmem
    rw [isNameChar, Bool.or_eq_true] at hname
    have halnum := hname.resolve_right hc
    exact ⟨c, (mem_usable halnum).mp hmem, halnum⟩
  · rintro ⟨c, hmem, hc⟩
    refine ⟨c, (mem_usable hc).mpr hmem, fun heq => ?_⟩
    obtain rfl := beq_iff_eq.mp heq
    exact absurd hc (by decide)

theorem isSome_ofTitle?_iff (title : String) :
    (ofTitle? title).isSome = true ↔ ∃ c ∈ title.toList, c.isAlphanum = true := by
  rw [← all_underscore_usable_iff, ofTitle?]
  cases (usable title.toList).all (· == '_') with
  | false => exact iff_of_true rfl rfl
  | true => exact iff_of_false Bool.false_ne_true (Bool.false_ne_true ∘ Eq.symm)

theorem collapse_of_not_blank (h : ∀ c ∈ cs, isBlank c = false) (inRun : Bool) : collapse inRun cs = cs := by
  induction cs generalizing inRun with
  | nil => rfl
  | cons c cs ih =>
    obtain ⟨hc, hcs⟩ := List.forall_mem_cons.mp h
    rw [collapse, hc, if_neg Bool.false_ne_true, ih hcs]

theorem usable_of_all (h : cs.all isNameChar = true) : usable cs = cs := by
  have hname := List.all_eq_true.mp h
  have hblank : ∀ c ∈ cs, isBlank c = false := fun c hc => isNameChar_isBlank (hname c hc)
  rw [usable, trim_of_not_blank hblank, collapse_of_not_blank hblank, List.filter_eq_self.mpr hname]

/-! ## Names -/

theorem exists_letter (h : isNameForm cs = true) : ∃ c rest, cs.dropWhile (· == '_') = c :: rest ∧ c.isAlpha = true := by
  rw [isNameForm, Bool.and_eq_true] at h
  cases hdrop : cs.dropWhile (· == '_') with
  | nil =>
    rw [hdrop] at h
    cases h.2
  | cons c rest =>
    rw [hdrop] at h
    exact ⟨c, rest, rfl, h.2⟩

/-- A name in the right form that is not reserved is its own name. -/
theorem ofTitle?_of_isNameForm (hform : isNameForm name.toList = true) (hplain : isReserved name = false) :
    ofTitle? name = some name := by
  obtain ⟨c, rest, hdrop, hc⟩ := exists_letter hform
  have hall := hform
  rw [isNameForm, Bool.and_eq_true] at hall
  have husable : usable name.toList = name.toList := usable_of_all hall.1
  have hletter : ¬ (name.toList.all (· == '_')) = true := by
    intro h
    rw [List.dropWhile_eq_nil_iff.mpr (List.all_eq_true.mp h)] at hdrop
    cases hdrop
  have hdigit : ¬ c.isDigit = true := by
    intro hd
    rw [isAlpha_of_isDigit hd] at hc
    cases hc
  have hguard : guardDigit name.toList = name.toList := by
    rw [guardDigit, hdrop]
    exact if_neg hdigit
  have hreserved : guardReserved name.toList = name.toList := by
    rw [guardReserved, String.ofList_toList, hplain]
    exact if_neg Bool.false_ne_true
  simp only [ofTitle?, husable, if_neg hletter, hguard, hreserved, String.ofList_toList]

/-- **A title has a name if there is a letter or a digit in it, and every name is legal**: it has the form of a name, is not
reserved, and is its own name. -/
theorem ofTitle?_legal (title : String) :
    ((ofTitle? title).isSome = true ↔ ∃ c ∈ title.toList, c.isAlphanum = true) ∧
    ∀ name, ofTitle? title = some name →
      (∀ c ∈ name.toList, c.isAlphanum = true ∨ c = '_') ∧
      (∃ u c rest, name.toList = u ++ c :: rest ∧ (∀ d ∈ u, d = '_') ∧ c.isAlpha = true) ∧
      (name ∉ languageWords ∧ name ∉ preambleNames ∧ name ∉ Builtin.all.map (·.name)) ∧
      ofTitle? name = some name := by
  refine ⟨isSome_ofTitle?_iff title, fun name h => ?_⟩
  have hname := ofTitle?_variableName h
  have hplain := isReserved_of_ofTitle? h
  obtain ⟨c, rest, hdrop, hc⟩ := exists_letter hname.form
  refine ⟨fun d hd => ?_, ⟨name.toList.takeWhile (· == '_'), c, rest, ?_, fun d hd => ?_, hc⟩, ?_,
    ofTitle?_of_isNameForm hname.form hplain⟩
  · simpa [isNameChar] using hname.all_nameChar d hd
  · rw [← hdrop]
    exact List.takeWhile_append_dropWhile.symm
  · have hunderscore := List.mem_takeWhile_imp hd
    exact beq_iff_eq.mp hunderscore
  · simpa [isReserved, and_assoc] using hplain

end Worksheet.Formula.Identifier
