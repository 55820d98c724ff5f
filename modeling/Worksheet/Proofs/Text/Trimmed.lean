import Mathlib.Data.List.DropRight
import Worksheet.Text.Blank
/-!
# Trimmed texts

* `trim_trim`, `trim_eq_self_iff`: texts that are not trimmed any further;
* `mem_trim`: trimming keeps what is not blank.
-/

namespace Worksheet.Text

variable {cs : List Char} {c : Char}

theorem trimEnd_eq (cs : List Char) : trimEnd cs = cs.rdropWhile isBlank := rfl

theorem trim_sublist (cs : List Char) : (trim cs).Sublist cs :=
  (List.rdropWhile_prefix isBlank _).sublist.trans (List.dropWhile_sublist _)

theorem trim_cons_blank (hc : isBlank c = true) (cs : List Char) : trim (c :: cs) = trim cs := by
  rw [trim, trimStart, List.dropWhile_cons_of_pos hc]
  rfl

theorem trimStart_trimEnd (h : trimStart cs = cs) : trimStart (trimEnd cs) = trimEnd cs := by
  rw [trimStart, List.dropWhile_eq_self_iff] at h ⊢
  intro hlength
  have hleads : trimEnd cs <+: cs := List.rdropWhile_prefix isBlank cs
  have hlength' : 0 < cs.length := hlength.trans_le hleads.length_le
  have hfirst : (trimEnd cs)[0] = cs[0] := hleads.getElem hlength
  exact hfirst ▸ h _

@[simp] theorem trim_trim (cs : List Char) : trim (trim cs) = trim cs := by
  have hstart : trimStart (trim cs) = trim cs := trimStart_trimEnd (List.dropWhile_idempotent isBlank cs)
  rw [trim, hstart, trim, trimEnd_eq, trimEnd_eq, List.rdropWhile_idempotent]

theorem trim_eq_self_iff :
    trim cs = cs ↔ (∀ c ∈ cs.head?, isBlank c = false) ∧ ∀ c ∈ cs.getLast?, isBlank c = false := by
  have hstart : trimStart cs = cs ↔ ∀ c ∈ cs.head?, isBlank c = false := by
    cases cs with
    | nil => simp [trimStart]
    | cons c cs => simp [trimStart, List.dropWhile_eq_self_iff]
  have hend : trimEnd cs = cs ↔ ∀ c ∈ cs.getLast?, isBlank c = false := by
    rw [trimEnd_eq, List.rdropWhile_eq_self_iff]
    cases cs using List.reverseRecOn with
    | nil => simp
    | append_singleton cs c => simp
  rw [← hstart, ← hend]
  constructor
  · intro h
    have hleads : trim cs <+: trimStart cs := List.rdropWhile_prefix isBlank _
    have hsuffix : trimStart cs <:+ cs := List.dropWhile_suffix isBlank
    have hlength := hleads.length_le
    rw [h] at hlength
    have hself : trimStart cs = cs := hsuffix.eq_of_length (Nat.le_antisymm hsuffix.length_le hlength)
    refine ⟨hself, ?_⟩
    rwa [trim, hself] at h
  · rintro ⟨hs, he⟩
    rw [trim, hs, he]

theorem trim_of_not_blank (h : ∀ c ∈ cs, isBlank c = false) : trim cs = cs :=
  trim_eq_self_iff.mpr ⟨fun c hc => h c (List.mem_of_mem_head? hc), fun c hc => h c (List.mem_of_mem_getLast? hc)⟩

theorem mem_trim (hc : isBlank c = false) : c ∈ trim cs ↔ c ∈ cs := by
  have hkeep : ∀ {ds : List Char}, c ∈ ds → c ∈ ds.dropWhile isBlank := by
    intro ds hmem
    rw [← List.takeWhile_append_dropWhile (p := isBlank) (l := ds)] at hmem
    refine (List.mem_append.mp hmem).resolve_left fun htaken => ?_
    rw [List.mem_takeWhile_imp htaken] at hc
    cases hc
  refine ⟨(trim_sublist cs).mem, fun hmem => List.mem_reverse.mpr (hkeep (List.mem_reverse.mpr (hkeep hmem)))⟩

end Worksheet.Text
