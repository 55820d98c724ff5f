import Mathlib.Data.List.Perm.Subperm
import Mathlib.Order.Bounds.Basic
import Worksheet.Proofs.Action.Check
/-!
# A name for one more option

Numbers are tried one after the other until the name of one is free, and nothing bounds this search. It ends, because
numbers have names of their own: the options cannot take more of them than there are options.

* `optionName_injective`: numbers have names of their own;
* `FirstFree`: the search and where it ends; `FirstFree.isLeast`: it passes over taken numbers alone;
* `exists_firstFree`: the search ends;
* **`freshOptionName_least`**: the new name is the one of the least free number, and the check has nothing against it.
-/

namespace Worksheet

/-! ## Names by number -/

theorem optionName_injective : Function.Injective optionName := by
  intro m n h
  have hchars := congrArg String.toList h
  simp only [optionName, String.toList_append, Nat.toString_eq_ofList_toDigits, String.toList_ofList] at hchars
  have hnumber := congrArg (Nat.ofDigitChars 10 · 0) (List.append_cancel_left hchars)
  simpa only [Nat.ofDigitChars_ten_toDigits] using hnumber

theorem optionName_ne_empty (n : Nat) : optionName n ≠ "" := by
  intro h
  have hlength := congrArg String.length h
  rw [optionName, String.length_append] at hlength
  exact absurd hlength (by simp)

/-! ## The search for a free number -/

/-- The search from the number `n` on ends at the number `last`, after it has tried so many numbers. -/
inductive FirstFree (options : List String) : (n tried last : Nat) → Prop
  | free {n : Nat} (hfree : optionName n ∉ options) : FirstFree options n 1 n
  | taken {n tried last : Nat} (htaken : optionName n ∈ options) (hrest : FirstFree options (n + 1) tried last) :
      FirstFree options n (tried + 1) last

variable {options : List String} {n tried tries last : Nat}

/-- The search has tried every number up to the one where it ends, and this is the least one that is free. -/
theorem FirstFree.isLeast (h : FirstFree options n tried last) :
    IsLeast {k | n ≤ k ∧ optionName k ∉ options} last ∧ n + tried = last + 1 := by
  induction h with
  | free hfree => exact ⟨⟨⟨le_rfl, hfree⟩, fun k hk => hk.1⟩, rfl⟩
  | @taken n tried last htaken _ ih =>
    obtain ⟨⟨⟨hlast, hfree⟩, hleast⟩, htried⟩ := ih
    refine ⟨⟨⟨by omega, hfree⟩, fun k hk => hleast ⟨?_, hk.2⟩⟩, by omega⟩
    have hne : n ≠ k := by
      rintro rfl
      exact hk.2 htaken
    exact Nat.lt_of_le_of_ne hk.1 hne

/-- A search that looks at enough numbers ends where the search without a bound ends. The last number needs no look. -/
theorem FirstFree.freshOptionNumber_eq (h : FirstFree options n tried last) (htries : tried ≤ tries + 1) :
    freshOptionNumber options n tries = last := by
  induction h generalizing tries with
  | free hfree =>
    cases tries with
    | zero => rfl
    | succ tries => rw [freshOptionNumber, if_neg (by rwa [List.contains_iff_mem])]
  | taken htaken hrest ih =>
    obtain ⟨⟨⟨hlast, -⟩, -⟩, htried⟩ := hrest.isLeast
    obtain ⟨tries, rfl⟩ : ∃ t, tries = t + 1 := ⟨tries - 1, by omega⟩
    rw [freshOptionNumber, if_pos (List.contains_iff_mem.mpr htaken)]
    exact ih (by omega)

theorem taken_or_firstFree (options : List String) (n limit : Nat) :
    (∀ k < limit, optionName (n + k) ∈ options) ∨ ∃ tried ≤ limit, ∃ last, FirstFree options n tried last := by
  induction limit generalizing n with
  | zero => exact .inl fun k hk => absurd hk (Nat.not_lt_zero k)
  | succ limit ih =>
    by_cases htaken : optionName n ∈ options
    · rcases ih (n + 1) with hall | ⟨tried, htried, last, hrest⟩
      · refine .inl fun k hk => ?_
        cases k with
        | zero => exact htaken
        | succ k =>
          rw [Nat.add_comm k 1, ← Nat.add_assoc]
          exact hall k (by omega)
      · exact .inr ⟨tried + 1, by omega, last, .taken htaken hrest⟩
    · exact .inr ⟨1, by omega, n, .free htaken⟩

/-- Numbers in a row that are all taken are no more than there are options. -/
theorem le_length_of_taken {count : Nat} (h : ∀ k < count, optionName (n + k) ∈ options) : count ≤ options.length := by
  have hnodup : ((List.range count).map fun k => optionName (n + k)).Nodup :=
    List.nodup_range.map fun i j hij => Nat.add_left_cancel (optionName_injective hij)
  have hsubset : ((List.range count).map fun k => optionName (n + k)) ⊆ options := by
    intro name hname
    obtain ⟨k, hk, rfl⟩ := List.mem_map.mp hname
    exact h k (List.mem_range.mp hk)
  simpa using (hnodup.subperm hsubset).length_le

/-- **The search ends**, wherever it starts. -/
theorem exists_firstFree (options : List String) (n : Nat) :
    ∃ tried ≤ options.length + 1, ∃ last, FirstFree options n tried last :=
  (taken_or_firstFree options n (options.length + 1)).resolve_left fun htaken =>
    Nat.not_succ_le_self _ (le_length_of_taken htaken)

/-! ## The new name -/

theorem checkNames_concat {names : List String} {name : String} (hnew : name ∉ names) (hname : name ≠ "") :
    checkNames (names ++ [name]) = checkNames names := by
  have hnodup : (names ++ [name]).Nodup ↔ names.Nodup := by
    rw [← List.concat_eq_append, List.nodup_concat]
    exact ⟨And.right, fun h => ⟨hnew, h⟩⟩
  have hblank : "" ∈ names ++ [name] ↔ "" ∈ names := by simp [hname.symm]
  simp only [checkNames_eq, hnodup, hblank]

/-- **The new name is the one of the least free number.** Whatever the options are, the search from 1 on ends at this
number, after it has tried the numbers up to it. They are at most one more than there are options, so for fewer than
`2 ^ 31 - 1` options each of them is below `2 ^ 31`. The check tells the same of the names with the new one and without
it: where it accepts the options, it accepts them with the new one. -/
theorem freshOptionName_least (options : List String) :
    ∃ n ≤ options.length + 1, FirstFree options 1 n n ∧ IsLeast {k | 1 ≤ k ∧ optionName k ∉ options} n ∧
      freshOptionName options = optionName n ∧
      checkNames (options ++ [freshOptionName options]) = checkNames options := by
  obtain ⟨tried, htried, last, hends⟩ := exists_firstFree options 1
  obtain ⟨hleast, hlast⟩ := hends.isLeast
  obtain rfl : tried = last := by omega
  have hname : freshOptionName options = optionName tried := congrArg optionName (hends.freshOptionNumber_eq htried)
  refine ⟨tried, htried, hends, hleast, hname, ?_⟩
  rw [hname]
  exact checkNames_concat hleast.1.2 (optionName_ne_empty tried)

/-- A gap is filled, whatever is repeated. -/
example : freshOptionName ["Option #3", "Option #1", "Option #1"] = "Option #2" := by decide

end Worksheet
