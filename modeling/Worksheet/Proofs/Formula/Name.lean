import Mathlib.Data.List.TakeWhile
import Mathlib.Tactic.SplitIfs
import Worksheet.Formula.Identifier
import Worksheet.Formula.Token.Lexer
/-!
# Names of variables

The name that a column has in formulas is a plain name for the lexer, and no word of the language.

* `IsVariableName`: the form of a name, and no reserved word;
* `wordToken_of_variableName`: the lexer reads it as a name;
* **`ofTitle?_variableName`**: what becomes of a title is the name of a variable.
-/

namespace Worksheet.Formula

/-- The characters have the form of a name and are no word of the language. -/
structure IsVariableName (cs : List Char) : Prop where
  form : isNameForm cs = true
  plain : languageWords.contains (String.ofList cs) = false

theorem isAlpha_iff_toNat {c : Char} :
    c.isAlpha = true ↔ 65 ≤ c.toNat ∧ c.toNat ≤ 90 ∨ 97 ≤ c.toNat ∧ c.toNat ≤ 122 := by
  have hranges : c.isAlpha =
      (decide ('A'.val ≤ c.val ∧ c.val ≤ 'Z'.val) || decide ('a'.val ≤ c.val) && decide (c.val ≤ 'z'.val)) := rfl
  rw [hranges]
  simp only [Bool.or_eq_true, Bool.and_eq_true, decide_eq_true_iff, UInt32.le_iff_toNat_le]
  exact Iff.rfl

variable {cs : List Char}

theorem IsVariableName.all_nameChar (h : IsVariableName cs) : ∀ c ∈ cs, isNameChar c = true := by
  have := h.form
  rw [isNameForm, Bool.and_eq_true] at this
  exact List.all_eq_true.mp this.1

theorem IsVariableName.head (h : IsVariableName cs) :
    ∃ c rest, cs = c :: rest ∧ (isNameLetter c || c == '_') = true := by
  have hform := h.form
  cases cs with
  | nil => simp [isNameForm] at hform
  | cons c rest =>
    refine ⟨c, rest, rfl, ?_⟩
    by_cases hc : c = '_'
    · simp [hc]
    · rw [isNameForm, List.dropWhile_cons_of_neg (by simpa using hc), Bool.and_eq_true] at hform
      simp [show isNameLetter c = true from hform.2]

theorem keyword_mem_languageWords {e : String × Keyword} (h : e ∈ Keyword.table) :
    languageWords.contains e.1 = true := by
  have key : ∀ e ∈ Keyword.table, languageWords.contains e.1 = true := by decide
  exact key e h

theorem wordToken_of_variableName (h : IsVariableName cs) :
    wordToken cs = .word (String.ofList cs) := by
  have hkeyword : Keyword.table.find? (·.1 == String.ofList cs) = none := by
    rw [List.find?_eq_none]
    intro e he heq
    have := keyword_mem_languageWords he
    rw [beq_iff_eq.mp heq, h.plain] at this
    cases this
  have hunderscore : ¬ String.ofList cs = "_" := by
    intro heq
    have hcs : cs = ['_'] := by rw [← String.toList_ofList (l := cs), heq]; rfl
    have := h.form
    rw [hcs] at this
    exact absurd this (by decide)
  have hin : ¬ String.ofList cs = "in" := by
    intro heq
    have := h.plain
    rw [heq] at this
    exact absurd this (by decide)
  unfold wordToken
  simp only [hkeyword, hunderscore, hin, h.plain, h.form, if_false, if_true, Bool.false_eq_true]

/-! ## Names of columns -/

namespace Identifier

theorem all_usable (title : List Char) : (usable title).all isNameChar = true := by
  rw [usable, List.all_filter, List.all_eq_true]
  intro c _
  cases isNameChar c <;> rfl

theorem isNameForm_guardDigit (hall : cs.all isNameChar = true) (hsome : cs.all (· == '_') = false) :
    isNameForm (guardDigit cs) = true := by
  unfold guardDigit
  split
  · rename_i c rest hdrop
    have hc : isNameChar c = true :=
      List.all_eq_true.mp hall c ((List.dropWhile_sublist _).subset (by rw [hdrop]; exact List.mem_cons_self))
    split_ifs with hdigit
    · have hword : ("col_".toList).all isNameChar = true := by decide
      have hdrop' : ("col_".toList ++ cs).dropWhile (· == '_') = "col_".toList ++ cs := rfl
      rw [isNameForm, List.all_append, hword, hall, hdrop']
      rfl
    · have hne : ¬ (c == '_') = true := by
        have := List.head?_dropWhile_not (· == '_') cs
        rw [hdrop] at this
        simpa using this
      rw [isNameForm, hall, hdrop]
      simp only [isNameChar, Char.isAlphanum, isNameLetter] at hc ⊢
      simpa [hdigit, hne] using hc
  · rename_i hdrop
    rw [List.dropWhile_eq_nil_iff] at hdrop
    rw [List.all_eq_true.mpr hdrop] at hsome
    cases hsome

theorem isNameForm_append_underscore (h : isNameForm cs = true) : isNameForm (cs ++ ['_']) = true := by
  rw [isNameForm, Bool.and_eq_true] at h
  obtain ⟨hall, hhead⟩ := h
  rw [isNameForm, List.all_append, hall, List.dropWhile_append]
  cases hdrop : cs.dropWhile (· == '_') with
  | nil =>
    rw [hdrop] at hhead
    cases hhead
  | cons c rest =>
    rw [hdrop] at hhead
    have hchar : isNameChar '_' = true := by decide
    simpa [hchar] using hhead

/-- No reserved name with an underscore at its end is reserved. -/
theorem isReserved_append_underscore {name : String} (h : isReserved name = true) : isReserved (name ++ "_") = false := by
  have hwords : ∀ w ∈ languageWords ++ preambleNames ++ Builtin.all.map (·.name), isReserved (w ++ "_") = false := by
    decide +kernel
  refine hwords name ?_
  simpa [isReserved, or_assoc] using h

theorem isReserved_guardReserved (cs : List Char) : isReserved (String.ofList (guardReserved cs)) = false := by
  unfold guardReserved
  split_ifs with h
  · rw [String.ofList_append]
    exact isReserved_append_underscore h
  · exact Bool.eq_false_iff.mpr h

theorem isReserved_of_ofTitle? {title name : String} (h : ofTitle? title = some name) : isReserved name = false := by
  simp only [ofTitle?] at h
  split_ifs at h
  exact Option.some.inj h ▸ isReserved_guardReserved _

theorem plain_of_isReserved_eq_false {name : String} (h : isReserved name = false) :
    languageWords.contains name = false := by
  rw [isReserved, Bool.or_eq_false_iff, Bool.or_eq_false_iff] at h
  exact h.1.1

/-- **The name of a title is the name of a variable.** -/
theorem ofTitle?_variableName {title name : String} (h : ofTitle? title = some name) :
    IsVariableName name.toList := by
  simp only [ofTitle?] at h
  split_ifs at h with hall
  have hform := isNameForm_guardDigit (all_usable title.toList) (Bool.eq_false_iff.mpr hall)
  rw [← Option.some.inj h, String.toList_ofList]
  refine ⟨?_, plain_of_isReserved_eq_false (isReserved_guardReserved _)⟩
  unfold guardReserved
  split_ifs
  · exact isNameForm_append_underscore hform
  · exact hform

end Identifier

end Worksheet.Formula
