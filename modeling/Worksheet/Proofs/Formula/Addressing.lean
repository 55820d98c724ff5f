import Worksheet.Proofs.Formula.Searching
/-!
# Cells and options by title and by position

What the functions answer that are there for authors, each called with an occurrence.

* **`findColumn_answers`**, **`findOptions_answers`**: the statements that they start with;
* `getCell_answers`: the cell of a column;
* `position_run`, `dropdownIndex_answers`: the position of the row's text among the options;
* `optionOf_answers`, `dropdownValue_answers`: the option at a position.
-/

namespace Worksheet.Formula

open Interpreter Library

variable {p q : Nat → Place} {env : Env} {m : Machine} {columns : List Column} {row : Row} {scope : List Binding}
  {s : Stmt} {rest : List Stmt} {target : Target} {occurrence : Int} {i : Nat} {v : Value}

/-! ## The column -/

theorem Target.lt_of_find? (h : target.find? columns occurrence = some (some i)) : i < columns.length := by
  cases target with
  | title s =>
    simp only [find?] at h
    split_ifs at h
    have hmem := List.mem_of_getElem? (Option.some.inj h)
    simpa using List.lt_add_of_mem_findIdxs _ hmem
  | position k =>
    simp only [find?] at h
    split_ifs at h
    obtain rfl := Option.some.inj (Option.some.inj h)
    omega

/-- The position of the column as a variable. -/
def indexVariable (v : Value) : Binding :=
  ⟨"index", false, .own v⟩

/-- **A function that starts with looking for a column** goes on with its position, gives something back if there is no
such column, and throws if the target is not to be used. -/
theorem findColumn_answers (h : Equipped env) (htable : Tabled columns row m)
    (hlength : (columns.length : Int) ≤ Word.greatest) (hdepth : env.depth ≤ maxDepth)
    (hname : scope.find? (·.name == "name_or_index") = some ⟨"name_or_index", false, .own target.value⟩)
    (hoccurrence : scope.find? (·.name == "occurrence") = some ⟨"occurrence", false, .own (.int occurrence)⟩)
    (k : Nat) (absent : Literal) {answer : Nat → Value}
    (hrest : ∀ (i : Nat) c, columns[i]? = some c →
      BodyAnswers env m (indexVariable (.int i) :: scope) (s :: rest) (some (answer i))) :
    BodyAnswers env m scope (findColumn q k absent ++ s :: rest)
      ((target.find? columns occurrence).map fun found => (found.map answer).getD (.ofLiteral absent)) := by
  have hcall := columnIndex_answers h.inner (htable.put scope) hlength hdepth target occurrence (q (k + 3))
  have hargs : List.Forall₂ (fun e v => Evals env.inner (m.put scope) e (.ok v) (m.put scope))
      [.name "name_or_index" (q (k + 5)), .name "occurrence" (q (k + 7))] [target.value, .int occurrence] :=
    .cons (.read hname _) (.cons (.read hoccurrence _) .nil)
  cases hfind : target.find? columns occurrence with
  | none =>
    rw [hfind] at hcall
    obtain ⟨failure, v, hthrown, hruns⟩ := hcall
    exact ⟨_, scope, .early (.declare_error (.call (by decide) hargs hruns) _), .thrown hthrown⟩
  | some found =>
    rw [hfind] at hcall
    refine .cons (.declare (.call (by decide) hargs hcall) rfl _) ?_
    cases found with
    | none =>
      have hcondition := less_ints (-1) 0
      exact .early (.branch (.binary rfl (.read rfl _) (.literal (.int 0) _) hcondition _)
        ((DoesAll.last (.giveBack (.literal absent _) _)).closed rfl))
    | some i =>
      have hcondition := less_ints i 0
      rw [decide_eq_false (by omega)] at hcondition
      exact .cons (.branch (.binary rfl (.read rfl _) (.literal (.int 0) _) hcondition _)
        ((DoesAll.nil _ _).closed rfl)) (hrest i _ (List.getElem?_eq_getElem (Target.lt_of_find? hfind)))

/-! ## Cells -/

/-- The value of the row in the column at a position. -/
def cellAt (columns : List Column) (row : Row) (i : Nat) : Value :=
  (columns[i]?.map (cell row)).getD .unit

theorem cell_evals {c : Column} (hc : columns[i]? = some c)
    (hcells : m.scope.find? (·.name == "cells") = some ⟨"cells", false, .own (cellsTable columns row)⟩)
    (hindex : m.scope.find? (·.name == "index") = some ⟨"index", false, .own (.int i)⟩) (p₁ p₂ p₃ : Place) :
    Evals env m (.chain (.name "cells" p₁) [.index (.name "index" p₂) p₂, .member "value" p₃]) (.ok (cell row c)) m := by
  have hrecord : (columns.map (cellRecord row))[i]? = some (cellRecord row c) := by rw [List.getElem?_map, hc]; rfl
  exact .chain hcells (.index _ (.read hindex p₂) (getIndex_array hrecord) (.member _ rfl (.here _))) p₁

theorem getCell_answers (h : Equipped env) (htable : Tabled columns row m)
    (hlength : (columns.length : Int) ≤ Word.greatest) (hdepth : env.depth + 1 ≤ maxDepth) (target : Target)
    (occurrence : Int) (place : Place) :
    Answers (fun n => invoke (interpreter n) env "get_cell" [target.value, .int occurrence] place) m
      ((target.find? columns occurrence).map fun found => (found.map (cellAt columns row)).getD (.text "")) := by
  obtain ⟨p, hf⟩ := h.library getCell (by simp [library, shelf])
  refine BodyAnswers.call hf (Nat.le_of_succ_le hdepth)
    (findColumn_answers h.inside htable hlength hdepth rfl rfl 8 (.text "") ?_) place
  intro i c hc
  have hcell : cellAt columns row i = cell row c := by rw [cellAt, hc]; rfl
  rw [hcell]
  exact .cons (.declare (.global (htable.put _).cells _) rfl _) (.last (cell_evals hc rfl rfl _ _ _))

/-! ## Options -/

/-- **A function that goes on with looking for options** goes on with the options, and gives `()` back if the column has
none. -/
theorem findOptions_answers (h : Equipped env) (htable : Tabled columns row m) (hdepth : env.depth ≤ maxDepth)
    (hindex : scope.find? (·.name == "index") = some ⟨"index", false, .own (.int i)⟩) (k : Nat)
    {answer : List String → Value}
    (hrest : ∀ options, optionsAt? columns i = some options →
      BodyAnswers env m (⟨"options", false, .own (optionsList options)⟩ :: scope) (s :: rest) (some (answer options))) :
    BodyAnswers env m scope (findOptions q k ++ s :: rest) (some (((optionsAt? columns i).map answer).getD .unit)) := by
  have hcall := dropdownOptions_answers h.inner (htable.put scope) hdepth i (q (k + 3))
  have hargs : List.Forall₂ (fun e v => Evals env.inner (m.put scope) e (.ok v) (m.put scope))
      [.name "index" (q (k + 5))] [.int i] := .cons (.read hindex _) .nil
  refine .cons (.declare (.call (by decide) hargs hcall) rfl _) ?_
  cases hfound : optionsAt? columns i with
  | none =>
    exact .early (.branch (.binary rfl (typeOf_evals h.inner rfl _ _) (.literal (.text "()") _) (equal_texts "()" "()") _)
      ((DoesAll.last (.giveBack (.literal .unit _) _)).closed rfl))
  | some options =>
    exact .cons (.branch (.binary rfl (typeOf_evals h.inner rfl _ _) (.literal (.text "()") _) (equal_texts "array" "()")
      _) ((DoesAll.nil _ _).closed rfl)) (hrest options hfound)

/-- The variables in the loop that looks for an option. -/
def positionScope (text : String) (position : Nat) (option : Value) (scope : List Binding) : List Binding :=
  ⟨"option", false, .own option⟩ :: ⟨"position", false, .own (.int position)⟩ :: ⟨"value", false, .own (.text text)⟩ :: scope

variable {text : String} {position : Nat}

theorem positionRound_evals (env : Env) (m : Machine) (option text : String) (position : Nat) (scope : List Binding)
    (p₁ p₂ p₃ : Place) :
    Evals env (m.put (positionScope text position (.text option) scope))
      (.binary .equal (.name "option" p₁) (.name "value" p₂) p₃) (.ok (.bool (option == text)))
      (m.put (positionScope text position (.text option) scope)) :=
  .binary rfl (.read rfl _) (.read rfl _) (equal_texts _ _) _

theorem position_run (env : Env) (m : Machine) (text : String) (scope : List Binding) (place : Place)
    (options : List String) (hfits : ((position + options.length : Nat) : Int) ≤ Word.greatest) (k : Nat) (w : Value) :
    ∃ position' w', Runs (fun l => forItems (interpreter l) env "option" none (positionRound q) place k
        (options.map .text)) (m.put (positionScope text position w scope))
      (searched ((options.findIdx? (· == text)).map (position + ·))) (m.put (positionScope text position' w' scope)) := by
  induction options generalizing position k w with
  | nil => exact ⟨position, w, .pure _ _⟩
  | cons option options ih =>
    have hcondition := positionRound_evals env.inner m option text position scope (q 75) (q 77) (q 76)
    rw [List.findIdx?_cons]
    by_cases hequal : option == text
    · rw [if_pos hequal]
      rw [hequal] at hcondition
      exact ⟨position, _, .forItems_error rfl ((DoesAll.early (.branch hcondition
        ((DoesAll.last (.giveBack (.read rfl _) _)).closed rfl))).closed rfl) nofun nofun⟩
    · rw [if_neg hequal, Option.map_map]
      rw [Bool.eq_false_of_not_eq_true hequal] at hcondition
      rw [List.length_cons] at hfits
      have hmore : ((position + 1 + options.length : Nat) : Int) ≤ Word.greatest := by omega
      obtain ⟨position', w', hrest⟩ := ih hmore (k + 1) (.text option)
      have hnext : Word.fits ((position : Int) + 1) = true := fits_of_le (k := position + 1) (by omega)
      have hshift : ((position + ·) ∘ (· + 1) : Nat → Nat) = (position + 1 + ·) := by
        funext j
        simp only [Function.comp_apply]
        omega
      rw [hshift]
      have hround : DoesBlock env (m.put (positionScope text position (.text option) scope)) (positionRound q) (.ok .unit)
          (m.put (positionScope text (position + 1) (.text option) scope)) :=
        (DoesAll.cons (.branch hcondition ((DoesAll.nil _ _).closed rfl))
          (.last (.add (.literal (.int 1) _) rfl hnext _ _))).closed rfl
      exact ⟨position', w', .forItems_next rfl hround hrest⟩

/-- The position of a text among options: `()` if it is none of them. -/
def optionPosition (text : String) (options : List String) : Value :=
  ((options.findIdx? (· == text)).map fun j : Nat => Value.int j).getD .unit

/-- The variables when the search for an option starts. -/
def optionScope (text : String) (scope : List Binding) : List Binding :=
  ⟨"position", false, .own (.int 0)⟩ :: ⟨"value", false, .own (.text text)⟩ :: scope

theorem optionPosition_answers (env : Env) (m : Machine) (text : String) {options : List String}
    (hfits : (options.length : Int) ≤ Word.greatest)
    (hoptions : scope.find? (·.name == "options") = some ⟨"options", false, .own (optionsList options)⟩) (p₁ p₂ : Place) :
    BodyAnswers env m (optionScope text scope)
      [.forLoop "option" none (.name "options" p₁) (positionRound q), .expr (.literal .unit p₂)]
      (some (optionPosition text options)) := by
  obtain ⟨position, w, hrun⟩ := position_run (q := q) env.inner m text scope p₁ options
    (by rwa [Nat.zero_add]) 0 .unit
  have hshift : (0 + · : Nat → Nat) = id := funext Nat.zero_add
  rw [hshift, Option.map_id] at hrun
  have hsource : Evals env.inner (m.put (optionScope text scope)) (.name "options" p₁) (.ok (optionsList options))
      (m.put (optionScope text scope)) := .read hoptions p₁
  have hloop : Does env (m.put (optionScope text scope)) (.forLoop "option" none (.name "options" p₁) (positionRound q))
      (searched (options.findIdx? (· == text))) _ := .forItems hsource hrun
  unfold optionPosition
  cases hposition : options.findIdx? (· == text) with
  | none =>
    rw [hposition] at hloop
    exact .cons hloop (.last (Evals.literal .unit p₂))
  | some j =>
    rw [hposition] at hloop
    exact .early hloop

/-- The text of the row in the column at a position. -/
def textAt (columns : List Column) (row : Row) (i : Nat) : String :=
  ((columns[i]?.bind fun c => row.value? c.id)).getD ""

/-- The position of the row's text among the options of the column at a position: `()` if there is none. -/
def optionPositionAt (columns : List Column) (row : Row) (i : Nat) : Value :=
  ((optionsAt? columns i).map (optionPosition (textAt columns row i))).getD .unit

theorem cell_of_options {c : Column} {options : List String} (h : c.options? = some options) :
    cell row c = .text ((row.value? c.id).getD "") := by
  obtain ⟨id, title, kind⟩ := c
  cases kind with
  | enum options => rfl
  | _ => cases h

theorem dropdownIndex_answers (h : Equipped env) (htable : Tabled columns row m)
    (hlength : (columns.length : Int) ≤ Word.greatest)
    (hoptions : ∀ i options, optionsAt? columns i = some options → (options.length : Int) ≤ Word.greatest)
    (hdepth : env.depth + 1 ≤ maxDepth) (target : Target) (occurrence : Int) (place : Place) :
    Answers (fun n => invoke (interpreter n) env "get_dropdown_index" [target.value, .int occurrence] place) m
      ((target.find? columns occurrence).map fun found => (found.map (optionPositionAt columns row)).getD .unit) := by
  obtain ⟨p, hf⟩ := h.library dropdownIndex (by simp [library, shelf])
  refine BodyAnswers.call hf (Nat.le_of_succ_le hdepth)
    (findColumn_answers h.inside htable hlength hdepth rfl rfl 8 .unit ?_) place
  intro i c hc
  refine findOptions_answers (q := p) h.inside htable hdepth ?_ 27 ?_
  · rfl
  intro options hfound
  have hcell : cell row c = .text (textAt columns row i) := by
    rw [optionsAt?, hc] at hfound
    rw [textAt, hc]
    exact cell_of_options hfound
  refine .cons (.declare (.global (htable.put _).cells _) rfl _) ?_
  refine .cons (.declare (cell_evals hc rfl rfl _ _ _) rfl _) ?_
  rw [hcell]
  exact .cons (.declare (.literal (.int 0) _) rfl _) (optionPosition_answers _ _ _ (hoptions i options hfound) rfl _ _)

/-- The option at the position that a value tells: `()` if the value tells none. -/
def optionOf (v : Value) (options : List String) : Value :=
  match v with
  | .int k => if k < 0 then .unit else (options[k.toNat]?.map .text).getD .unit
  | _ => .unit

/-- The option of the column at a position that a value tells: `()` if there is none. -/
def optionAt (columns : List Column) (v : Value) (i : Nat) : Value :=
  ((optionsAt? columns i).map (optionOf v)).getD .unit

theorem int_or_other (v : Value) :
    (∃ k, v = .int k) ∨ (v.typeName != "i64") = true ∧ ∀ options, optionOf v options = .unit := by
  cases v with
  | int k => exact .inl ⟨k, rfl⟩
  | range first last through => cases through <;> exact .inr ⟨by simp [Value.typeName], fun _ => rfl⟩
  | _ => exact .inr ⟨by simp [Value.typeName], fun _ => rfl⟩

/-- The position of an option is checked, and the option is given. -/
theorem optionOf_answers (h : Equipped env) (m : Machine) {options : List String} {k : Int}
    (hoptions : scope.find? (·.name == "options") = some ⟨"options", false, .own (optionsList options)⟩)
    (hvalue : scope.find? (·.name == "value") = some ⟨"value", false, .own (.int k)⟩) :
    BodyAnswers env m scope (optionGiven q) (some (optionOf (.int k) options)) := by
  have hlength : Evals env.inner (m.put scope) (.chain (.name "options" (q 68)) [.method "len" [] (q 70)])
      (.ok (.int options.length)) (m.put scope) := by
    have hcount := length_evals h.inner (m := m.put scope) hoptions (q 68) (q 70)
    rwa [List.length_map] at hcount
  have hcondition : Evals env.inner (m.put scope)
      (.binary .either (.binary .less (.name "value" (q 62)) (.literal (.int 0) (q 64)) (q 63))
        (.binary .greaterEqual (.name "value" (q 66)) (.chain (.name "options" (q 68)) [.method "len" [] (q 70)]) (q 67))
        (q 65))
      (.ok (.bool (decide (k < 0) || decide ((options.length : Int) ≤ k)))) (m.put scope) :=
    .either (.binary rfl (.read hvalue _) (.literal (.int 0) _) (less_ints k 0) _)
      (fun _ => .binary rfl (.read hvalue _) hlength (greaterEqual_ints k options.length) _) _
  by_cases hout : k < 0 ∨ (options.length : Int) ≤ k
  · have hnone : optionOf (.int k) options = .unit := by
      by_cases hneg : k < 0
      · simp [optionOf, hneg]
      · have hlast : options.length ≤ k.toNat := by omega
        simp [optionOf, hlast]
    rw [show (decide (k < 0) || decide ((options.length : Int) ≤ k)) = true by simpa using hout] at hcondition
    rw [hnone]
    exact .early (.branch hcondition ((DoesAll.last (.giveBack (.literal .unit _) _)).closed rfl))
  · obtain ⟨j, rfl⟩ := Int.eq_ofNat_of_zero_le (show 0 ≤ k by omega)
    have hless : j < options.length := by omega
    have hoption : options[j]? = some options[j] := List.getElem?_eq_getElem hless
    have hsome : optionOf (.int j) options = .text options[j] := by simp [optionOf, hoption]
    have hitem : (options.map Value.text)[j]? = some (.text options[j]) := by
      rw [List.getElem?_map, hoption]
      rfl
    rw [show (decide ((j : Int) < 0) || decide ((options.length : Int) ≤ j)) = false by simpa using hout] at hcondition
    rw [hsome]
    exact .cons (.branch hcondition ((DoesAll.nil _ _).closed rfl))
      (.last (Evals.chain hoptions (.index _ (.read hvalue _) (getIndex_array hitem) (.here _)) _))

theorem dropdownValue_answers (h : Equipped env) (htable : Tabled columns row m)
    (hlength : (columns.length : Int) ≤ Word.greatest) (hdepth : env.depth + 1 ≤ maxDepth) (v : Value) (target : Target)
    (occurrence : Int) (place : Place) :
    Answers (fun n => invoke (interpreter n) env "to_dropdown_value" [v, target.value, .int occurrence] place) m
      ((target.find? columns occurrence).map fun found => (found.map (optionAt columns v)).getD .unit) := by
  obtain ⟨p, hf⟩ := h.library dropdownValue (by simp [library, shelf])
  refine BodyAnswers.call hf (Nat.le_of_succ_le hdepth)
    (findColumn_answers h.inside htable hlength hdepth rfl rfl 10 .unit ?_) place
  intro i c hc
  refine findOptions_answers (q := p) h.inside htable hdepth ?_ 29 ?_
  · rfl
  intro options hfound
  rcases int_or_other v with hint | hother
  · obtain ⟨k, rfl⟩ := hint
    exact .cons (.branch (.binary rfl (typeOf_evals h.inside.inner rfl _ _) (.literal (.text "i64") _)
      (unequal_texts "i64" "i64") _) ((DoesAll.nil _ _).closed rfl))
      (optionOf_answers (q := p) h.inside m rfl rfl)
  · have hcondition := unequal_texts v.typeName "i64"
    rw [hother.1] at hcondition
    rw [hother.2]
    exact .early (.branch (.binary rfl (typeOf_evals h.inside.inner rfl _ _) (.literal (.text "i64") _) hcondition _)
      ((DoesAll.last (.giveBack (.literal .unit _) _)).closed rfl))

end Worksheet.Formula
