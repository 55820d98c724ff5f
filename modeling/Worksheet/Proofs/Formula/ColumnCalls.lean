import Worksheet.Proofs.Formula.Addressing
import Worksheet.Proofs.Formula.FormulaScript
/-!
# Columns in formulas

* `ColumnCall`: the built-in functions that are given a column, and **`ColumnCall.answers`**: what they give;
* `Runs.unique`: code has one outcome;
* `AddressesColumns`: columns can be given by their titles or by their positions;
* `ColumnCall.IsWritten`, `ColumnCall.IsCall`: formulas that are a call, and calls in a formula;
* **`columnCalls_formula`**: columns can be given in both ways in formulas.
-/

namespace Worksheet.Formula

open Interpreter Library Worksheet.Text

variable {env : Env} {m : Machine} {columns : List Column} {row : Row}

/-! ## What the functions give -/

/-- A built-in function that is given a column, with what it is given before that. -/
inductive ColumnCall
  | cell
  | dropdownIndex
  | dropdownValue (v : Value)

namespace ColumnCall

/-- The name of the function. -/
def name : ColumnCall → String
  | .cell => "get_cell"
  | .dropdownIndex => "get_dropdown_index"
  | .dropdownValue _ => "to_dropdown_value"

/-- The arguments of a call; the occurrence may be left out. -/
def args : ColumnCall → Target → Option Int → List Value
  | .cell, target, occurrence | .dropdownIndex, target, occurrence =>
    target.value :: (occurrence.map .int).toList
  | .dropdownValue v, target, occurrence => v :: target.value :: (occurrence.map .int).toList

/-- What the function gives for the column at a position. -/
def valueAt (columns : List Column) (row : Row) : ColumnCall → Nat → Value
  | .cell, i => cellAt columns row i
  | .dropdownIndex, i => optionPositionAt columns row i
  | .dropdownValue v, i => optionAt columns v i

/-- What the function gives if there is no such column. -/
def absent : ColumnCall → Value
  | .cell => .text ""
  | .dropdownIndex | .dropdownValue _ => .unit

/-- What a call gives, or none if it throws. An occurrence that is left out is the first one. -/
def answer (columns : List Column) (row : Row) (f : ColumnCall) (target : Target) (occurrence : Option Int) :
    Option Value :=
  (target.find? columns (occurrence.getD 0)).map fun found => (found.map (f.valueAt columns row)).getD f.absent

theorem name_ne_method (f : ColumnCall) :
    ["push", "sort", "map", "filter", "reduce", "call", "curry"].contains f.name = false := by
  cases f <;> rfl

/-- **What a built-in function gives for a column**: its value at the position of the column, or the value for no column,
and it throws if there can be no such column. -/
theorem answers (h : Equipped env) (htable : Tabled columns row m) (hcolumns : (columns.length : Int) ≤ Word.greatest)
    (hoptions : ∀ i options, optionsAt? columns i = some options → (options.length : Int) ≤ Word.greatest)
    (hdepth : env.depth + 2 ≤ maxDepth) (f : ColumnCall) (target : Target) (occurrence : Option Int) (place : Place) :
    Answers (fun n => invoke (interpreter n) env f.name (f.args target occurrence) place) m
      (f.answer columns row target occurrence) := by
  have hshallow : env.depth + 1 ≤ maxDepth := Nat.le_of_succ_le hdepth
  have hless : env.depth ≤ maxDepth := Nat.le_of_succ_le hshallow
  cases occurrence with
  | some n =>
    cases f with
    | cell => exact getCell_answers h htable hcolumns hshallow target n place
    | dropdownIndex => exact dropdownIndex_answers h htable hcolumns hoptions hshallow target n place
    | dropdownValue v => exact dropdownValue_answers h htable hcolumns hshallow v target n place
  | none =>
    -- The function calls the one that is given an occurrence.
    cases f with
    | cell =>
      obtain ⟨p, hf⟩ := h.library (fun p => firstOccurrence p "get_cell" ["name_or_index"]) (by simp [library, shelf])
      exact BodyAnswers.call hf hless (.last (.evalCall (by decide) (.cons (.read rfl _) (.cons (.literal (.int 0) _) .nil))
        (getCell_answers h.inside.inner (htable.put _) hcolumns hdepth target 0 _))) place
    | dropdownIndex =>
      obtain ⟨p, hf⟩ := h.library (fun p => firstOccurrence p "get_dropdown_index" ["name_or_index"])
        (by simp [library, shelf])
      exact BodyAnswers.call hf hless (.last (.evalCall (by decide) (.cons (.read rfl _) (.cons (.literal (.int 0) _) .nil))
        (dropdownIndex_answers h.inside.inner (htable.put _) hcolumns hoptions hdepth target 0 _))) place
    | dropdownValue v =>
      obtain ⟨p, hf⟩ := h.library (fun p => firstOccurrence p "to_dropdown_value" ["value", "name_or_index"])
        (by simp [library, shelf])
      exact BodyAnswers.call hf hless (.last (.evalCall (by decide)
        (.cons (.read rfl _) (.cons (.read rfl _) (.cons (.literal (.int 0) _) .nil)))
        (dropdownValue_answers h.inside.inner (htable.put _) hcolumns hdepth v target 0 _))) place

end ColumnCall

/-! ## One outcome -/

theorem finished_inj {α : Type} {o o' : Except Signal α} {m₁ m₂ : Machine} (h : finished o m₁ = finished o' m₂) :
    o = o' := by
  cases o with
  | ok a =>
    cases o' with
    | ok b => exact congrArg Except.ok (EStateM.Result.ok.inj h).1
    | error e => cases h
  | error e =>
    cases o' with
    | ok b => cases h
    | error e' => exact congrArg Except.error (EStateM.Result.error.inj h).1

/-- Code has one outcome. -/
theorem Runs.unique {α : Type} {x : Nat → Exec α} {o o' : Except Signal α} {m₁ m₂ : Machine} (h : Runs x m o m₁)
    (h' : Runs x m o' m₂) : o = o' := by
  obtain ⟨level, cost, h⟩ := h
  obtain ⟨level', cost', h'⟩ := h'
  have hsame := (h (max level level') (Nat.le_max_left _ _) (1 + cost') (by omega)).symm.trans
    ((congrArg (fun steps => x (max level level') (m.left steps)) (by omega)).trans
      (h' (max level level') (Nat.le_max_right _ _) (1 + cost) (by omega)))
  exact finished_inj hsame

/-- The expression throws something. -/
def Throws (env : Env) (m : Machine) (e : Expr) : Prop :=
  ∃ failure v m', failure.innermost = .thrown v ∧ Evals env m e (.error (.failed failure)) m'

theorem Answers.answersWith {e : Expr} {answer : Option Value}
    (h : Answers (fun n => (interpreter n).expr env e) m answer) :
    AnswersWith (fun v => Evals env m e (.ok v) m) (Throws env m e) answer := by
  cases answer with
  | none =>
    obtain ⟨failure, v, hthrown, hruns⟩ := h
    exact ⟨failure, v, m, hthrown, hruns⟩
  | some v =>
    refine ⟨h, ?_⟩
    rintro ⟨failure, w, m', -, hruns⟩
    cases hruns.unique h

/-! ## Titles and positions -/

theorem Target.find?_title (s : String) {n : Int} (hn : 0 ≤ n) :
    (Target.title s).find? columns n = some (columns.findIdxs (·.title == s))[n.toNat]? :=
  if_neg (Int.not_lt.mpr hn)

theorem Target.find?_position {i : Nat} (hi : i < columns.length) {n : Int} (hn : 0 ≤ n) :
    (Target.position i).find? columns n = some (some i) :=
  if_neg (by omega)

theorem Target.find?_eq_none {target : Target} {n : Int} :
    target.find? columns n = none ↔ n < 0 ∨ ∃ k : Int, target = .position k ∧ (k < 0 ∨ columns.length ≤ k) := by
  cases target with
  | title s => simp [Target.find?]
  | position k =>
    simp only [Target.find?, ite_eq_left_iff, reduceCtorEq, imp_false, not_not, Target.position.injEq, exists_eq_left']

/-- The calls are given columns, by their titles or by their positions. -/
structure AddressesColumns {α : Type} (columns : List Column) (row : Row)
    (IsCall : ColumnCall → Target → Option Int → α → Prop) (Gives : α → Value → Prop) (Throws : α → Prop) : Prop where
  /-- A title stands for the position of the column that has it, counted among those that have it. -/
  title : ∀ (f : ColumnCall) (s : String) (n n' : Option Int) (i : Nat) (a a' : α), 0 ≤ n.getD 0 →
    (columns.findIdxs (·.title == s))[(n.getD 0).toNat]? = some i → 0 ≤ n'.getD 0 → IsCall f (.title s) n a →
    IsCall f (.position i) n' a' → ∃ v, Gives a v ∧ Gives a' v
  absent : ∀ (f : ColumnCall) (s : String) (n : Option Int) (a : α), 0 ≤ n.getD 0 →
    (columns.findIdxs (·.title == s))[(n.getD 0).toNat]? = none → IsCall f (.title s) n a → Gives a f.absent
  position : ∀ (k : Nat) (c : Column) (n : Option Int) (a : α), columns[k]? = some c → 0 ≤ n.getD 0 →
    IsCall .cell (.position k) n a → Gives a (cell row c)
  throws : ∀ (f : ColumnCall) (target : Target) (n : Option Int) (a : α), IsCall f target n a →
    (Throws a ↔ n.getD 0 < 0 ∨ ∃ k : Int, target = .position k ∧ (k < 0 ∨ columns.length ≤ k))

theorem AddressesColumns.of_answers {α : Type} {IsCall : ColumnCall → Target → Option Int → α → Prop}
    {Gives : α → Value → Prop} {Throws : α → Prop}
    (h : ∀ f target n a, IsCall f target n a → AnswersWith (Gives a) (Throws a) (f.answer columns row target n)) :
    AddressesColumns columns row IsCall Gives Throws where
  title f s n n' i a a' hn hi hn' ha ha' := by
    have hfind : (Target.title s).find? columns (n.getD 0) = some (some i) :=
      (Target.find?_title s hn).trans (congrArg some hi)
    have hanswer := h f _ n a ha
    have hanswer' := h f _ n' a' ha'
    rw [ColumnCall.answer, hfind] at hanswer
    rw [ColumnCall.answer, Target.find?_position (Target.lt_of_find? hfind) hn'] at hanswer'
    exact ⟨_, hanswer.1, hanswer'.1⟩
  absent f s n a hn hnone ha := by
    have hanswer := h f _ n a ha
    rw [ColumnCall.answer, Target.find?_title s hn, hnone] at hanswer
    exact hanswer.1
  position k c n a hc hn ha := by
    have hanswer := h .cell _ n a ha
    have hvalue : cellAt columns row k = cell row c := by rw [cellAt, hc]; rfl
    rw [ColumnCall.answer, Target.find?_position (List.getElem?_eq_some_iff.mp hc).1 hn] at hanswer
    exact hvalue ▸ hanswer.1
  throws f target n a ha := by
    have hanswer := h f target n a ha
    rw [← Target.find?_eq_none]
    cases hfind : target.find? columns (n.getD 0) with
    | none =>
      rw [ColumnCall.answer, hfind] at hanswer
      exact iff_of_true hanswer rfl
    | some found =>
      rw [ColumnCall.answer, hfind] at hanswer
      exact iff_of_false hanswer.2 (Option.some_ne_none _)

namespace ColumnCall

/-- The expression calls the function for the target, and its arguments change nothing. -/
def IsCall (f : ColumnCall) (target : Target) (occurrence : Option Int) (env : Env) (m : Machine) (e : Expr) : Prop :=
  ∃ args place, e = .call f.name args place ∧
    List.Forall₂ (fun a v => Evals env m a (.ok v) m) args (f.args target occurrence)

/-- The formula calls the function for the target, with all arguments written out. -/
def IsWritten (f : ColumnCall) (target : Target) (occurrence : Option Int) (source : String) : Prop :=
  ∃ ws ds, List.Forall₂ EncodesArgument ws ds ∧ ds.map Datum.value = f.args target occurrence ∧
    source.toList = callText f.name ws

theorem name_written (f : ColumnCall) : IsVariableName f.name.toList ∧ f.name.toList.head? ≠ some 'r' := by
  have hname : ∀ name ∈ ["get_cell", "get_dropdown_index", "to_dropdown_value"], isNameForm name.toList = true ∧
      languageWords.contains (String.ofList name.toList) = false ∧ name.toList.head? ≠ some 'r' := by decide
  have hmem : f.name ∈ ["get_cell", "get_dropdown_index", "to_dropdown_value"] := by cases f <;> simp [name]
  obtain ⟨hform, hplain, hhead⟩ := hname f.name hmem
  exact ⟨⟨hform, hplain⟩, hhead⟩

theorem args_ne_nil (f : ColumnCall) (target : Target) (occurrence : Option Int) : f.args target occurrence ≠ [] := by
  cases f <;> exact List.cons_ne_nil _ _

/-- Every call can be written out whose integers fit into a word. -/
theorem exists_isWritten (f : ColumnCall) {target : Target} {occurrence : Option Int}
    (hf : ∀ v, f = .dropdownValue v → ∃ w d, EncodesArgument w d ∧ d.value = v)
    (htarget : ∀ k, target = .position k → Word.fits k = true) (hoccurrence : ∀ n ∈ occurrence, Word.fits n = true) :
    ∃ source, f.IsWritten target occurrence source := by
  obtain ⟨w, d, hw, hd⟩ : ∃ w d, EncodesArgument w d ∧ d.value = target.value := by
    cases target with
    | title s => exact ⟨_, _, encodesArgument_text s, by rw [Datum.value]; rfl⟩
    | position k => exact ⟨_, _, encodesArgument_int (htarget k rfl), by rw [Datum.value]; rfl⟩
  obtain ⟨ws, ds, hws, hds⟩ : ∃ ws ds, List.Forall₂ EncodesArgument ws ds ∧
      ds.map Datum.value = (occurrence.map Value.int).toList := by
    cases occurrence with
    | none => exact ⟨[], [], .nil, rfl⟩
    | some n =>
      refine ⟨_, _, .cons (encodesArgument_int (hoccurrence n rfl)) .nil, ?_⟩
      rw [List.map_singleton, Datum.value]
      rfl
  have hsource : ∀ ws, (String.ofList (callText f.name ws)).toList = callText f.name ws := fun ws => String.toList_ofList
  cases f with
  | cell | dropdownIndex =>
    exact ⟨_, w :: ws, d :: ds, .cons hw hws, by rw [List.map_cons, hd, hds]; rfl, hsource _⟩
  | dropdownValue v =>
    obtain ⟨w', d', hw', rfl⟩ := hf v rfl
    exact ⟨_, w' :: w :: ws, d' :: d :: ds, .cons hw' (.cons hw hws),
      by rw [List.map_cons, List.map_cons, hd, hds]; rfl, hsource _⟩

end ColumnCall

/-! ## In formulas -/

variable {mode : FormulaMode} {source : String} {script : Script} {f : ColumnCall} {target : Target}
  {occurrence : Option Int}

theorem optionsAt?_length_le
    (hoptions : ∀ c ∈ columns, ∀ options, c.options? = some options → (options.length : Int) ≤ Word.greatest) :
    ∀ i options, optionsAt? columns i = some options → (options.length : Int) ≤ Word.greatest := by
  intro i options h
  obtain ⟨c, hc, hsome⟩ := Option.bind_eq_some_iff.mp h
  exact hoptions c (List.mem_of_getElem? hc) options hsome

theorem ColumnCall.written_ne_nil {ws : List (List Char)} {ds : List Datum} (hws : List.Forall₂ EncodesArgument ws ds)
    (hvalues : ds.map Datum.value = f.args target occurrence) : ws ≠ [] := by
  rintro rfl
  cases hws
  exact f.args_ne_nil target occurrence hvalues.symm

theorem ColumnCall.IsWritten.exists_script (h : f.IsWritten target occurrence source) (columns : List Column) (row : Row) :
    ∃ script, parse (compile .expression source columns row).script = .ok script ∧ script.IsOrdinary := by
  obtain ⟨ws, ds, hws, hvalues, hsource⟩ := h
  obtain ⟨functions, body, more, es, place, hparse, hlibrary, -⟩ :=
    parse_call f.name_written.1 f.name_written.2 hws (ColumnCall.written_ne_nil hws hvalues) hsource columns row
  exact ⟨_, hparse, hlibrary.isOrdinary _⟩

/-- A formula that is a call is answered as the built-in function answers. -/
theorem ColumnCall.IsWritten.answersWith (hcolumns : (columns.length : Int) ≤ Word.greatest)
    (hoptions : ∀ c ∈ columns, ∀ options, c.options? = some options → (options.length : Int) ≤ Word.greatest)
    (h : f.IsWritten target occurrence source) :
    AnswersWith (FormulaGives columns row source) (FormulaThrows columns row source)
      (f.answer columns row target occurrence) := by
  obtain ⟨ws, ds, hws, hvalues, hsource⟩ := h
  refine answersWith_call f.name_written.1 f.name_written.2 hws (ColumnCall.written_ne_nil hws hvalues) hsource
    f.name_ne_method fun functions place hlibrary => ?_
  have hequipped : Equipped ⟨functions, 1, false⟩ :=
    equipped_library hlibrary (by rw [List.append_nil]; exact hlibrary.isOrdinary []) _ (List.append_nil _).symm
  have hdepth : 1 + 2 ≤ maxDepth := by decide
  have htable : Tabled columns row ((rowMachine .expression columns row).put []) :=
    (tabled_rowMachine .expression row hcolumns).put []
  rw [hvalues]
  exact f.answers hequipped htable hcolumns (optionsAt?_length_le hoptions) hdepth target occurrence place

/-- A call somewhere in a formula is answered as the built-in function answers. -/
theorem ColumnCall.IsCall.answersWith (hcolumns : (columns.length : Int) ≤ Word.greatest)
    (hoptions : ∀ c ∈ columns, ∀ options, c.options? = some options → (options.length : Int) ≤ Word.greatest)
    (hparse : parse (compile mode source columns row).script = .ok script) (hordinary : script.IsOrdinary)
    (henv : env.functions = script.functions) (hdepth : env.depth + 2 ≤ maxDepth) (htable : Tabled columns row m)
    {e : Expr} (h : f.IsCall target occurrence env m e) :
    AnswersWith (fun v => Evals env m e (.ok v) m) (Throws env m e) (f.answer columns row target occurrence) := by
  obtain ⟨args, place, rfl, hargs⟩ := h
  obtain ⟨⟨functions, own, hfunctions, hlibrary⟩, -⟩ := script_formula hparse
  have hequipped : Equipped env := equipped_library hlibrary (hfunctions ▸ hordinary) env (henv.trans hfunctions)
  exact (Answers.evalCall f.name_ne_method hargs (f.answers hequipped htable hcolumns (optionsAt?_length_le hoptions)
    hdepth target occurrence place)).answersWith

/-- **Columns can be given by their titles or by their positions**, in formulas that are a call and in calls anywhere in a
formula that does not define these functions itself. -/
theorem columnCalls_formula (row : Row) (hcolumns : (columns.length : Int) ≤ Word.greatest)
    (hoptions : ∀ c ∈ columns, ∀ options, c.options? = some options → (options.length : Int) ≤ Word.greatest) :
    AddressesColumns columns row ColumnCall.IsWritten (FormulaGives columns row) (FormulaThrows columns row) ∧
    ∀ (mode : FormulaMode) (source : String) (script : Script),
      parse (compile mode source columns row).script = .ok script → script.IsOrdinary →
      Tabled columns row (rowMachine mode columns row) ∧
      (∀ outcome m', DoesAll ⟨script.functions, 0, true⟩ (rowMachine mode columns row)
          (script.body.drop (rowDeclarations mode columns row).length) outcome m' →
        ∃ least, ∀ steps, least ≤ steps → runScript steps script = scriptResult outcome) ∧
      ∀ (env : Env) (m : Machine), env.functions = script.functions → env.depth + 2 ≤ maxDepth → Tabled columns row m →
        AddressesColumns columns row (fun f target n => f.IsCall target n env m) (fun e v => Evals env m e (.ok v) m)
          (Throws env m) := by
  refine ⟨.of_answers fun f target n source h => h.answersWith hcolumns hoptions,
    fun mode source script hparse hordinary => ⟨tabled_rowMachine mode row hcolumns,
      fun outcome m' h => runScript_more hparse h, fun env m henv hdepth htable => .of_answers fun f target n e h => ?_⟩⟩
  exact h.answersWith hcolumns hoptions hparse hordinary henv hdepth htable

/-- Two columns with the same title, and an enum column between them. -/
def twins : List Column :=
  [.new "a" "A" .text, ⟨"b", "B", .enum ["x", "y"]⟩, .new "c" "A" .text]

def twinRow : Row :=
  ⟨"r", ⟨[("a", "one"), ("b", "y"), ("c", "two")], by decide⟩⟩

theorem columnCalls_twins :
    (twins.length : Int) ≤ Word.greatest ∧
      (∀ c ∈ twins, ∀ options, c.options? = some options → (options.length : Int) ≤ Word.greatest) ∧
      (∃ v, FormulaGives twins twinRow "get_cell(\"A\", 1)" v ∧ FormulaGives twins twinRow "get_cell(2)" v) ∧
      FormulaGives twins twinRow "get_cell(2)" (.text "two") ∧ FormulaGives twins twinRow "get_cell(\"A\", 2)" (.text "") ∧
      FormulaThrows twins twinRow "get_cell(3)" ∧
      ∃ script, parse (compile .expression "get_cell(2)" twins twinRow).script = .ok script ∧ script.IsOrdinary ∧
        let m := rowMachine .expression twins twinRow
        ∀ place, Evals ⟨script.functions, 0, true⟩ m (.call "get_cell" [.literal (.int 2) place] place)
          (.ok (.text "two")) m := by
  have hcolumns : (twins.length : Int) ≤ Word.greatest := by decide
  have hoptions : ∀ c ∈ twins, ∀ options, c.options? = some options → (options.length : Int) ≤ Word.greatest := by
    simp [twins, Column.new, Column.options?, ColumnKind.ofType, Word.greatest]
  obtain ⟨hcalls, hscripts⟩ := columnCalls_formula twinRow hcolumns hoptions
  have htitle : ∀ n, Word.fits n = true → ∀ source : String,
      source.toList = callText "get_cell" [(textLiteral "A").toList, intText n] →
      ColumnCall.cell.IsWritten (.title "A") (some n) source := fun n hn source hsource =>
    ⟨_, [.literal (.text "A"), .literal (.int n)], .cons (encodesArgument_text "A") (.cons (encodesArgument_int hn) .nil),
      by simp only [List.map_cons, Datum.value]; rfl, hsource⟩
  have hposition : ∀ k, Word.fits k = true → ∀ source : String, source.toList = callText "get_cell" [intText k] →
      ColumnCall.cell.IsWritten (.position k) none source := fun k hk source hsource =>
    ⟨_, [.literal (.int k)], .cons (encodesArgument_int hk) .nil, by simp only [List.map_cons, Datum.value]; rfl, hsource⟩
  have hsecond := hposition 2 (by decide) "get_cell(2)" (by decide)
  refine ⟨hcolumns, hoptions, ?_, ?_, ?_, ?_, ?_⟩
  · exact hcalls.title .cell "A" (some 1) none 2 _ _ (by decide) (by decide) (by decide)
      (htitle 1 (by decide) _ (by decide)) hsecond
  · exact hcalls.position 2 _ none _ rfl (by decide) hsecond
  · exact hcalls.absent .cell "A" (some 2) _ (by decide) (by decide) (htitle 2 (by decide) _ (by decide))
  · exact (hcalls.throws .cell (.position 3) none _ (hposition 3 (by decide) _ (by decide))).mpr
      (.inr ⟨3, rfl, .inr (by decide)⟩)
  · obtain ⟨script, hparse, hordinary⟩ := hsecond.exists_script twins twinRow
    obtain ⟨htable, -, hcalls⟩ := hscripts .expression "get_cell(2)" script hparse hordinary
    have haddresses := hcalls ⟨script.functions, 0, true⟩ _ rfl (by decide : 0 + 2 ≤ maxDepth) htable
    exact ⟨script, hparse, hordinary, fun place => haddresses.position 2 _ none _ rfl (by decide)
      ⟨_, place, rfl, .cons (.literal (.int 2) place) .nil⟩⟩

end Worksheet.Formula
