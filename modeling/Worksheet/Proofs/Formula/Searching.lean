import Worksheet.Proofs.Formula.Library
import Worksheet.Proofs.Formula.RowData
import Worksheet.Proofs.Formula.Running
/-!
# Columns by title and by position

The two functions of the library that the others start with, run on the tables of a row.

* `cellsTable`, `optionsTable`: the tables as values; `Equipped`, `Tabled`: a formula that has the library and the tables;
* `search_runs`: the loop over the columns, with the columns that are left;
* `Target.find?`, **`columnIndex_answers`**: the position of a column that is given by its title or its position;
* `options_run`, **`dropdownOptions_answers`**: the options of the column at a position.
-/

namespace Worksheet.Formula

open Interpreter Library

/-! ## Operators on the values at hand -/

theorem equal_texts (s t : String) : Operator.equal.apply? (.text s) (.text t) = some (.ok (.bool (s == t))) := by
  simp [ Operator.apply?, compareWith?, equalValues, compareWith?.isFunction, floatPair?, textPair?]

theorem unequal_texts (s t : String) : Operator.unequal.apply? (.text s) (.text t) = some (.ok (.bool (s != t))) := by
  simp [ Operator.apply?, compareWith?, equalValues, compareWith?.isFunction, floatPair?, textPair?, bne]

theorem equal_ints (a b : Int) : Operator.equal.apply? (.int a) (.int b) = some (.ok (.bool (a == b))) := by
  simp [ Operator.apply?, compareWith?, equalValues, compareWith?.isFunction]

theorem less_ints (a b : Int) : Operator.less.apply? (.int a) (.int b) = some (.ok (.bool (a < b))) := by
  simp [ Operator.apply?, compareWith?, compareValues?]

theorem greaterEqual_ints (a b : Int) :
    Operator.greaterEqual.apply? (.int a) (.int b) = some (.ok (.bool (b ≤ a))) := by
  have h : (decide (b < a) || a == b) = decide (b ≤ a) := by
    rw [Bool.eq_iff_iff]
    simp
    omega
  simp [ Operator.apply?, compareWith?, compareValues?, equalValues, h]

/-! ## What the library finds -/

/-- The value of the row in a column. -/
def cell (row : Row) (c : Column) : Value :=
  .ofLiteral (cellValue c.type (row.value? c.id))

/-- A column in the table of the cells. -/
def cellRecord (row : Row) (c : Column) : Value :=
  .record [("column_name", .text c.title), ("value", cell row c)]

/-- The table of the cells. -/
def cellsTable (columns : List Column) (row : Row) : Value :=
  .array (columns.map (cellRecord row))

/-- The options of a column as a list. -/
def optionsList (options : List String) : Value :=
  .array (options.map .text)

/-- A column in the table of the options. -/
def optionsRecord (c : Column) (index : Nat) (options : List String) : Value :=
  .record [("column_name", .text c.title), ("index", .int index), ("values", optionsList options)]

/-- The table of the options, for the columns from position `start` on. -/
def optionsTable (columns : List Column) (start : Nat) : List Value :=
  (columns.zipIdx start).filterMap fun (c, index) => c.options?.map (optionsRecord c index)

/-- The functions of the library can be called, and those that it calls are the ones of the language. -/
structure Equipped (env : Env) : Prop where
  library : ∀ f ∈ library, ∃ p, env.function? (f p).name (f p).params.length = some (f p)
  length : env.function? "len" 0 = none
  typeOf : env.function? "type_of" 1 = none

/-- The constants hold the tables of the row. -/
structure Tabled (columns : List Column) (row : Row) (m : Machine) : Prop where
  cells : m.constants.find? (·.1 == "FORMULA_CELLS") = some ("FORMULA_CELLS", cellsTable columns row)
  options : m.constants.find? (·.1 == "FORMULA_DROPDOWNS") =
    some ("FORMULA_DROPDOWNS", .array (optionsTable columns 0))

variable {p : Nat → Place} {env : Env} {m : Machine} {columns : List Column} {row : Row}

theorem Equipped.inner (h : Equipped env) : Equipped env.inner := ⟨h.library, h.length, h.typeOf⟩

theorem Equipped.inside (h : Equipped env) : Equipped env.inside := ⟨h.library, h.length, h.typeOf⟩

theorem Tabled.put (h : Tabled columns row m) (scope : List Binding) : Tabled columns row (m.put scope) :=
  ⟨h.cells, h.options⟩

/-! ## Looking for a title -/

/-- The variables in the loop that looks for a title. -/
def searchScope (columns : List Column) (row : Row) (title : String) (occurrence : Int) (seen : Nat) (index : Value) :
    List Binding :=
  [⟨"index", false, .own index⟩, ⟨"seen", false, .own (.int seen)⟩, ⟨"cells", false, .own (cellsTable columns row)⟩,
    ⟨"occurrence", false, .own (.int occurrence)⟩, ⟨"name_or_index", false, .own (.text title)⟩]

variable {title : String} {occurrence : Int} {n seen : Nat} {w : Value}

theorem getIndex_array {k : Nat} {items : List Value} {v : Value} (h : items[k]? = some v) :
    getIndex (.array items) (.int k) = .ok v := by
  have hlt : k < items.length := (List.getElem?_eq_some_iff.mp h).1
  have hposition : position? items.length (k : Int) = some k := by simp [position?, hlt]
  simp [getIndex, hposition, h]

theorem title_evals (env : Env) (m : Machine) (row : Row) (title : String) (n seen : Nat) {k : Nat} {c : Column}
    (hc : columns[k]? = some c) (p₁ p₂ p₃ p₄ p₅ : Place) :
    Evals env (m.put (searchScope columns row title n seen (.int k)))
      (.binary .equal (.chain (.name "cells" p₁) [.index (.name "index" p₂) p₂, .member "column_name" p₃])
        (.name "name_or_index" p₄) p₅)
      (.ok (.bool (c.title == title))) (m.put (searchScope columns row title n seen (.int k))) := by
  have hrecord : (columns.map (cellRecord row))[k]? = some (cellRecord row c) := by rw [List.getElem?_map, hc]; rfl
  have hname : Evals env (m.put (searchScope columns row title n seen (.int k)))
      (.chain (.name "cells" p₁) [.index (.name "index" p₂) p₂, .member "column_name" p₃])
      (.ok (.text c.title)) (m.put (searchScope columns row title n seen (.int k))) :=
    .chain rfl (.index _ (.read rfl p₂) (getIndex_array hrecord) (.member _ rfl (.here _))) p₁
  exact .binary rfl hname (.read rfl p₄) (equal_texts _ _) p₅

theorem occurrence_evals (env : Env) (m : Machine) (columns : List Column) (row : Row) (title : String) (n seen : Nat)
    (index : Value) (p₁ p₂ p₃ : Place) :
    Evals env (m.put (searchScope columns row title n seen index))
      (.binary .equal (.name "seen" p₁) (.name "occurrence" p₂) p₃) (.ok (.bool (seen == n)))
      (m.put (searchScope columns row title n seen index)) := by
  have hequal := equal_ints seen n
  rw [show ((seen : Int) == n) = (seen == n) by simp [beq_eq_decide]] at hequal
  exact .binary rfl (.read rfl _) (.read rfl _) hequal _

theorem columnRound_other {k : Nat} {c : Column} (hc : columns[k]? = some c) (hother : c.title ≠ title) :
    DoesBlock env (m.put (searchScope columns row title n seen (.int k))) (columnRound p) (.ok .unit)
      (m.put (searchScope columns row title n seen (.int k))) := by
  have hcondition := title_evals env.inner m row title n seen hc (p 75) (p 77) (p 80) (p 82) (p 81)
  rw [beq_false_of_ne hother] at hcondition
  exact (DoesAll.last (.branch hcondition ((DoesAll.nil _ _).closed rfl))).closed rfl

theorem columnRound_earlier {k : Nat} {c : Column} (hc : columns[k]? = some c) (htitle : c.title = title)
    (hseen : seen ≠ n) (hfits : Word.fits (seen + 1)) :
    DoesBlock env (m.put (searchScope columns row title n seen (.int k))) (columnRound p) (.ok .unit)
      (m.put (searchScope columns row title n (seen + 1) (.int k))) := by
  have hcondition := title_evals env.inner m row title n seen hc (p 75) (p 77) (p 80) (p 82) (p 81)
  have hoccurrence :=
    occurrence_evals env.inner.inner m columns row title n seen (.int k) (p 85) (p 87) (p 86)
  rw [htitle, beq_self_eq_true] at hcondition
  rw [beq_false_of_ne hseen] at hoccurrence
  refine (DoesAll.last (.branch hcondition ?_)).closed rfl
  exact (DoesAll.cons (.branch hoccurrence ((DoesAll.nil _ _).closed rfl))
    (.last (.add (.literal (.int 1) _) rfl hfits _ _))).closed rfl

theorem columnRound_hit {k : Nat} {c : Column} (hc : columns[k]? = some c) (htitle : c.title = title) :
    DoesBlock env (m.put (searchScope columns row title n n (.int k))) (columnRound p) (.error (.giveBack (.int k)))
      (m.put (searchScope columns row title n n (.int k))) := by
  have hcondition := title_evals env.inner m row title n n hc (p 75) (p 77) (p 80) (p 82) (p 81)
  have hoccurrence := occurrence_evals env.inner.inner m columns row title n n (.int k) (p 85) (p 87) (p 86)
  rw [htitle, beq_self_eq_true] at hcondition
  rw [beq_self_eq_true] at hoccurrence
  refine (DoesAll.last (.branch hcondition ?_)).closed rfl
  exact (DoesAll.early (.branch hoccurrence ((DoesAll.last (.giveBack (.read rfl _) _)).closed rfl))).closed rfl

/-- How a search ends: early with the position that was found, or after the last round. -/
def searched (found : Option Nat) : Except Signal Value :=
  match found with
  | some i => .error (.giveBack (.int i))
  | none => .ok .unit

theorem fits_of_le {k : Nat} (h : (k : Int) ≤ Word.greatest) : Word.fits k = true := by
  have hleast : Word.least ≤ k := by
    unfold Word.least
    omega
  simp [Word.fits, hleast, h]

/-- The loop over the columns from some position on, after the title was seen a number of times. The columns that are
left are looked through for as many occurrences as are left. -/
theorem search_runs (hlength : (columns.length : Int) ≤ Word.greatest) (place : Place) {before rest : List Column}
    (hcolumns : columns = before ++ rest) (hseen : seen ≤ n) (hbefore : seen ≤ before.length) (w : Value) :
    ∃ seen' w', Runs (fun l => forRange (interpreter l) env "index" none (columnRound p) place 0 columns.length
        rest.length before.length) (m.put (searchScope columns row title n seen w))
      (searched ((rest.findIdxs (·.title == title) before.length)[n - seen]?))
      (m.put (searchScope columns row title n seen' w')) := by
  induction rest generalizing before seen w with
  | nil =>
    rw [List.append_nil] at hcolumns
    exact ⟨seen, w, .forRange_over (by rw [hcolumns]) _⟩
  | cons c rest ih =>
    have hc : columns[before.length]? = some c := by simp [hcolumns]
    have hless : before.length < columns.length := by simp [hcolumns]
    have hlater : (before ++ [c]).length = before.length + 1 := List.length_append
    have hnext : columns = (before ++ [c]) ++ rest := by rw [hcolumns, List.append_assoc, List.singleton_append]
    rw [List.findIdxs_cons]
    by_cases htitle : c.title = title
    · rw [if_pos (beq_iff_eq.mpr htitle)]
      by_cases hn : seen = n
      · subst hn
        rw [Nat.sub_self, List.getElem?_cons_zero]
        exact ⟨seen, _, .forRange_error (by omega) rfl (columnRound_hit hc htitle) nofun nofun⟩
      · have hmore : seen + 1 ≤ n := by omega
        obtain ⟨seen', w', hrest⟩ := ih hnext hmore (by omega) (.int before.length)
        rw [hlater] at hrest
        rw [show n - seen = (n - (seen + 1)) + 1 by omega, List.getElem?_cons_succ]
        have hfits : Word.fits ((seen + 1 : Nat) : Int) := fits_of_le (by omega)
        exact ⟨seen', w', .forRange_next (by omega) rfl (columnRound_earlier hc htitle hn hfits) hrest⟩
    · rw [if_neg (by simpa using htitle)]
      obtain ⟨seen', w', hrest⟩ := ih hnext hseen (by omega) (.int before.length)
      rw [hlater] at hrest
      exact ⟨seen', w', .forRange_next (by omega) rfl (columnRound_other hc htitle) hrest⟩

theorem search_all (env : Env) (m : Machine) (row : Row) (title : String) (n : Nat)
    (hlength : (columns.length : Int) ≤ Word.greatest) (place : Place) :
    ∃ seen w, Runs (fun l => forRange (interpreter l) env "index" none (columnRound p) place 0 columns.length
        (columns.length - 0 : Int).toNat 0) (m.put (searchScope columns row title n 0 .unit))
      (searched (columns.findIdxs (·.title == title))[n]?) (m.put (searchScope columns row title n seen w)) := by
  obtain ⟨seen, w, hsearch⟩ :=
    search_runs (p := p) hlength place (List.nil_append columns).symm (Nat.zero_le n) (Nat.zero_le _) .unit
  rw [Int.sub_zero, Int.toNat_natCast]
  exact ⟨seen, w, hsearch⟩

/-! ## Positions of columns -/

/-- What a formula gives for a column: its title, or its position. -/
inductive Target
  | title (s : String)
  | position (k : Int)

namespace Target

/-- The value that stands for the column. -/
def value : Target → Value
  | .title s => .text s
  | .position k => .int k

/-- The position of the column, if there is such a column; and nothing if the target is not to be used. -/
def find? (columns : List Column) (occurrence : Int) : Target → Option (Option Nat)
  | .title s => if occurrence < 0 then none else some (columns.findIdxs (·.title == s))[occurrence.toNat]?
  | .position k => if occurrence < 0 ∨ k < 0 ∨ columns.length ≤ k then none else some (some k.toNat)

end Target

theorem typeOf_evals (h : Equipped env) {name : String} {constant : Bool} {v : Value}
    (hname : m.scope.find? (·.name == name) = some ⟨name, constant, .own v⟩) (p₁ p₂ : Place) :
    Evals env m (.call "type_of" [.name name p₂] p₁) (.ok (.text v.typeName)) m :=
  .call (by decide) (.cons (.read hname p₂) .nil) (.native h.typeOf rfl p₁)

theorem length_evals (h : Equipped env) {name : String} {constant : Bool} {items : List Value}
    (hname : m.scope.find? (·.name == name) = some ⟨name, constant, .own (.array items)⟩) (p₁ p₂ : Place) :
    Evals env m (.chain (.name name p₁) [.method "len" [] p₂]) (.ok (.int items.length)) m :=
  .chain hname (.length _ h.length (.here _)) p₁

theorem count_evals (h : Equipped env)
    (hcells : m.scope.find? (·.name == "cells") = some ⟨"cells", false, .own (cellsTable columns row)⟩) (p₁ p₂ : Place) :
    Evals env m (.chain (.name "cells" p₁) [.method "len" [] p₂]) (.ok (.int columns.length)) m := by
  have hlength := length_evals h hcells p₁ p₂
  rwa [List.length_map] at hlength

/-- The variables of the function that looks for a column. -/
def targetScope (target : Target) (occurrence : Int) : List Binding :=
  [⟨"occurrence", false, .own (.int occurrence)⟩, ⟨"name_or_index", false, .own target.value⟩]

theorem columnIndex_negative (hneg : occurrence < 0) (target : Target) :
    DoesAll env (m.put (targetScope target occurrence)) (columnIndex p).body
      (.error (.failed (.cause (.thrown (.text "Occurrence index starts at 0!")) (some (p 13)))))
      (m.put (targetScope target occurrence)) := by
  have hcondition := less_ints occurrence 0
  rw [decide_eq_true hneg] at hcondition
  exact .early (.branch (.binary rfl (.read rfl _) (.literal (.int 0) _) hcondition _)
    ((DoesAll.last (.raise (.literal (.text "Occurrence index starts at 0!") _) _)).closed rfl))

/-- The variables once the table of the cells is at hand. -/
def tableScope (columns : List Column) (row : Row) (target : Target) (occurrence : Int) : List Binding :=
  ⟨"cells", false, .own (cellsTable columns row)⟩ :: targetScope target occurrence

theorem columnIndex_table (htable : Tabled columns row m) (hpos : 0 ≤ occurrence) {target : Target}
    {result : Except Signal Value} {m' : Machine}
    (hrest : DoesAll env (m.put (tableScope columns row target occurrence)) ((columnIndex p).body.drop 2) result m') :
    DoesAll env (m.put (targetScope target occurrence)) (columnIndex p).body result m' := by
  have hcondition := less_ints occurrence 0
  rw [decide_eq_false (by omega)] at hcondition
  refine .cons (.branch (.binary rfl (.read rfl _) (.literal (.int 0) _) hcondition _) ((DoesAll.nil _ _).closed rfl)) ?_
  exact .cons (.declare (.global (htable.put _).cells _) rfl _) hrest

theorem columnGiven_inside (h : Equipped env) (m : Machine) (row : Row) (occurrence : Int) {k : Int} (hpos : 0 ≤ k)
    (hless : k < columns.length) :
    DoesBlock env (m.put (tableScope columns row (.position k) occurrence)) (columnGiven p) (.error (.giveBack (.int k)))
      (m.put (tableScope columns row (.position k) occurrence)) := by
  have hfirst := less_ints k 0
  have hlast := greaterEqual_ints k columns.length
  rw [decide_eq_false (by omega)] at hfirst
  rw [decide_eq_false (by omega)] at hlast
  refine (DoesAll.cons (.branch (.binary rfl (.read rfl _) (.literal (.int 0) _) hfirst _)
    ((DoesAll.nil _ _).closed rfl)) ?_).closed rfl
  exact .cons (.branch (.binary rfl (.read rfl _) (count_evals h.inner rfl _ _) hlast _) ((DoesAll.nil _ _).closed rfl))
    (.last (.giveBack (.read rfl _) _))

theorem columnGiven_outside (h : Equipped env) (m : Machine) (row : Row) (occurrence : Int) {k : Int}
    (hout : k < 0 ∨ columns.length ≤ k) :
    ∃ v place, DoesBlock env (m.put (tableScope columns row (.position k) occurrence)) (columnGiven p)
      (.error (.failed (.cause (.thrown v) (some place)))) (m.put (tableScope columns row (.position k) occurrence)) := by
  have hfirst := less_ints k 0
  by_cases hneg : k < 0
  · rw [decide_eq_true hneg] at hfirst
    exact ⟨_, _, (DoesAll.early (.branch (.binary rfl (.read rfl _) (.literal (.int 0) _) hfirst _)
      ((DoesAll.last (.raise (.literal (.text "Column index starts at 0!") _) _)).closed rfl))).closed rfl⟩
  · have hlast := greaterEqual_ints k columns.length
    have hmessage : Operator.add.apply? (.text "Column index out of range: ") (.int k) =
      some (.ok (.text ("Column index out of range: " ++ (Value.int k).joined))) := rfl
    rw [decide_eq_false hneg] at hfirst
    rw [decide_eq_true (by omega)] at hlast
    refine ⟨.text ("Column index out of range: " ++ (Value.int k).joined), p 49, (DoesAll.cons
      (.branch (.binary rfl (.read rfl _) (.literal (.int 0) _) hfirst _) ((DoesAll.nil _ _).closed rfl)) ?_).closed rfl⟩
    exact .early (.branch (.binary rfl (.read rfl _) (count_evals h.inner rfl _ _) hlast _)
      ((DoesAll.last (.raise (.binary rfl (.literal (.text "Column index out of range: ") _) (.read rfl _) hmessage _)
        _)).closed rfl))

/-- What the function ends with that looks for a column. -/
def endOfSearch (found : Option Nat) : Except Signal Value :=
  match found with
  | some i => .error (.giveBack (.int i))
  | none => .ok (.int (-1))

theorem columnIndex_title (h : Equipped env) (htable : Tabled columns row m)
    (hlength : (columns.length : Int) ≤ Word.greatest) (title : String) (n : Nat) :
    ∃ scope, DoesAll env (m.put (targetScope (.title title) n)) (columnIndex p).body
      (endOfSearch (columns.findIdxs (·.title == title))[n]?) (m.put scope) := by
  obtain ⟨seen, w, hsearch⟩ := search_all env.inner m row title n hlength (p 68)
  have hrange : Evals env.inner (m.put (searchScope columns row title n 0 .unit).tail)
      (.binary .range (.literal (.int 0) (p 67)) (.chain (.name "cells" (p 69)) [.method "len" [] (p 71)]) (p 68))
      (.ok (.range 0 columns.length false)) (m.put (searchScope columns row title n 0 .unit).tail) :=
    .binary rfl (.literal (.int 0) _) (count_evals h.inner rfl _ _) rfl _
  have hloop : DoesAll env (m.put (searchScope columns row title n 0 .unit).tail) ((columnIndex p).body.drop 4)
      (endOfSearch (columns.findIdxs (·.title == title))[n]?) (m.put (searchScope columns row title n seen w).tail) := by
    cases hfound : (columns.findIdxs (·.title == title))[n]? with
    | none =>
      rw [hfound] at hsearch
      exact .cons (.forRange hrange hsearch) (.last (.expr (.literal (.int (-1)) _)))
    | some i =>
      rw [hfound] at hsearch
      exact .early (.forRange hrange hsearch)
  refine ⟨(searchScope columns row title n seen w).tail, columnIndex_table htable (Int.natCast_nonneg n) ?_⟩
  exact .cons (.branch (.binary rfl (typeOf_evals h.inner rfl _ _) (.literal (.text "i64") _)
    (equal_texts "string" "i64") _) ((DoesAll.nil _ _).closed rfl))
    (.cons (.declare (.literal (.int 0) _) rfl _) hloop)

/-- The position of a column as a value: -1 if there is no such column. -/
def positionValue : Option Nat → Value
  | some i => .int i
  | none => .int (-1)

/-- **The function that looks for a column** gives the position of the column or -1, and throws if the target is not
to be used. -/
theorem columnIndex_answers (h : Equipped env) (htable : Tabled columns row m)
    (hlength : (columns.length : Int) ≤ Word.greatest) (hdepth : env.depth ≤ maxDepth) (target : Target)
    (occurrence : Int) (place : Place) :
    Answers (fun n => invoke (interpreter n) env "formula_column_index" [target.value, .int occurrence] place) m
      ((target.find? columns occurrence).map positionValue) := by
  obtain ⟨p, hf⟩ := h.library columnIndex (by simp [library, shelf])
  by_cases hneg : occurrence < 0
  · have hnone : target.find? columns occurrence = none := by cases target <;> simp [Target.find?, hneg]
    rw [hnone]
    exact .call hf hdepth (columnIndex_negative hneg target) (.thrown rfl) place
  · cases target with
    | title title =>
      obtain ⟨n, rfl⟩ := Int.eq_ofNat_of_zero_le (Int.not_lt.mp hneg)
      obtain ⟨scope, hbody⟩ := columnIndex_title h.inside htable hlength title n
      have hfind : (Target.title title).find? columns (n : Int) = some (columns.findIdxs (·.title == title))[n]? := by
        simp [Target.find?]
      rw [hfind]
      refine .call hf hdepth hbody ?_ place
      cases (columns.findIdxs (·.title == title))[n]? with
      | none => exact .value _
      | some i => exact .giveBack _
    | position k =>
      have htype : Evals env.inside.inner (m.put (tableScope columns row (.position k) occurrence))
          (.binary .equal (.call "type_of" [.name "name_or_index" (p 27)] (p 25)) (.literal (.text "i64") (p 30)) (p 29))
          (.ok (.bool true)) (m.put (tableScope columns row (.position k) occurrence)) :=
        .binary rfl (typeOf_evals h.inside.inner rfl _ _) (.literal (.text "i64") _) (equal_texts "i64" "i64") _
      by_cases hout : k < 0 ∨ columns.length ≤ k
      · obtain ⟨v, place', hgiven⟩ := columnGiven_outside (p := p) h.inside.inner m row occurrence hout
        have hfind : (Target.position k).find? columns occurrence = none := if_pos (.inr hout)
        rw [hfind]
        exact .call hf hdepth (columnIndex_table htable (Int.not_lt.mp hneg) (.early (.branch htype hgiven)))
          (.thrown rfl) place
      · have hpos : 0 ≤ k := by omega
        have hless : k < columns.length := by omega
        have hgiven := columnGiven_inside (p := p) h.inside.inner m row occurrence hpos hless
        have hfind : (Target.position k).find? columns occurrence = some (some k.toNat) := if_neg (by omega)
        have hvalue : positionValue (some k.toNat) = .int k := congrArg Value.int (Int.toNat_of_nonneg hpos)
        rw [hfind, Option.map_some, hvalue]
        exact .call hf hdepth (columnIndex_table htable (Int.not_lt.mp hneg) (.early (.branch htype hgiven)))
          (.giveBack _) place

/-! ## Options of columns -/

/-- The options of the column at a position. -/
def optionsAt? (columns : List Column) (i : Nat) : Option (List String) :=
  columns[i]?.bind Column.options?

/-- Options as a value: `()` if there are none. -/
def optionsValue : Option (List String) → Value
  | some options => optionsList options
  | none => .unit

/-- The variables in the loop that looks for the options of a column. -/
def optionsScope (i : Nat) (column : Value) : List Binding :=
  [⟨"column", false, .own column⟩, ⟨"index", false, .own (.int i)⟩]

/-- How the search for options ends. -/
def optionsFound : Option (List String) → Except Signal Value
  | some options => .error (.giveBack (optionsList options))
  | none => .ok .unit

theorem optionsRound_evals (env : Env) (m : Machine) (c : Column) (i k : Nat) (options : List String)
    (p₁ p₂ p₃ p₄ : Place) :
    Evals env (m.put (optionsScope i (optionsRecord c k options)))
      (.binary .equal (.chain (.name "column" p₁) [.member "index" p₂]) (.name "index" p₃) p₄)
      (.ok (.bool (k == i))) (m.put (optionsScope i (optionsRecord c k options))) := by
  have hequal := equal_ints k i
  rw [show ((k : Int) == i) = (k == i) by simp [beq_eq_decide]] at hequal
  exact .binary rfl (.chain rfl (.member _ rfl (.here _)) _) (.read rfl _) hequal _

/-- The loop over the table of the options, for the columns from position `start` on. -/
theorem options_run (env : Env) (m : Machine) (columns : List Column) (start i : Nat) (place : Place) (k : Nat) (w : Value) :
    ∃ w', Runs (fun l => forItems (interpreter l) env "column" none (optionsRound p) place k (optionsTable columns start))
      (m.put (optionsScope i w)) (optionsFound (if i < start then none else optionsAt? columns (i - start)))
      (m.put (optionsScope i w')) := by
  induction columns generalizing start k w with
  | nil =>
    have hnone : (if i < start then none else optionsAt? [] (i - start)) = none := by simp [optionsAt?]
    rw [hnone]
    exact ⟨w, .pure _ _⟩
  | cons c columns ih =>
    have hlater : start ≠ i → (if i < start then none else optionsAt? (c :: columns) (i - start)) =
        if i < start + 1 then none else optionsAt? columns (i - (start + 1)) := by
      intro hne
      by_cases hlt : i < start
      · rw [if_pos hlt, if_pos (by omega)]
      · rw [if_neg hlt, if_neg (by omega), show i - start = (i - (start + 1)) + 1 by omega]
        rfl
    cases hoptions : c.options? with
    | none =>
      have hsame : (if i < start then none else optionsAt? (c :: columns) (i - start)) =
          if i < start + 1 then none else optionsAt? columns (i - (start + 1)) := by
        by_cases heq : start = i
        · subst heq
          simp [optionsAt?, hoptions]
        · exact hlater heq
      have htable : optionsTable (c :: columns) start = optionsTable columns (start + 1) := by
        simp [optionsTable, hoptions]
      rw [hsame, htable]
      exact ih (start + 1) k w
    | some options =>
      have htable : optionsTable (c :: columns) start =
          optionsRecord c start options :: optionsTable columns (start + 1) := by
        simp [optionsTable, hoptions]
      have hcondition := optionsRound_evals env.inner m c i start options (p 14) (p 16) (p 18) (p 17)
      rw [htable]
      by_cases heq : start = i
      · subst heq
        have hfound : (if start < start then none else optionsAt? (c :: columns) (start - start)) = some options := by
          simp [optionsAt?, hoptions]
        rw [beq_self_eq_true] at hcondition
        rw [hfound]
        exact ⟨_, .forItems_error rfl ((DoesAll.last (.branch hcondition ((DoesAll.last (.giveBack
          (.chain rfl (.member _ rfl (.here _)) _) _)).closed rfl))).closed rfl) nofun nofun⟩
      · obtain ⟨w', hrest⟩ := ih (start + 1) (k + 1) (optionsRecord c start options)
        rw [beq_false_of_ne heq] at hcondition
        rw [hlater heq]
        exact ⟨w', .forItems_next rfl ((DoesAll.last (.branch hcondition ((DoesAll.nil _ _).closed rfl))).closed rfl) hrest⟩

/-- **The function that looks for the options of a column** gives them as a list, or `()` if the column has none. -/
theorem dropdownOptions_answers (h : Equipped env) (htable : Tabled columns row m) (hdepth : env.depth ≤ maxDepth)
    (i : Nat) (place : Place) :
    Answers (fun n => invoke (interpreter n) env "formula_dropdown_options" [.int i] place) m
      (some (optionsValue (optionsAt? columns i))) := by
  obtain ⟨p, hf⟩ := h.library dropdownOptions (by simp [library, shelf])
  obtain ⟨w, hrun⟩ := options_run (p := p) env.inside.inner m columns 0 i (p 9) 0 .unit
  rw [if_neg (Nat.not_lt_zero i), Nat.sub_zero] at hrun
  have hsource : Evals env.inside.inner (m.put (optionsScope i .unit).tail)
      (.qualified "global" "FORMULA_DROPDOWNS" (p 9)) (.ok (.array (optionsTable columns 0)))
      (m.put (optionsScope i .unit).tail) := .global (htable.put _).options _
  cases hfound : optionsAt? columns i with
  | none =>
    rw [hfound] at hrun
    exact .call hf hdepth (.cons (.forItems hsource hrun) (.last (.expr (.literal .unit _)))) (.value _) place
  | some options =>
    rw [hfound] at hrun
    exact .call hf hdepth (.early (.forItems hsource hrun)) (.giveBack _) place

end Worksheet.Formula
