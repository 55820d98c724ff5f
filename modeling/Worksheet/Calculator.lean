import Worksheet.Formula.Sandbox
import Worksheet.Sheet
/-!
# Computing the formula cells of a sheet

A calculator computes every formula cell of a sheet and keeps the results. In the next pass it runs
only those formulas again whose cell is new, or whose columns or inputs have changed. The inputs of a
cell are what the row holds under the columns that are no formulas.

* `Calculator.compute`: one pass; `Calculator.invalidate` forgets all results;
* `overlay`: rows with the results in their cells, for display.
-/

namespace Worksheet

open Formula

/-- What is known about a formula cell: the columns and inputs that it was computed from, and the
result. -/
structure CachedCell where
  columns : List Column
  inputs : List (String × Option String)
  result : CellResult
  deriving DecidableEq

/-- A row id and the id of a formula column. -/
abbrev CellKey : Type :=
  String × String

/-- The results of formula cells, by row id and then by column id. -/
abbrev Computed : Type :=
  Dict (Dict CellResult)

/-- A formula cell of a sheet. -/
structure FormulaCell where
  row : Row
  column : String
  source : String
  mode : FormulaMode
  deriving DecidableEq

namespace FormulaCell

/-- What stands for the cell among the results. -/
def key (c : FormulaCell) : CellKey :=
  (c.row.id, c.column)

/-- Runs the formula of a cell. -/
def evaluate (c : FormulaCell) (inputColumns : List Column) (timeout : Nat) : CellResult :=
  Formula.evaluate
    ((compile c.mode c.source inputColumns c.row).named ("formula_" ++ c.row.id ++ "_" ++ c.column))
    timeout

end FormulaCell

namespace Sheet

/-- The formula cells of a row. -/
def formulaCellsOf (s : Sheet) (r : Row) : List FormulaCell :=
  s.columns.filterMap fun c =>
    match c.kind with
    | .formula source mode => some ⟨r, c.id, source, mode⟩
    | _ => none

/-- The formula cells, row by row. -/
def formulaCells (s : Sheet) : List FormulaCell :=
  s.rows.flatMap s.formulaCellsOf

/-- What a row holds under the columns that formulas read. -/
def inputsOf (s : Sheet) (r : Row) : List (String × Option String) :=
  s.inputColumns.map fun c => (c.id, r.value? c.id)

end Sheet

/-- Computes formula cells and keeps the results. -/
structure Calculator where
  /-- The time limit of a cell, in milliseconds. -/
  timeout : Nat
  /-- The results that are kept, each key once. -/
  cache : List (CellKey × CachedCell)
  /-- The number of cells that were run in the last pass. -/
  recomputed : Nat

namespace Calculator

/-- A calculator without results. -/
def new (timeout : Nat) : Calculator :=
  ⟨timeout, [], 0⟩

/-- What is kept about a cell. -/
def cached? (k : Calculator) (key : CellKey) : Option CachedCell :=
  (k.cache.find? (·.1 == key)).map (·.2)

/-- The number of results that are kept. -/
def cachedCells (k : Calculator) : Nat :=
  k.cache.length

/-- Forgets all results. -/
def invalidate (k : Calculator) : Calculator :=
  { k with cache := [] }

/-- Keeps a result, in place of one of the same cell. -/
def keep (k : Calculator) (key : CellKey) (cell : CachedCell) : Calculator :=
  { k with cache := (key, cell) :: k.cache.filter (·.1 != key) }

/-- The result of a cell: the one that is kept if it was computed from the same columns and inputs, or
else a new one. -/
def result (k : Calculator) (s : Sheet) (c : FormulaCell) : CellResult × Calculator :=
  let fresh : Unit → CellResult × Calculator := fun _ =>
    let r := c.evaluate s.inputColumns k.timeout
    let k := k.keep c.key ⟨s.columns, s.inputsOf c.row, r⟩
    (r, { k with recomputed := k.recomputed + 1 })
  match k.cached? c.key with
  | some known =>
    if known.columns = s.columns ∧ known.inputs = s.inputsOf c.row then (known.result, k) else fresh ()
  | none => fresh ()

/-- The results of cells, one after the other. -/
def results (k : Calculator) (s : Sheet) : List FormulaCell → List (CellKey × CellResult) × Calculator
  | [] => ([], k)
  | c :: rest =>
    let (r, k) := k.result s c
    let (later, k) := k.results s rest
    ((c.key, r) :: later, k)

/-- Puts a result into its row. -/
def place (computed : Computed) (r : CellKey × CellResult) : Computed :=
  computed.insert r.1.1 (((computed.find? r.1.1).getD ∅).insert r.1.2 r.2)

/-- Results by row and column; every row of the sheet has its place, also without any formula. -/
def arrange (rows : List Row) (results : List (CellKey × CellResult)) : Computed :=
  results.foldl place (Dict.ofList (rows.map fun r => (r.id, ∅)))

/-- Computes all formula cells of a sheet. Results of cells that the sheet does not have are
forgotten. -/
def compute (k : Calculator) (s : Sheet) : Computed × Calculator :=
  let (results, k) := { k with recomputed := 0 }.results s s.formulaCells
  (arrange s.rows results,
    { k with cache := k.cache.filter fun e => (results.map (·.1)).contains e.1 })

end Calculator

/-- A row with the results of its formulas in their cells. A formula that has failed leaves its cell as
it is. -/
def overlayRow (computed : Computed) (r : Row) : Row :=
  match computed.find? r.id with
  | none => r
  | some results =>
    results.entries.foldl
      (fun r e => match e.2 with
        | .ok value => r.set e.1 value
        | .error _ => r)
      r

/-- Rows with the results of their formulas in their cells. -/
def overlay (rows : List Row) (computed : Computed) : List Row :=
  rows.map (overlayRow computed)

end Worksheet
