import Worksheet.Action
import Worksheet.Sheet
import Worksheet.Sheet.Number
import Worksheet.SheetError
/-!
# Applying actions

What an action makes of a sheet. A refused action changes nothing; an accepted one stamps the sheet.

* `Sheet.edit`: one edit of a column; `Sheet.edits`: a batch of them;
* `Sheet.act`: one action without the stamp, `Sheet.reduce` with it;
* `Sheet.replay`: actions one after the other, up to the first one that is refused.
-/

namespace Worksheet

namespace ColumnType

/-- The type of a name, which must be one. -/
def read (name : String) : Except SheetError ColumnType :=
  match ofName? name with
  | some t => .ok t
  | none => .error (.invalidColumnType name)

end ColumnType

namespace Sheet

/-- The first column of an id, which must be there. -/
def column (s : Sheet) (id : String) : Except SheetError Column :=
  match s.column? id with
  | some c => .ok c
  | none => .error (.columnNotFound id)

/-- The position of the first column of an id, which must be there. -/
def columnIndex (s : Sheet) (id : String) : Except SheetError Nat :=
  match s.columnIndex? id with
  | some i => .ok i
  | none => .error (.columnNotFound id)

/-! ## Edits of a column -/

/-- What a text becomes when its column gets another type: a number in canonical form or nothing in a
number column, nothing in a tags column, itself in all others. -/
def converted (target : ColumnType) (text : String) : String :=
  match target with
  | .number => (CellNumber.canonical? text).getD ""
  | .tags => ""
  | _ => text

/-- Gives a column another type, its settings those of a new column. The type that it has already
changes nothing. -/
def changeType (s : Sheet) (id : String) (target : ColumnType) : Except SheetError Sheet := do
  let c ← s.column id
  if c.type = target then .ok s
  else .ok ((s.changeColumn id fun c => { c with kind := .ofType target }).changeValues id (converted target))

/-- The options of an enum column after an update. An id without a name, and one whose name is empty,
is left out. -/
def updatedOptions (order : List String) (names : Dict String) : List String :=
  (order.filterMap names.find?).filter (· != "")

/-- Gives an enum column its new options, and renames the texts under it. -/
def updateOptions (s : Sheet) (id : String) (order : List String) (names : Dict String) :
    Except SheetError Sheet := do
  let c ← s.column id
  match c.kind with
  | .enum _ =>
    .ok ((s.changeColumn id fun c => { c with kind := .enum (updatedOptions order names) }).changeValues
      id fun text => (names.find? text).getD text)
  | _ => .error (.notEnumColumn id)

/-- Moves a column to a position among all columns. -/
def moveColumn (s : Sheet) (id : String) (index : Int) : Except SheetError Sheet := do
  let start ← s.columnIndex id
  if 0 ≤ index ∧ index < s.columns.length then
    match s.columns[start]? with
    | some c => .ok { s with columns := (s.columns.eraseIdx start).insertIdx index.toNat c }
    | none => .error (.columnNotFound id)
  else .error (.indexOutOfRange index s.columns.length)

/-- Renames the tags under a tags column. -/
def renameTags (s : Sheet) (id : String) (names : Dict String) : Except SheetError Sheet := do
  let c ← s.column id
  if c.isTags then .ok (s.changeValues id (Tags.replace names)) else .error (.notTagsColumn id)

/-- Gives a formula column another formula. -/
def setFormula (s : Sheet) (id source : String) (mode : FormulaMode) : Except SheetError Sheet := do
  let c ← s.column id
  if c.isFormula then .ok (s.changeColumn id fun c => { c with kind := .formula source mode })
  else .error (.notFormulaColumn id)

/-- One edit of a column. -/
def edit (s : Sheet) (id : String) : ColumnEdit → Except SheetError Sheet
  | .rename title => do
    let _ ← s.column id
    .ok (s.changeColumn id fun c => { c with title := title })
  | .changeType name => do
    let target ← ColumnType.read name
    s.changeType id target
  | .enumUpdate order names => s.updateOptions id order names
  | .reorder index => s.moveColumn id index
  | .tagRename names => s.renameTags id names
  | .formula source mode => s.setFormula id source mode

/-- Edits of a column, one after the other. -/
def edits (s : Sheet) (id : String) : List ColumnEdit → Except SheetError Sheet
  | [] => .ok s
  | e :: rest => do
    let s ← s.edit id e
    s.edits id rest

/-! ## Actions -/

/-- Puts a text into a cell. The tag cache is brought up to date if the cell holds tags. -/
def updateCell (s : Sheet) (row column value : String) : Except SheetError Sheet :=
  if (s.row? row).isSome then
    let s := s.changeRow row (·.set column value)
    .ok (if (s.column? column).any Column.isTags then s.refreshTags else s)
  else .error (.rowNotFound row)

/-- Adds a row at the end. -/
def addRow (s : Sheet) (row : String) : Except SheetError Sheet :=
  if (s.row? row).isSome then .error (.duplicateRow row)
  else .ok { s with rows := s.rows ++ [Row.new row] }

/-- Deletes a row. -/
def deleteRow (s : Sheet) (row : String) : Except SheetError Sheet :=
  if (s.row? row).isSome then
    .ok { s with rows := s.rows.eraseP (·.id == row) }.refreshTags
  else .error (.rowNotFound row)

/-- Adds a column at the end. -/
def addColumn (s : Sheet) (column title type : String) : Except SheetError Sheet := do
  let type ← ColumnType.read type
  if (s.column? column).isSome then .error (.duplicateColumn column)
  else .ok { s with columns := s.columns ++ [Column.new column title type] }.refreshTags

/-- Deletes a column. The texts under its id stay in the rows. -/
def deleteColumn (s : Sheet) (column : String) : Except SheetError Sheet := do
  let _ ← s.column column
  .ok { s with columns := s.columns.eraseP (·.id == column) }.refreshTags

/-- Makes a batch of edits of a column. -/
def editColumn (s : Sheet) (column : String) (batch : List ColumnEdit) : Except SheetError Sheet := do
  let _ ← s.column column
  let s ← s.edits column batch
  .ok s.refreshTags

/-- What an action makes of a sheet, its stamp aside. -/
def act (s : Sheet) : Action → Except SheetError Sheet
  | .updateCell row column value => s.updateCell row column value
  | .addRow row => s.addRow row
  | .deleteRow row => s.deleteRow row
  | .addColumn column title type => s.addColumn column title type
  | .deleteColumn column => s.deleteColumn column
  | .editColumn column batch => s.editColumn column batch

/-- What an action makes of a sheet at a given time. -/
def reduce (s : Sheet) (a : Action) (now : Stamp) : Except SheetError Sheet := do
  let s ← s.act a
  .ok { s with updated := now }

/-- Actions one after the other, the first one being number `index`. A refused action ends the replay,
and its number is told. -/
def replayFrom (index : Nat) (s : Sheet) (now : Stamp) : List Action → Except (Nat × SheetError) Sheet
  | [] => .ok s
  | a :: rest =>
    match s.reduce a now with
    | .ok s => s.replayFrom (index + 1) now rest
    | .error e => .error (index, e)

/-- Actions one after the other. -/
def replay (s : Sheet) (actions : List Action) (now : Stamp) : Except (Nat × SheetError) Sheet :=
  s.replayFrom 0 now actions

end Sheet

end Worksheet
