import Worksheet.Sheet.Column
import Worksheet.Dict
/-!
# Actions

A sheet changes by actions only. An action on a column is a batch of edits, which are made one after
the other or not at all.

* `ColumnEdit` and `Action`, with the name of an action (`Action.name`).
-/

namespace Worksheet

/-- An edit of one column. -/
inductive ColumnEdit
  | rename (title : String)
  | changeType (type : String)
  /-- Gives the options in their new order by their ids, and to every id its new name. The id of an
  option that is there already is its text. -/
  | enumUpdate (order : List String) (names : Dict String)
  /-- Moves the column to a position. -/
  | reorder (index : Int)
  /-- Puts other tags in the place of some; an empty text takes the tag away. -/
  | tagRename (names : Dict String)
  | formula (source : String) (mode : FormulaMode)
  deriving DecidableEq, Inhabited

/-- A change of a sheet. -/
inductive Action
  | updateCell (row column value : String)
  | addRow (row : String)
  | deleteRow (row : String)
  | addColumn (column title type : String)
  | deleteColumn (column : String)
  | editColumn (column : String) (edits : List ColumnEdit)
  deriving DecidableEq, Inhabited

namespace Action

/-- The name under which an action is known outside. -/
def name : Action → String
  | updateCell _ _ _ => "update_cell"
  | addRow _ => "add_row"
  | deleteRow _ => "delete_row"
  | addColumn _ _ _ => "add_column"
  | deleteColumn _ => "delete_column"
  | editColumn _ _ => "update_column_batched"

end Action

end Worksheet
