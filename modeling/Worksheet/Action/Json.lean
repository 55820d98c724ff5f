import Worksheet.Action
import Worksheet.Sheet.Json
/-!
# Actions in JSON

The JSON form of actions. An action is an object with its name under `action` and its fields under
`params`, or an array of the two. An edit of a column has its name under `editType`, next to its
fields.

* `Action.toJson`, `ColumnEdit.toJson`;
* `Action.ofJson?`, `ColumnEdit.ofJson?`.
-/

namespace Worksheet

open Json

namespace ColumnEdit

/-- The names of edits, in the order in which a position counts them. -/
def names : List String :=
  ["rename", "change_type", "enum_update", "reorder", "tag_rename", "formula"]

/-- The JSON form of an edit. -/
def toJson : ColumnEdit → Json
  | rename title => object [("editType", text "rename"), ("title", text title)]
  | changeType type => object [("editType", text "change_type"), ("toType", text type)]
  | enumUpdate order names =>
    object [("editType", text "enum_update"), ("idOrder", ofList text order),
      ("idToNames", ofDict text names)]
  | reorder index => object [("editType", text "reorder"), ("toIndex", integer index)]
  | tagRename names => object [("editType", text "tag_rename"), ("tagMap", ofDict text names)]
  | formula source mode =>
    object [("editType", text "formula"), ("formula", text source), ("formulaType", mode.toJson)]

/-- Reads the fields of the edit of a given name. -/
def ofFields? (name : String) (fields : Json) : Option ColumnEdit :=
  match name with
  | "rename" => do
    let [title] ← fields.record? ["title"] | none
    (required text? title).map rename
  | "change_type" => do
    let [type] ← fields.record? ["toType"] | none
    (required text? type).map changeType
  | "enum_update" => do
    let [order, names] ← fields.record? ["idOrder", "idToNames"] | none
    let order ← required (listOf? text?) order
    let names ← required (dictOf? text?) names
    some (enumUpdate order names)
  | "reorder" => do
    let [index] ← fields.record? ["toIndex"] | none
    (required int64? index).map reorder
  | "tag_rename" => do
    let [names] ← fields.record? ["tagMap"] | none
    (required (dictOf? text?) names).map tagRename
  | "formula" => do
    let [source, mode] ← fields.record? ["formula", "formulaType"] | none
    let source ← required text? source
    let mode ← orElse .expression FormulaMode.ofJson? mode
    some (formula source mode)
  | _ => none

/-- Reads an edit. Nothing in it may be unusable. With `byPosition` its name may be a position. -/
def ofJson? (byPosition : Bool) (j : Json) : Option ColumnEdit := do
  if j.isSound then
    let (tag, fields) ← j.tagged? "editType"
    let name ← tagAmong? names byPosition tag
    ofFields? name fields
  else none

end ColumnEdit

namespace Action

/-- The JSON form of the fields of an action. -/
def params : Action → Json
  | updateCell row column value =>
    object [("rowId", text row), ("columnId", text column), ("value", text value)]
  | addRow row => object [("rowId", text row)]
  | deleteRow row => object [("rowId", text row)]
  | addColumn column title type =>
    object [("columnId", text column), ("title", text title), ("type", text type)]
  | deleteColumn column => object [("columnId", text column)]
  | editColumn column edits =>
    object [("columnId", text column), ("actions", ofList ColumnEdit.toJson edits)]

/-- The JSON form of an action. -/
def toJson (a : Action) : Json :=
  object [("action", text a.name), ("params", a.params)]

/-- Reads the fields of the action of a given name, which must be an object. -/
def ofParams? (byPosition : Bool) (name : String) (fields : Json) : Option Action := do
  let object _ := fields | none
  match name with
  | "update_cell" => do
    let [row, column, value] ← fields.record? ["rowId", "columnId", "value"] | none
    let row ← required text? row
    let column ← required text? column
    let value ← required text? value
    some (updateCell row column value)
  | "add_row" => do
    let [row] ← fields.record? ["rowId"] | none
    (required text? row).map addRow
  | "delete_row" => do
    let [row] ← fields.record? ["rowId"] | none
    (required text? row).map deleteRow
  | "add_column" => do
    let [column, title, type] ← fields.record? ["columnId", "title", "type"] | none
    let column ← required text? column
    let title ← required text? title
    let type ← required text? type
    some (addColumn column title type)
  | "delete_column" => do
    let [column] ← fields.record? ["columnId"] | none
    (required text? column).map deleteColumn
  | "update_column_batched" => do
    let [column, edits] ← fields.record? ["columnId", "actions"] | none
    let column ← required text? column
    let edits ← required (listOf? (ColumnEdit.ofJson? byPosition)) edits
    some (editColumn column edits)
  | _ => none

/-- The fields of an action stand before its name. -/
def paramsFirst (members : List (String × Json)) : Bool :=
  ((members.map (·.1)).find? fun n => n == "action" || n == "params") == some "params"

/-- Reads an action. Fields that stand before the name are read as a whole before they are understood,
so that nothing in them may be unusable, and an edit may have its name by position. -/
def ofJson? : Json → Option Action
  | object members => do
    let name ← (← member? members "action").bind (bareName? isNull)
    let params ← ← member? members "params"
    if paramsFirst members then
      if params.isSound then ofParams? true name params else none
    else ofParams? false name params
  | array [tag, params] => do
    let name ← bareName? isNull tag
    ofParams? false name params
  | _ => none

end Action

end Worksheet
