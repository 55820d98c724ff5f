import Worksheet.Json.Record
import Worksheet.Sheet
import Worksheet.Stamp.Notation
/-!
# Sheets in JSON

The JSON form of sheets and their parts. Absent `columns`, `rows`, `values`, `options`, `formula` and
`formulaType` have defaults; null is not absent. A column is one flat object, its `type` next to its
other fields.

* `Sheet.toJson`, `SheetMeta.toJson`, `Column.toJson`, `Row.toJson`;
* `Sheet.ofJson?`, `SheetMeta.ofJson?`, `Column.ofJson?`, `Row.ofJson?`.
-/

namespace Worksheet

open Json

/-! ## Parts -/

namespace FormulaMode

/-- The JSON form of a mode. -/
def toJson (m : FormulaMode) : Json :=
  text m.name

/-- Reads a mode. -/
def ofJson? (j : Json) : Option FormulaMode :=
  (bareName? Json.isBlank j).bind ofName?

end FormulaMode

namespace Stamp

/-- The JSON form of a stamp. -/
def toJson (s : Stamp) : Json :=
  Json.text s.text

/-- Reads a stamp. -/
def ofJson? (j : Json) : Option Stamp :=
  j.text?.bind read?

end Stamp

/-! ## Columns -/

namespace ColumnKind

/-- The fields of a kind. -/
def members : ColumnKind → List (String × Json)
  | enum options => [("type", Json.text "enum"), ("options", ofList Json.text options)]
  | formula source mode =>
    [("type", Json.text "formula"), ("formula", Json.text source), ("formulaType", mode.toJson)]
  | k => [("type", Json.text k.type.name)]

/-- Reads the kind of a given type. -/
def ofFields? (type : ColumnType) (fields : Json) : Option ColumnKind :=
  match type with
  | .enum => do
    let [options] ← fields.record? ["options"] | none
    let options ← orElse [] (listOf? text?) options
    some (enum options)
  | .formula => do
    let [source, mode] ← fields.record? ["formula", "formulaType"] | none
    let source ← orElse "" text? source
    let mode ← orElse .expression FormulaMode.ofJson? mode
    some (formula source mode)
  | t => some (ofType t)

end ColumnKind

namespace Column

/-- The JSON form of a column. -/
def toJson (c : Column) : Json :=
  object (("id", text c.id) :: ("title", text c.title) :: c.kind.members)

/-- Reads a column. Nothing in it may be unusable, and its type may also be a position in the list of
types. -/
def ofJson? (j : Json) : Option Column := do
  let object members := j | none
  if j.isSound then
    let [id, title, type] ← j.record? ["id", "title", "type"] | none
    let id ← required text? id
    let title ← required text? title
    let type ← required (tagAmong? (ColumnType.all.map ColumnType.name) true) type
    let type ← ColumnType.ofName? type
    let kind ← ColumnKind.ofFields? type (object members)
    some ⟨id, title, kind⟩
  else none

end Column

/-! ## Rows -/

namespace Row

/-- The JSON form of a row. -/
def toJson (r : Row) : Json :=
  object [("id", text r.id), ("values", ofDict text r.values)]

/-- Reads a row. -/
def ofJson? (j : Json) : Option Row := do
  let [id, values] ← j.record? ["id", "values"] | none
  let id ← required text? id
  let values ← orElse ∅ (dictOf? text?) values
  some ⟨id, values⟩

end Row

/-! ## Sheets -/

namespace SheetMeta

/-- The JSON form of what a listing shows. -/
def toJson (m : SheetMeta) : Json :=
  object [("id", text m.id), ("name", text m.name), ("created", m.created.toJson),
    ("updated", m.updated.toJson)]

/-- Reads what a listing shows. -/
def ofJson? (j : Json) : Option SheetMeta := do
  let [id, name, created, updated] ← j.record? ["id", "name", "created", "updated"] | none
  let id ← required text? id
  let name ← required text? name
  let created ← required Stamp.ofJson? created
  let updated ← required Stamp.ofJson? updated
  some ⟨id, name, created, updated⟩

end SheetMeta

namespace Sheet

/-- The JSON form of a tag cache. -/
def tagCacheJson (cache : TagCache) : Json :=
  ofDict ofTextSet cache

/-- The JSON form of a sheet. -/
def toJson (s : Sheet) : Json :=
  object [("id", text s.id), ("name", text s.name), ("created", s.created.toJson),
    ("updated", s.updated.toJson), ("columns", ofList Column.toJson s.columns),
    ("rows", ofList Row.toJson s.rows), ("tagCache", tagCacheJson s.tagCache)]

/-- The names of the fields of a sheet. -/
def fieldNames : List String :=
  ["id", "name", "created", "updated", "columns", "rows", "tagCache"]

/-- Reads a sheet. -/
def ofJson? (j : Json) : Option Sheet := do
  let [id, name, created, updated, columns, rows, tagCache] ← j.record? fieldNames | none
  let id ← required text? id
  let name ← required text? name
  let created ← required Stamp.ofJson? created
  let updated ← required Stamp.ofJson? updated
  let columns ← orElse [] (listOf? Column.ofJson?) columns
  let rows ← orElse [] (listOf? Row.ofJson?) rows
  let tagCache ← orElse ∅ (dictOf? textSet?) tagCache
  some ⟨id, name, created, updated, columns, rows, tagCache⟩

end Sheet

end Worksheet
