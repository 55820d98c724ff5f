import Worksheet.Sheet.Column
import Worksheet.Sheet.Row
import Worksheet.Sheet.Tags
import Worksheet.Stamp
/-!
# Sheets

A sheet has columns and rows. The tags in use under each tags column are kept beside them, in the tag
cache.

* `Sheet` and its listing form `SheetMeta`;
* `Sheet.column?`, `Sheet.columnIndex?`, `Sheet.row?`: the first one of an id;
* `Sheet.tagsInUse`: what the tag cache has to hold.
-/

namespace Worksheet

/-- For each tags column the tags in use under it. -/
abbrev TagCache : Type :=
  Dict TextSet

/-- What a listing of sheets shows of one. -/
structure SheetMeta where
  id : String
  name : String
  created : Stamp
  updated : Stamp
  deriving DecidableEq, Inhabited

/-- A sheet. -/
structure Sheet where
  id : String
  name : String
  created : Stamp
  updated : Stamp
  columns : List Column
  rows : List Row
  tagCache : TagCache
  deriving DecidableEq, Inhabited

/-- Applies a function to the first member with a property. -/
def changeFirst {α : Type} (p : α → Bool) (f : α → α) : List α → List α
  | [] => []
  | a :: rest => if p a then f a :: rest else a :: changeFirst p f rest

namespace Sheet

/-- A sheet without columns and rows. -/
def new (id name : String) (now : Stamp) : Sheet :=
  ⟨id, name, now, now, [], [], ∅⟩

/-- The title of the column that a new sheet starts with. -/
def firstColumnTitle : String := "Untitled column"

/-- A sheet with one text column. -/
def newWithColumn (id name column : String) (now : Stamp) : Sheet :=
  { new id name now with columns := [Column.new column firstColumnTitle .text] }

/-- What a listing shows of the sheet. -/
def toMeta (s : Sheet) : SheetMeta :=
  ⟨s.id, s.name, s.created, s.updated⟩

/-- The first column of an id. -/
def column? (s : Sheet) (id : String) : Option Column :=
  s.columns.find? (·.id == id)

/-- The position of the first column of an id. -/
def columnIndex? (s : Sheet) (id : String) : Option Nat :=
  s.columns.findIdx? (·.id == id)

/-- The first row of an id. -/
def row? (s : Sheet) (id : String) : Option Row :=
  s.rows.find? (·.id == id)

/-- The columns that formulas read: all but the formula columns. -/
def inputColumns (s : Sheet) : List Column :=
  s.columns.filter (!·.isFormula)

/-- Changes the first column of an id. -/
def changeColumn (s : Sheet) (id : String) (f : Column → Column) : Sheet :=
  { s with columns := changeFirst (·.id == id) f s.columns }

/-- Changes the first row of an id. -/
def changeRow (s : Sheet) (id : String) (f : Row → Row) : Sheet :=
  { s with rows := changeFirst (·.id == id) f s.rows }

/-- Changes the texts that are present under the id of a column, in every row. -/
def changeValues (s : Sheet) (column : String) (f : String → String) : Sheet :=
  { s with rows := s.rows.map (·.change column f) }

/-- The tags under the id of a column, row by row. -/
def tagsUnder (rows : List Row) (column : String) : List String :=
  rows.flatMap fun r => ((r.value? column).map Tags.parse).getD []

/-- For each tags column the tags in use under it. -/
def tagsInUse (s : Sheet) : TagCache :=
  Dict.ofList ((s.columns.filter Column.isTags).map fun c =>
    (c.id, Dict.ofList ((tagsUnder s.rows c.id).map (·, ()))))

/-- Brings the tag cache up to date. -/
def refreshTags (s : Sheet) : Sheet :=
  { s with tagCache := s.tagsInUse }

end Sheet

end Worksheet
