import Worksheet.Dict
/-!
# Rows

A row holds texts under the ids of columns. An empty cell is an absent key.

* `Row` with `Row.value?`.
-/

namespace Worksheet

/-- A row of a sheet. -/
structure Row where
  id : String
  values : Dict String
  deriving DecidableEq, Inhabited

namespace Row

/-- A row without values. -/
def new (id : String) : Row :=
  ⟨id, ∅⟩

/-- The text under the id of a column. -/
def value? (r : Row) (column : String) : Option String :=
  r.values.find? column

/-- Puts a text under the id of a column. -/
def set (r : Row) (column value : String) : Row :=
  { r with values := r.values.insert column value }

/-- Changes the text under the id of a column, if there is one. -/
def change (r : Row) (column : String) (f : String → String) : Row :=
  { r with values := r.values.adjust column f }

end Row

end Worksheet
