/-!
# Columns

A column has an identity, a title that need not be unique, and a kind. The kind of an enum column
holds its options, that of a formula column the formula.

* `ColumnType` is the kind without its settings, with its name (`ColumnType.name`);
* `FormulaMode`: a formula is an expression or a module;
* `ColumnKind` and `Column`.
-/

namespace Worksheet

/-- What a column holds, without its settings. -/
inductive ColumnType
  | text | number | enum | tags | date | formula
  deriving DecidableEq, Inhabited, Repr

namespace ColumnType

/-- Every type. -/
def all : List ColumnType := [text, number, enum, tags, date, formula]

/-- The name under which a type is known outside. -/
def name : ColumnType → String
  | text => "text"
  | number => "number"
  | enum => "enum"
  | tags => "tags"
  | date => "date"
  | formula => "formula"

/-- The type of a name. -/
def ofName? (s : String) : Option ColumnType :=
  all.find? (·.name == s)

theorem ofName?_eq_some {s : String} {t : ColumnType} : ofName? s = some t ↔ s = t.name := by
  constructor
  · intro h
    have := List.find?_some h
    simpa using Eq.symm (by simpa using this)
  · rintro rfl
    cases t <;> decide

end ColumnType

/-- How the text of a formula becomes a script. -/
inductive FormulaMode
  /-- The last line of the formula is its value. -/
  | expression
  /-- The formula is a script that defines the function `fx`. -/
  | module
  deriving DecidableEq, Inhabited, Repr

namespace FormulaMode

/-- The name under which a mode is known outside. -/
def name : FormulaMode → String
  | expression => "expression"
  | module => "module"

/-- The mode of a name. -/
def ofName? (s : String) : Option FormulaMode :=
  [expression, module].find? (·.name == s)

end FormulaMode

/-- What a column holds, with its settings. -/
inductive ColumnKind
  | text
  | number
  | enum (options : List String)
  | tags
  | date
  | formula (source : String) (mode : FormulaMode)
  deriving DecidableEq, Inhabited, Repr

namespace ColumnKind

/-- The kind of a new column, or of one that has just got this type. -/
def ofType : ColumnType → ColumnKind
  | .text => text
  | .number => number
  | .enum => enum []
  | .tags => tags
  | .date => date
  | .formula => formula "" .expression

/-- The type of a kind. -/
def type : ColumnKind → ColumnType
  | text => .text
  | number => .number
  | enum _ => .enum
  | tags => .tags
  | date => .date
  | formula _ _ => .formula

@[simp] theorem type_ofType (t : ColumnType) : (ofType t).type = t := by
  cases t <;> rfl

end ColumnKind

/-- A column of a sheet. -/
structure Column where
  id : String
  title : String
  kind : ColumnKind
  deriving DecidableEq, Inhabited, Repr

namespace Column

/-- A new column. -/
def new (id title : String) (type : ColumnType) : Column :=
  ⟨id, title, .ofType type⟩

/-- The type of a column. -/
def type (c : Column) : ColumnType :=
  c.kind.type

/-- The column is worked out from the others. -/
def isFormula (c : Column) : Bool :=
  c.type == .formula

/-- The column holds tags. -/
def isTags (c : Column) : Bool :=
  c.type == .tags

/-- The options of an enum column. -/
def options? (c : Column) : Option (List String) :=
  match c.kind with
  | .enum options => some options
  | _ => none

end Column

end Worksheet
