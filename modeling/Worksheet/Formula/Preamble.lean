import Worksheet.Formula.Identifier
import Worksheet.Sheet.Column
import Worksheet.Sheet.Row
import Worksheet.Sheet.Number
import Worksheet.Text.Quoted
/-!
# What every formula starts with

Before the text of the author, a script holds the row as constants, one variable for every column
that has a name, and the built-in functions. Each statement about the row takes up one line, because
the literals in it hold no line feed.

* `textLiteral`, `valueLiteral`: a text and a cell as literals of the formula language;
* `boundColumns`: the columns that get a variable;
* `preamble`: the lines.
-/

namespace Worksheet.Formula

open Worksheet.Text

/-- One character of a literal. -/
def literalChar (c : Char) : List Char :=
  if c = '\\' then ['\\', '\\']
  else if c = '\"' then ['\\', '\"']
  else if c = '\n' then ['\\', 'n']
  else if c = '\r' then ['\\', 'r']
  else if c = '\t' then ['\\', 't']
  else if isControl c then ['\\', 'u'] ++ hexPadded 4 c.toNat
  else [c]

/-- A text as a literal on one line. -/
def textLiteral (s : String) : String :=
  String.ofList (['\"'] ++ s.toList.flatMap literalChar ++ ['\"'])

/-- A cell as a literal: a number if the column holds numbers and the text is one, else a text. An
absent cell, and a number cell whose text is no number, are the empty text. -/
def valueLiteral (type : ColumnType) (value : Option String) : String :=
  match type with
  | .number => (value.bind CellNumber.literal?).getD "\"\""
  | _ => textLiteral (value.getD "")

/-- Adds a column to those that have a variable, unless its name is taken or it has none. -/
def bindColumn (bound : List (String × Column)) (c : Column) : List (String × Column) :=
  match Identifier.ofTitle? c.title with
  | none => bound
  | some name => if bound.any (·.1 == name) then bound else bound ++ [(name, c)]

/-- The columns that get a variable, with its name. Of two columns with the same name the first one
gets it. -/
def boundColumns (columns : List Column) : List (String × Column) :=
  columns.foldl bindColumn []

/-- A column of the row as an entry of `FORMULA_CELLS`. -/
def cellEntry (row : Row) (c : Column) : String :=
  "#\x7b column_name: " ++ textLiteral c.title ++ ", value: " ++
    valueLiteral c.type (row.value? c.id) ++ " \x7d"

/-- An enum column as an entry of `FORMULA_DROPDOWNS`. -/
def dropdownRecord? (index : Nat) (c : Column) : Option String :=
  c.options?.map fun options =>
    "#\x7b column_name: " ++ textLiteral c.title ++ ", index: " ++ toString index ++ ", values: [" ++
      ", ".intercalate (options.map textLiteral) ++ "] \x7d"

/-- The line with the cells of the row. -/
def cellsLine (columns : List Column) (row : Row) : String :=
  "const FORMULA_CELLS = [" ++ ", ".intercalate (columns.map (cellEntry row)) ++ "];"

/-- The entries of the enum columns, the first column standing at position `index`. -/
def dropdownEntries (index : Nat) : List Column → List String
  | [] => []
  | c :: rest => (dropdownRecord? index c).toList ++ dropdownEntries (index + 1) rest

/-- The line with the options of the enum columns. -/
def dropdownsLine (columns : List Column) : String :=
  "const FORMULA_DROPDOWNS = [" ++ ", ".intercalate (dropdownEntries 0 columns) ++ "];"

/-- The line that binds the variable of a column. An expression may change its variables; a module
reads them from inside functions, so they are constants there. -/
def bindingLine (mode : FormulaMode) (row : Row) (bound : String × Column) : String :=
  (match mode with
    | .expression => "let "
    | .module => "const ") ++
    bound.1 ++ " = " ++ valueLiteral bound.2.type (row.value? bound.2.id) ++ ";"

/-- The lines about the row. -/
def dataLines (mode : FormulaMode) (columns : List Column) (row : Row) : List String :=
  cellsLine columns row :: dropdownsLine columns :: (boundColumns columns).map (bindingLine mode row)

/-- The lines before the text of the author. -/
def preamble (mode : FormulaMode) (columns : List Column) (row : Row) : List String :=
  dataLines mode columns row ++ Builtin.source

end Worksheet.Formula
