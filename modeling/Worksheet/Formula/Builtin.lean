/-!
# Built-in functions

The functions that every formula can call, written in the formula language. They read the row through
the two constants `FORMULA_CELLS` and `FORMULA_DROPDOWNS`. Each takes, last, which of the columns with
the same title is meant; left out, it is the first one.

* `Builtin.all`: what is told to users;
* `Builtin.source`: the text of the library, one line each.
-/

namespace Worksheet.Formula

/-- A built-in function as users see it. -/
structure Builtin where
  name : String
  signature : String
  description : String
  deriving DecidableEq, Inhabited

namespace Builtin

/-- Every built-in function. -/
def all : List Builtin := [
  ⟨"get_cell", "get_cell(name_or_index, occurrence = 0)",
    "Value of a column in the current row"⟩,
  ⟨"get_dropdown_index", "get_dropdown_index(name_or_index, occurrence = 0)",
    "Position of the current value in a dropdown column's options"⟩,
  ⟨"to_dropdown_value", "to_dropdown_value(index, name_or_index, occurrence = 0)",
    "Option text at a position of a dropdown column"⟩]

/-- The lines of the library. -/
def source : List String := [
  "fn formula_column_index(name_or_index, occurrence) \x7b",
  "    if occurrence < 0 \x7b throw \"Occurrence index starts at 0!\"; \x7d",
  "    let cells = global::FORMULA_CELLS;",
  "    if type_of(name_or_index) == \"i64\" \x7b",
  "        if name_or_index < 0 \x7b throw \"Column index starts at 0!\"; \x7d",
  "        if name_or_index >= cells.len() \x7b throw \"Column index out of range: \" + name_or_index; \x7d",
  "        return name_or_index;",
  "    \x7d",
  "    let seen = 0;",
  "    for index in 0..cells.len() \x7b",
  "        if cells[index].column_name == name_or_index \x7b",
  "            if seen == occurrence \x7b return index; \x7d",
  "            seen += 1;",
  "        \x7d",
  "    \x7d",
  "    -1",
  "\x7d",
  "fn formula_dropdown_options(index) \x7b",
  "    for column in global::FORMULA_DROPDOWNS \x7b",
  "        if column.index == index \x7b return column.values; \x7d",
  "    \x7d",
  "    ()",
  "\x7d",
  "fn get_cell(name_or_index) \x7b get_cell(name_or_index, 0) \x7d",
  "fn get_cell(name_or_index, occurrence) \x7b",
  "    let index = formula_column_index(name_or_index, occurrence);",
  "    if index < 0 \x7b return \"\"; \x7d",
  "    let cells = global::FORMULA_CELLS;",
  "    cells[index].value",
  "\x7d",
  "fn get_dropdown_index(name_or_index) \x7b get_dropdown_index(name_or_index, 0) \x7d",
  "fn get_dropdown_index(name_or_index, occurrence) \x7b",
  "    let index = formula_column_index(name_or_index, occurrence);",
  "    if index < 0 \x7b return (); \x7d",
  "    let options = formula_dropdown_options(index);",
  "    if type_of(options) == \"()\" \x7b return (); \x7d",
  "    let cells = global::FORMULA_CELLS;",
  "    let value = cells[index].value;",
  "    let position = 0;",
  "    for option in options \x7b",
  "        if option == value \x7b return position; \x7d",
  "        position += 1;",
  "    \x7d",
  "    ()",
  "\x7d",
  "fn to_dropdown_value(value, name_or_index) \x7b to_dropdown_value(value, name_or_index, 0) \x7d",
  "fn to_dropdown_value(value, name_or_index, occurrence) \x7b",
  "    let index = formula_column_index(name_or_index, occurrence);",
  "    if index < 0 \x7b return (); \x7d",
  "    let options = formula_dropdown_options(index);",
  "    if type_of(options) == \"()\" \x7b return (); \x7d",
  "    if type_of(value) != \"i64\" \x7b return (); \x7d",
  "    if value < 0 || value >= options.len() \x7b return (); \x7d",
  "    options[value]",
  "\x7d"]

end Builtin

end Worksheet.Formula
