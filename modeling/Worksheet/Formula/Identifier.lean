import Worksheet.Formula.Builtin
import Worksheet.Formula.Vocabulary
import Worksheet.Text.Blank
/-!
# Names of columns in formulas

A formula refers to a column by its title, turned into a name of the formula language: runs of white
space become underscores, other characters outside of names are left out, a leading digit gets the
words `col_` in front and a reserved name an underscore at its end.

* `isReserved`: names that no column may have;
* `Identifier.ofTitle?`: the name of a title, if anything usable is left of it.
-/

namespace Worksheet.Formula

open Worksheet.Text

/-- The names that every formula defines before its own text. -/
def preambleNames : List String :=
  ["FORMULA_CELLS", "FORMULA_DROPDOWNS", "fx"]

/-- A name that cannot be the plain name of a variable. -/
def isReserved (name : String) : Bool :=
  languageWords.contains name || preambleNames.contains name ||
    (Builtin.all.map (·.name)).contains name

namespace Identifier

/-- Every run of white space becomes one underscore. `inRun` tells that the characters before belong
to such a run. -/
def collapse (inRun : Bool) : List Char → List Char
  | [] => []
  | c :: rest =>
    if isBlank c then (if inRun then collapse true rest else '_' :: collapse true rest)
    else c :: collapse false rest

/-- The characters of a title that a name can hold. -/
def usable (title : List Char) : List Char :=
  (collapse false (trim title)).filter isNameChar

/-- Puts `col_` before a name whose first character, underscores aside, is a digit. -/
def guardDigit (cs : List Char) : List Char :=
  match cs.dropWhile (· == '_') with
  | c :: _ => if c.isDigit then "col_".toList ++ cs else cs
  | [] => cs

/-- Puts an underscore after a reserved name. -/
def guardReserved (cs : List Char) : List Char :=
  if isReserved (String.ofList cs) then cs ++ ['_'] else cs

/-- The name of a title. -/
def ofTitle? (title : String) : Option String :=
  let cs := usable title.toList
  if cs.all (· == '_') then none
  else some (String.ofList (guardReserved (guardDigit cs)))

end Identifier

end Worksheet.Formula
