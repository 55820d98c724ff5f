import Worksheet.Action
import Worksheet.SheetError
import Worksheet.Text.Blank
/-!
# Checks before an action

What an editor checks before it hands in an edit. Edits that name options or tags should give every
one a name of its own that is not empty; applying an edit does not insist on it.

* `ColumnEdit.check`: the check of an edit;
* `freshOptionName`: a name for one more option;
* `titleText`: a title without white space around it.
-/

namespace Worksheet

/-- A name comes up again among the later ones. -/
def hasRepeated : List String → Bool
  | [] => false
  | name :: rest => rest.contains name || hasRepeated rest

/-- Checks that the names differ from each other and that none is empty. A repetition is told first. -/
def checkNames (names : List String) : Except SheetError Unit :=
  if hasRepeated names then .error (.invalidOptions .repeated)
  else if names.contains "" then .error (.invalidOptions .blank)
  else .ok ()

namespace ColumnEdit

/-- Checks the names that an edit gives to options or tags; an option without a name counts as one
whose name is empty. -/
def check : ColumnEdit → Except SheetError Unit
  | enumUpdate order names => checkNames (order.map fun id => (names.find? id).getD "")
  | tagRename names => checkNames names.values
  | _ => .ok ()

end ColumnEdit

/-- A title without white space around it. -/
def titleText (title : String) : String :=
  Text.trimText title

/-- The name of the option of a number. -/
def optionName (n : Nat) : String :=
  "Option #" ++ toString n

/-- The first number from `n` on whose option is not among the given ones, looking at `tries` numbers. -/
def freshOptionNumber (options : List String) (n : Nat) : Nat → Nat
  | 0 => n
  | tries + 1 =>
    if options.contains (optionName n) then freshOptionNumber options (n + 1) tries else n

/-- A name for one more option: the first free number. One of the first `options.length + 1` numbers is
free. -/
def freshOptionName (options : List String) : String :=
  optionName (freshOptionNumber options 1 options.length)

end Worksheet
