/-!
# Errors of sheets

Why an action, an edit or an operation on the store is refused.

* `SheetError` with its wording, `SheetError.message`.
-/

namespace Worksheet

/-- What is wrong with the names of options or tags. -/
inductive NameFault
  | repeated
  | blank
  deriving DecidableEq, Inhabited, Repr

namespace NameFault

/-- What is said about the fault. -/
def message : NameFault → String
  | repeated => "Options must be unique."
  | blank => "Options cannot be empty strings."

end NameFault

/-- Why something is refused. -/
inductive SheetError
  | rowNotFound (row : String)
  | columnNotFound (column : String)
  | invalidColumnType (type : String)
  | indexOutOfRange (index : Int) (columns : Nat)
  | notEnumColumn (column : String)
  | notTagsColumn (column : String)
  | notFormulaColumn (column : String)
  | duplicateRow (row : String)
  | duplicateColumn (column : String)
  | invalidOptions (fault : NameFault)
  | sheetNotFound (sheet : String)
  /-- There is no one left to carry out a write. -/
  | queueClosed
  deriving DecidableEq, Inhabited, Repr

namespace SheetError

/-- What is said about an error. -/
def message : SheetError → String
  | rowNotFound row => "Row not found: " ++ row
  | columnNotFound column => "Column not found: " ++ column
  | invalidColumnType type => "Invalid column type: " ++ type
  | indexOutOfRange index columns =>
    "Index " ++ toString index ++ " out of range for " ++ toString columns ++ " columns"
  | notEnumColumn column => "Column is not an enum column: " ++ column
  | notTagsColumn column => "Column is not a tags column: " ++ column
  | notFormulaColumn column => "Column is not a formula column: " ++ column
  | duplicateRow row => "Row already exists: " ++ row
  | duplicateColumn column => "Column already exists: " ++ column
  | invalidOptions fault => "Invalid options: " ++ fault.message
  | sheetNotFound sheet => "Sheet not found: " ++ sheet
  | queueClosed => "Write queue is closed"

end SheetError

end Worksheet
