import Worksheet.Formula.Error
import Worksheet.Json.Record
/-!
# Errors of formula cells in JSON

The JSON form of the error of a formula cell: its kind and, unless time was up, its message.

* `FormulaError.toJson`, `FormulaError.ofJson?`.
-/

namespace Worksheet.Formula.FormulaError

open Json

/-- The JSON form of an error. -/
def toJson : FormulaError → Json
  | compile m => object [("kind", text "compile"), ("message", text m)]
  | runtime m => object [("kind", text "runtime"), ("message", text m)]
  | timeout => object [("kind", text "timeout")]

/-- Reads the error of a kind from what is said about it. -/
def ofMessage? (kind : String) (message : Option Json) : Option FormulaError :=
  match kind with
  | "compile" => (required text? message).map compile
  | "runtime" => (required text? message).map runtime
  | "timeout" => if message.all isNull then some timeout else none
  | _ => none

/-- Reads an error: an object, or an array of kind and message. -/
def ofJson? : Json → Option FormulaError
  | object members => do
    let kind ← (← member? members "kind").bind (bareName? isNull)
    ofMessage? kind (← member? members "message")
  | array [kind, message] => do
    let kind ← bareName? isNull kind
    ofMessage? kind (some message)
  | _ => none

end Worksheet.Formula.FormulaError
