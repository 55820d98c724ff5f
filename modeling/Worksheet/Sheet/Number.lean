import Worksheet.Decimal.Layout
import Worksheet.Decimal.Reader
import Worksheet.Text.Blank
/-!
# Numbers in cells

A number cell holds text. The text is read as a finite double, shown in one canonical form, and
handed to formulas as a literal of the formula language.

* `CellNumber.read?`, `CellNumber.text`, `CellNumber.canonical?`, `CellNumber.literal?`.
-/

namespace Worksheet.CellNumber

/-- The finite number that a text stands for, white space around it aside. -/
def read? (s : String) : Option Binary64 :=
  (Binary64.read? (Text.trim s.toList)).filter Binary64.isFinite

/-- A whole number below `2 ^ 53` in magnitude, with its sign. -/
def smallWhole? (x : Binary64) : Option (List Char) :=
  match x.whole? with
  | some n => if n < Nat.pow 2 53 then some (x.withSign (Nat.toDigits 10 n)) else none
  | none => none

/-- The text that shows a number. -/
def text (x : Binary64) : String :=
  if x.isNaN then "#NAN!"
  else if x.isInfinite then "#INF!"
  else
    match smallWhole? x with
    | some digits => String.ofList digits
    | none => String.ofList x.plain

/-- The canonical text of a number cell. -/
def canonical? (s : String) : Option String :=
  (read? s).map text

/-- The literal of a finite number: an integer when it is small and whole, else a number with a
point. -/
def literalOf (x : Binary64) : String :=
  match smallWhole? x with
  | some digits => String.ofList digits
  | none => String.ofList (if x.plain.contains '.' then x.plain else x.plain ++ ['.', '0'])

/-- The literal that hands the number in a cell to a formula. -/
def literal? (s : String) : Option String :=
  (read? s).map literalOf

end Worksheet.CellNumber
