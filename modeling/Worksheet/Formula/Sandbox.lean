import Worksheet.Formula.Compiled
import Worksheet.Formula.Grammar.Statement
import Worksheet.Formula.Interpreter
import Worksheet.Formula.Error
/-!
# Evaluating compiled formulas

A compiled formula is parsed and run from a fresh state, so that no formula sees the variables of
another one. Its time limit stands for a number of steps.

* `Compiled.runtimeError`: from a failure of the script to the error of the cell. The place shown is
  the one of the deepest frame in the author's lines, or else the place of the cause;
* `evaluate`: the result of a cell.
-/

namespace Worksheet.Formula

namespace Compiled

/-- A place lies in the author's lines. -/
def isUserPlace (c : Compiled) (place : Option Place) : Bool :=
  (place.bind fun p => c.userLine? p.line).isSome

/-- The place that is shown for a failure. -/
def shownPlace (c : Compiled) (f : Failure) : Option Place :=
  (f.places.reverse.find? c.isUserPlace).getD f.innermostPlace

/-- The error of a cell whose script has failed. -/
def runtimeError (c : Compiled) (f : Failure) : FormulaError :=
  if f.isTermination then .timeout
  else .runtime (c.locate (c.shownPlace f) f.innermost.message)

/-- The error of a cell whose script cannot be parsed. -/
def compileError (c : Compiled) (e : SyntaxError) : FormulaError :=
  .compile (c.locate (some e.place) e.fault.message)

end Compiled

/-- The number of steps that a time limit in milliseconds stands for. The clock is looked at every 256
steps, so that even no time at all is enough for a short formula. -/
def stepsFor (milliseconds : Nat) : Nat :=
  if milliseconds = 0 then 256 else 2000000

/-- Runs a compiled formula, and gives the text of its cell. -/
def evaluate (c : Compiled) (milliseconds : Nat) : CellResult :=
  match parse c.script with
  | .error e => .error (c.compileError e)
  | .ok script =>
    match runScript (stepsFor milliseconds) script with
    | .error f => .error (c.runtimeError f)
    | .ok v => .ok v.cellText

end Worksheet.Formula
