/-!
# Errors of formula cells

Why a formula cell has no value. The texts already name a place in the author's lines.

* `FormulaError` and `CellResult`.
-/

namespace Worksheet.Formula

/-- Why a formula cell has no value. -/
inductive FormulaError
  /-- The formula is no script. -/
  | compile (message : String)
  /-- The formula has failed while it ran. -/
  | runtime (message : String)
  /-- The formula has run for too long. -/
  | timeout
  deriving DecidableEq, Inhabited, Repr

namespace FormulaError

/-- What is shown of an error. -/
def message : FormulaError → String
  | compile m => m
  | runtime m => m
  | timeout => "Formula timed out"

/-- The formula has run for too long. -/
def isTimeout : FormulaError → Bool
  | timeout => true
  | _ => false

end FormulaError

/-- What a formula cell holds. -/
abbrev CellResult : Type :=
  Except FormulaError String

instance : DecidableEq CellResult := fun a b =>
  match a, b with
  | .ok s, .ok t => if h : s = t then .isTrue (h ▸ rfl) else .isFalse fun e => h (Except.ok.inj e)
  | .error s, .error t =>
    if h : s = t then .isTrue (h ▸ rfl) else .isFalse fun e => h (Except.error.inj e)
  | .ok _, .error _ => .isFalse nofun
  | .error _, .ok _ => .isFalse nofun

end Worksheet.Formula
