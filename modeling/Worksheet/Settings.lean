import Worksheet.Toml.Reader
/-!
# Settings

The settings of the program: the time limit of a formula cell and how much is logged. They stand in a
TOML document; what is missing has a default, and other keys do not matter.

* `Settings` and `Settings.read?`.
-/

namespace Worksheet

/-- The settings of the program. -/
structure Settings where
  /-- The time limit of a formula cell, in milliseconds. -/
  formulaTimeout : Nat
  logLevel : String
  deriving DecidableEq, Repr

namespace Settings

/-- What holds without any document. -/
def default : Settings :=
  ⟨1000, "warn"⟩

instance : Inhabited Settings := ⟨default⟩

/-- Reads a time limit, which is not negative. -/
def timeout? : Option Toml → Option Nat
  | none => some default.formulaTimeout
  | some (.integer n) => if 0 ≤ n then some n.toNat else none
  | some _ => none

/-- Reads a level. -/
def level? : Option Toml → Option String
  | none => some default.logLevel
  | some (.text s) => some s
  | some _ => none

/-- Reads settings from the text of a document. -/
def read? (s : String) : Option Settings := do
  let t ← TomlTable.read? s
  let timeout ← timeout? (t.find? "formula_timeout_ms")
  let level ← level? (t.find? "log_level")
  some ⟨timeout, level⟩

end Settings

end Worksheet
