import Worksheet.Formula.Function
/-!
# The state of a running formula

Variables in scope, variables that function literals share with the code around them, the constants
of the script, and the number of steps that are left.

* `Machine`, `Signal` and `Exec`;
* `Exec.spend`: takes steps, and stops the formula when none are left;
* `Exec.read`, `Exec.write`, `Exec.bind`, `Exec.share`: variables;
* `Exec.inFreshScope`, `Exec.inBlock`: code with variables of its own.
-/

namespace Worksheet.Formula

/-- Where the value of a variable is. -/
inductive Slot
  | own (v : Value)
  /-- In a cell that function literals share. -/
  | cell (index : Nat)

/-- A variable in scope. -/
structure Binding where
  name : String
  constant : Bool
  slot : Slot

/-- The state of a running formula. -/
structure Machine where
  /-- The variables in scope, the innermost first. -/
  scope : List Binding
  /-- The shared variables. -/
  cells : Array Value
  /-- The constants of the script, the last one first. -/
  constants : List (String × Value)
  /-- How many steps are left. -/
  steps : Nat

/-- What ends a statement before its end. -/
inductive Signal
  | failed (f : Failure)
  /-- Leaves the loop at hand, with a value. -/
  | leave (v : Value)
  /-- Goes on with the next round of the loop at hand. -/
  | skip
  /-- Leaves the function at hand, with a value. -/
  | giveBack (v : Value)

/-- Code that runs on the state. -/
abbrev Exec : Type → Type :=
  EStateM Signal Machine

namespace Exec

/-- Fails for a cause at a place. -/
def fail {α : Type} (c : Cause) (place : Place) : Exec α :=
  throw (.failed (.cause c (some place)))

/-- Takes steps. The formula is stopped when too few are left. -/
def spend (n : Nat) : Exec Unit := fun m =>
  if n < m.steps then .ok () { m with steps := m.steps - n }
  else .error (.failed (.cause .terminated none)) { m with steps := 0 }

/-- The value of an outcome that may be a cause to fail. -/
def lift {α : Type} (r : Except Cause α) (place : Place) : Exec α :=
  match r with
  | .ok a => pure a
  | .error c => fail c place

/-! ## Variables -/

/-- The innermost variable of a name. -/
def find? (name : String) : Exec (Option Binding) := do
  pure ((← get).scope.find? (·.name == name))

/-- The value in a slot. -/
def slotValue (s : Slot) : Exec Value := do
  match s with
  | .own v => pure v
  | .cell k => pure ((← get).cells[k]?.getD .unit)

/-- The value of a variable. -/
def read (name : String) (place : Place) : Exec Value := do
  match ← find? name with
  | some b => slotValue b.slot
  | none => fail (.noVariable name) place

/-- Changes the innermost variable of a name. -/
def replaceSlot (name : String) (slot : Slot) : List Binding → List Binding
  | [] => []
  | b :: rest => if b.name == name then { b with slot := slot } :: rest
    else b :: replaceSlot name slot rest

/-- Gives a variable another value. A shared one changes for all that share it. -/
def write (name : String) (v : Value) (place : Place) : Exec Unit := do
  match ← find? name with
  | none => fail (.noVariable name) place
  | some b =>
    match b.slot with
    | .cell k => modify fun m => { m with cells := m.cells.setIfInBounds k v }
    | .own _ => modify fun m => { m with scope := replaceSlot name (.own v) m.scope }

/-- Brings a variable into scope. -/
def bind (name : String) (constant : Bool) (slot : Slot) : Exec Unit :=
  modify fun m => { m with scope := ⟨name, constant, slot⟩ :: m.scope }

/-- Shares a variable, and gives the cell that it is in from now on. -/
def share (v : Capture) : Exec Nat := do
  match ← find? v.name with
  | none => fail (.noVariable v.name) v.place
  | some b =>
    match b.slot with
    | .cell k => pure k
    | .own value =>
      let m ← get
      let k := m.cells.size
      set { m with
        cells := m.cells.push value
        scope := replaceSlot v.name (.cell k) m.scope }
      pure k

/-! ## Scopes -/

/-- Runs code with other variables in scope. -/
def inFreshScope {α : Type} (scope : List Binding) (body : Exec α) : Exec α := fun m =>
  match body { m with scope := scope } with
  | .ok a m' => .ok a { m' with scope := m.scope }
  | .error e m' => .error e { m' with scope := m.scope }

/-- Drops all but the `n` outermost variables. -/
def shrink (n : Nat) (scope : List Binding) : List Binding :=
  scope.drop (scope.length - n)

/-- Runs code, and drops the variables that it has brought into scope. -/
def inBlock {α : Type} (body : Exec α) : Exec α := fun m =>
  match body m with
  | .ok a m' => .ok a { m' with scope := shrink m.scope.length m'.scope }
  | .error e m' => .error e { m' with scope := shrink m.scope.length m'.scope }

/-- Runs code; `handler` takes over when it ends early. -/
def rescue {α : Type} (body : Exec α) (handler : Signal → Exec α) : Exec α := fun m =>
  match body m with
  | .ok a m' => .ok a m'
  | .error e m' => handler e m'

/-- How a round of a loop ends. -/
inductive Round
  | again
  | over (v : Value)

/-- Runs a round of a loop until it is over. Every round takes a step, so that the steps that are left
are rounds enough. -/
def loop (round : Exec Round) : Nat → Exec Value
  | 0 => throw (.failed (.cause .terminated none))
  | n + 1 => fun m =>
    match round m with
    | .ok .again m' => loop round n m'
    | .ok (.over v) m' => .ok v m'
    | .error e m' => .error e m'

end Exec

end Worksheet.Formula
