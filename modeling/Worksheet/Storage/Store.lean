import Worksheet.Action.Apply
/-!
# The store of sheets

A store keeps every sheet under its own id. An operation that is refused changes nothing.

* `Store` with `create`, `import`, `rename`, `delete`, `get`, `update`;
* `Store.listing`: what the store holds, the oldest sheet first, sheets of one moment by their ids.
-/

namespace Worksheet

/-- Sheets under their ids. -/
structure Store where
  sheets : Dict Sheet
  deriving DecidableEq, Inhabited

namespace SheetMeta

/-- The first sheet is listed before the second one, or they are listed at the same place. -/
def precedes (a b : SheetMeta) : Bool :=
  a.created.before b.created || (a.created == b.created && decide (a.id ≤ b.id))

end SheetMeta

namespace Store

/-- A store without sheets. -/
def empty : Store :=
  ⟨∅⟩

/-- The number of sheets. -/
def size (s : Store) : Nat :=
  s.sheets.size

/-- The listing of sheets that come in any order. -/
def listingOf (sheets : List Sheet) : List SheetMeta :=
  (sheets.map Sheet.toMeta).mergeSort SheetMeta.precedes

/-- What the store holds. -/
def listing (s : Store) : List SheetMeta :=
  listingOf s.sheets.values

/-- The sheet of an id. -/
def get (s : Store) (id : String) : Except SheetError Sheet :=
  match s.sheets.find? id with
  | some sheet => .ok sheet
  | none => .error (.sheetNotFound id)

/-- Puts a sheet under its id, in place of the one that was there. -/
def put (s : Store) (sheet : Sheet) : Store :=
  ⟨s.sheets.insert sheet.id sheet⟩

/-- Takes in a whole sheet. -/
def importSheet (s : Store) (sheet : Sheet) : SheetMeta × Store :=
  (sheet.toMeta, s.put sheet)

/-- Adds an empty sheet under a fresh id. -/
def create (s : Store) (id title : String) (now : Stamp) : SheetMeta × Store :=
  s.importSheet (Sheet.new id title now)

/-- Gives a sheet another name. The sheet is not stamped. -/
def rename (s : Store) (id name : String) : Except SheetError Store := do
  let sheet ← s.get id
  .ok ⟨s.sheets.insert id { sheet with name := name }⟩

/-- Deletes a sheet. -/
def delete (s : Store) (id : String) : Except SheetError Store := do
  let _ ← s.get id
  .ok ⟨s.sheets.erase id⟩

/-- Applies an action to a sheet, and gives the new version of it. -/
def update (s : Store) (id : String) (a : Action) (now : Stamp) : Except SheetError (Sheet × Store) := do
  let sheet ← s.get id
  let next ← sheet.reduce a now
  .ok (next, ⟨s.sheets.insert id next⟩)

end Store

end Worksheet
