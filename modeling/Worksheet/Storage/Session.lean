import Worksheet.Storage.Store
import Worksheet.Storage.WriteQueue
/-!
# Sessions

A session edits a sheet on a copy of its own and sends every accepted action to a store, in order. What
becomes of the writes does not change the copy.

* `Session.open?`, `Session.apply`, `Session.flush`;
* `Site`: a store and its clock; `Site.write` is the job that an action becomes.
-/

namespace Worksheet

/-- A sheet that is edited, and the writes on their way to where it is kept. -/
structure Session (σ : Type) where
  sheet : Sheet
  writes : WriteQueue σ Unit

namespace Session

variable {σ : Type}

/-- Starts a session on a sheet. -/
def new (sheet : Sheet) : Session σ :=
  ⟨sheet, .new⟩

/-- Applies an action to the copy, and hands in the job that sends it on. A refused action is not
sent. -/
def apply (send : String → Action → Job σ Unit) (k : Session σ) (a : Action) (now : Stamp) :
    Except SheetError (Session σ) := do
  let sheet ← k.sheet.reduce a now
  let (t, writes) := k.writes.enqueue (send sheet.id a)
  .ok ⟨sheet, writes.abandon t⟩

/-- The number of writes that are pending. -/
def pending (k : Session σ) : Nat :=
  k.writes.pending

/-- Waits until every write is over. -/
def flush (k : Session σ) (s : σ) : Option (Except SheetError Unit) × σ × Session σ :=
  let (r, s, writes) := k.writes.flush s
  (r, s, { k with writes := writes })

end Session

/-- A store with its clock. -/
structure Site where
  store : Store
  clock : Stamp
  deriving DecidableEq, Inhabited

namespace Site

/-- Starts a session on a stored sheet. -/
def openSession (site : Site) (id : String) : Except SheetError (Session Site) := do
  let sheet ← site.store.get id
  .ok (.new sheet)

/-- Sends an action to the store. A refusal changes nothing and is not told to anyone. -/
def write (id : String) (a : Action) : Job Site Unit :=
  .last fun site =>
    match site.store.update id a site.clock with
    | .ok (_, store) => ({ site with store := store }, .settled (.ok ()))
    | .error _ => (site, .settled (.ok ()))

end Site

end Worksheet
