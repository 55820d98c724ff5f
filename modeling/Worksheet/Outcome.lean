import Worksheet.Json.Record
/-!
# Outcomes

What a client is told about a request: whether it went well, and the value or the error that came of
it.

* `Outcome`, `Outcome.ofResult`, `Outcome.done`, `Outcome.result`;
* `Outcome.toJson`, `Outcome.ofJson?`.
-/

namespace Worksheet

/-- What a client is told about a request. -/
structure Outcome (α : Type) where
  ok : Bool
  value : Option α
  error : Option String
  deriving DecidableEq, Inhabited

namespace Outcome

variable {α : Type}

/-- It went well, with a value. -/
def success (value : α) : Outcome α :=
  ⟨true, some value, none⟩

/-- It went well, and there is nothing more to tell. -/
def done : Outcome α :=
  ⟨true, none, none⟩

/-- It went wrong. -/
def failure (message : String) : Outcome α :=
  ⟨false, none, some message⟩

/-- The outcome of a result, `message` giving the text of an error. -/
def ofResult {ε : Type} (message : ε → String) : Except ε α → Outcome α
  | .ok value => success value
  | .error e => failure (message e)

/-- The result that an outcome tells of. A failure without a text has one all the same. -/
def result (o : Outcome α) : Except String (Option α) :=
  if o.ok then .ok o.value else .error (o.error.getD "unknown error")

/-- The JSON form: what is absent is left out. -/
def toJson (write : α → Json) (o : Outcome α) : Json :=
  .object (("ok", .bool o.ok) ::
    ((o.value.map fun v => ("value", write v)).toList ++
      (o.error.map fun e => ("error", Json.text e)).toList))

/-- Reads an outcome. A null is absent. -/
def ofJson? (read : Json → Option α) (j : Json) : Option (Outcome α) := do
  let [ok, value, error] ← j.record? ["ok", "value", "error"] | none
  let ok ← Json.required Json.bool? ok
  let value ← Json.orElse none (Json.nullable read) value
  let error ← Json.orElse none (Json.nullable Json.text?) error
  some ⟨ok, value, error⟩

end Outcome

end Worksheet
