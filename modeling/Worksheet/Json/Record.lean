import Worksheet.Dict
import Worksheet.Json
/-!
# Records in JSON

How the data of the library is laid out in JSON. A record is an object, whose members may stand in any
order next to others that are skipped, or an array of its fields in their order, the last ones left
out. A tagged record has one more field, which tells what the others are.

* `record?` gives the fields of a record by their names;
* `required` and `orElse`: a field that must be there, and one that has a default;
* `tagged?` splits off a tag, `tagAmong?` reads it;
* `listOf?`, `dictOf?`, `textSet?` read values made of others.
-/

namespace Worksheet.Json

/-- The member of a name: refused when the name stands twice, and `some none` when it is absent. -/
def member? (members : List (String × Json)) (name : String) : Option (Option Json) :=
  match members.filter (·.1 == name) with
  | [] => some none
  | [m] => some (some m.2)
  | _ => none

/-- The fields of a record, in the order of the given names. -/
def record? (names : List String) : Json → Option (List (Option Json))
  | object members => names.mapM (member? members)
  | array items =>
    if items.length ≤ names.length then
      some (items.map some ++ List.replicate (names.length - items.length) none)
    else none
  | _ => none

/-- A field that must be there. -/
def required {α : Type} (read : Json → Option α) (field : Option Json) : Option α :=
  field.bind read

/-- A field that is read only if it is there. -/
def orElse {α : Type} (absent : α) (read : Json → Option α) (field : Option Json) : Option α :=
  match field with
  | none => some absent
  | some j => read j

/-- A value that may be null. -/
def nullable {α : Type} (read : Json → Option α) : Json → Option (Option α)
  | null => some none
  | j => (read j).map some

/-- The items of an array. -/
def listOf? {α : Type} (read : Json → Option α) : Json → Option (List α)
  | array items => items.mapM read
  | _ => none

/-- An object as a dictionary; of several members of one name the last one stays. -/
def dictOf? {α : Type} (read : Json → Option α) : Json → Option (Dict α)
  | object members => (members.mapM fun m => (read m.2).map (m.1, ·)).map Dict.ofList
  | _ => none

/-- An array of texts as a set. -/
def textSet? (j : Json) : Option TextSet :=
  (j.listOf? text?).map fun items => Dict.ofList (items.map (·, ()))

/-! ## Tags -/

/-- Splits the tag off a tagged record. In an array it comes first. -/
def tagged? (name : String) : Json → Option (Json × Json)
  | object members =>
    match member? members name with
    | some (some tag) => some (tag, object (members.filter (·.1 != name)))
    | _ => none
  | array (tag :: fields) => some (tag, array fields)
  | _ => none

/-- Reads a tag, one of the given names. With `byPosition` the place of the name counts too. -/
def tagAmong? (names : List String) (byPosition : Bool) : Json → Option String
  | text s => if names.contains s then some s else none
  | integer n => if byPosition && 0 ≤ n then names[n.toNat]? else none
  | _ => none

/-- Reads a name that may also stand as the only member of an object, with nothing under it. -/
def bareName? (isNothing : Json → Bool) : Json → Option String
  | text s => some s
  | object [(name, j)] => if isNothing j then some name else none
  | _ => none

/-- The value is null. -/
def isNull : Json → Bool
  | null => true
  | _ => false

/-- The value is null or an empty object. -/
def isBlank : Json → Bool
  | null => true
  | object [] => true
  | _ => false

/-! ## Writing -/

/-- A list as an array. -/
def ofList {α : Type} (write : α → Json) (items : List α) : Json :=
  array (items.map write)

/-- A dictionary as an object. -/
def ofDict {α : Type} (write : α → Json) (d : Dict α) : Json :=
  object (d.entries.map fun e => (e.1, write e.2))

/-- A set as an array. -/
def ofTextSet (s : TextSet) : Json :=
  ofList text s.keys

end Worksheet.Json
