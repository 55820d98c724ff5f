import Worksheet.Decimal.Reader
import Worksheet.Word
/-!
# JSON values

A JSON value as it was written: the members of an object stand in their order, and a name may stand
twice. Numbers are kept exactly, apart by their notation: an integer has no point, no exponent and is
not `-0`.

* `Json`, with `Json.isSound` and `Json.settled`;
* the readers of single values: `text?`, `bool?`, `int64?`.
-/

namespace Worksheet

/-- A JSON value. -/
inductive Json
  | null
  | bool (b : Bool)
  /-- A number written as an integer. -/
  | integer (n : Int)
  /-- Any other number. -/
  | decimal (d : Decimal)
  | text (s : String)
  | array (items : List Json)
  | object (members : List (String × Json))
  /-- A value that is written correctly and still stands for nothing: a number out of range, a text
  with one half of a surrogate pair, or brackets nested too deeply. It can only be skipped. -/
  | unusable

namespace Json

instance : Inhabited Json := ⟨.null⟩

mutual

/-- No part of the value is unusable. -/
def isSound : Json → Bool
  | unusable => false
  | array items => areSound items
  | object members => areSoundMembers members
  | _ => true

/-- No part of the values is unusable. -/
def areSound : List Json → Bool
  | [] => true
  | j :: rest => j.isSound && areSound rest

/-- No part of the members is unusable. -/
def areSoundMembers : List (String × Json) → Bool
  | [] => true
  | (_, j) :: rest => j.isSound && areSoundMembers rest

end

/-- Puts a member among others that are in the order of their names; it takes the place of one of the
same name. -/
def putMember (name : String) (value : Json) : List (String × Json) → List (String × Json)
  | [] => [(name, value)]
  | (n, v) :: rest =>
    if name < n then (name, value) :: (n, v) :: rest
    else if name = n then (name, value) :: rest
    else (n, v) :: putMember name value rest

mutual

/-- The value with the members of every object in the order of their names, the last one of each name
alone. -/
def settled : Json → Json
  | array items => array (settledItems items)
  | object members => object (settledMembers [] members)
  | j => j

/-- The same for every item. -/
def settledItems : List Json → List Json
  | [] => []
  | j :: rest => j.settled :: settledItems rest

/-- The same for members, added to those that are there already. -/
def settledMembers (done : List (String × Json)) : List (String × Json) → List (String × Json)
  | [] => done
  | (name, j) :: rest => settledMembers (putMember name j.settled done) rest

end

/-- The text that the value is. -/
def text? : Json → Option String
  | text s => some s
  | _ => none

/-- The truth value that the value is. -/
def bool? : Json → Option Bool
  | bool b => some b
  | _ => none

/-- The integer that the value is, if it fits into 64 bits. -/
def int64? : Json → Option Int
  | integer n => if Word.fits n then some n else none
  | _ => none

end Json

end Worksheet
