import Worksheet.Formula.Operation
import Worksheet.Text.Case
import Worksheet.Text.Blank
/-!
# Functions on values

The functions that the formula language brings along, as far as they need nothing but their
arguments. Each is told by its name and the types of its arguments; a call that fits none of them is
a call of an unknown function.

* `applyFunction?`: functions that give a value;
* `changeValue?`: functions that change their first argument;
* `property?`: values that have a name of their own.
-/

namespace Worksheet.Formula

open Worksheet.Text

/-! ## Texts -/

/-- The number of characters before the first place where `part` stands. -/
def indexOfPart? (part : List Char) : List Char → Option Nat
  | [] => if part.isEmpty then some 0 else none
  | c :: rest =>
    if part.isPrefixOf (c :: rest) then some 0 else (indexOfPart? part rest).map (· + 1)

/-- The number of characters to leave out so that reading starts at `start`; a negative one counts
from the end. -/
def startIndex (length : Nat) (start : Int) : Nat :=
  if start < 0 then length - start.natAbs else start.toNat

/-- Up to `length` characters from `start` on. -/
def subText (s : String) (start length : Int) : String :=
  let cs := s.toList
  if cs.isEmpty || (cs.length : Int) ≤ start || length ≤ 0 then ""
  else String.ofList ((cs.drop (startIndex cs.length start)).take length.toNat)

/-- The pieces of a text between the places where `part` stands; `acc` holds the piece at hand,
backwards. -/
def splitParts (part : List Char) (acc : List Char) : Nat → List Char → List (List Char)
  | 0, cs => [acc.reverse ++ cs]
  | _, [] => [acc.reverse]
  | fuel + 1, c :: rest =>
    if part.isPrefixOf (c :: rest) then
      acc.reverse :: splitParts part [] fuel ((c :: rest).drop part.length)
    else splitParts part (c :: acc) fuel rest

/-- The pieces of a text between separators. An empty separator stands around every character. -/
def splitText (s part : String) : List String :=
  if part.isEmpty then "" :: s.toList.map String.singleton ++ [""]
  else (splitParts part.toList [] (s.length + 1) s.toList).map String.ofList

/-- The words of a text. -/
def splitBlank (acc : List Char) : List Char → List (List Char)
  | [] => if acc.isEmpty then [] else [acc.reverse]
  | c :: rest =>
    if isBlank c then
      if acc.isEmpty then splitBlank [] rest else acc.reverse :: splitBlank [] rest
    else splitBlank (c :: acc) rest

/-- Texts as a list. -/
def textArray (parts : List String) : Value :=
  .array (parts.map .text)

/-- A text cut in two. -/
def splitAtIndex (s : String) (index : Int) : Value :=
  let cs := s.toList
  let k := if index < 0 then cs.length - index.natAbs else index.toNat
  textArray [String.ofList (cs.take k), String.ofList (cs.drop k)]

/-- One character in another case, if that is one character. -/
def oneChar (c : Char) : List Char → Char
  | [d] => d
  | _ => c

/-! ## Numbers -/

/-- Reads an integer in a base. -/
def parseInt (s : String) (radix : Int) : Except Cause Value :=
  let fault (why : String) : Except Cause Value :=
    .error (.arithmetic ("Error parsing integer number '" ++ s ++ "': " ++ why))
  if radix < 2 ∨ 36 < radix then
    .error (.arithmetic ("Invalid radix: '" ++ toString radix ++ "'"))
  else
    let cs := trim s.toList
    let (negative, digits) := takeSign cs
    let digit? (c : Char) : Option Nat :=
      let d := if c.isDigit then c.toNat - 48 else if c.isAlpha then c.toLower.toNat - 87 else 36
      if d < radix.toNat then some d else none
    if cs.isEmpty then fault "cannot parse integer from empty string"
    else if digits.isEmpty then fault "invalid digit found in string"
    else
      match digits.foldlM (fun n c => (digit? c).map (radix.toNat * n + ·)) 0 with
      | none => fault "invalid digit found in string"
      | some n =>
        let value : Int := if negative then -(n : Int) else n
        if Word.greatest < value then fault "number too large to fit in target type"
        else if value < Word.least then fault "number too small to fit in target type"
        else .ok (.int value)

/-- Reads a number with a point. -/
def parseFloat (s : String) : Except Cause Value :=
  match Binary64.read? (trim s.toList) with
  | some x => .ok (.float x)
  | none =>
    let why := if (trim s.toList).isEmpty then "cannot parse float from empty string"
      else "invalid float literal"
    .error (.arithmetic ("Error parsing floating-point number '" ++ s ++ "': " ++ why))

/-- The whole part of a double as an integer. -/
def floatToInt (x : Binary64) : Except Cause Value :=
  let limit := Binary64.ofInt (Word.greatest + 1)
  if x.toFloat > limit.toFloat || x.toFloat < limit.neg.toFloat then
    .error (.arithmetic ("Integer overflow: to_int(" ++ String.ofList x.plain ++ ")"))
  else .ok (.int x.truncate)

/-- The greater or the lesser of two values of one kind. -/
def extreme? (greatest : Bool) (a b : Value) : Option Value :=
  match a, b with
  | .int m, .int n => some (.int (if greatest then max m n else min m n))
  | .text s, .text t => some (.text (if (s < t) == greatest then t else s))
  | .char c, .char d => some (.char (if (c < d) == greatest then d else c))
  | a, b => (floatPair? a b).map fun (x, y) =>
    if x.isNaN then .float y
    else if y.isNaN then .float x
    else if (x.toFloat < y.toFloat) == greatest then .float y else .float x

/-! ## Functions that give a value -/

/-- A value that a name after a dot stands for. -/
def property? (v : Value) (name : String) : Option Value :=
  match v, name with
  | .text s, "len" => some (.int s.length)
  | .array items, "len" => some (.int items.length)
  | .float x, "floor" => some (.float (.ofFloat x.toFloat.floor))
  | .float x, "ceiling" => some (.float (.ofFloat x.toFloat.ceil))
  | .float x, "round" => some (.float (.ofFloat x.toFloat.round))
  | _, _ => none

/-- Some value holds another one. -/
def holds? (container item : Value) : Option Bool :=
  match container, item with
  | .text s, .text t => some (indexOfPart? t.toList s.toList).isSome
  | .text s, .char c => some (s.toList.contains c)
  | .array items, v => some (items.any (equalValues v))
  | .record fields, .text name => some (fields.any (·.1 == name))
  | .range first last through, .int n =>
    some (decide (first ≤ n) && (decide (n < last) || (through && n == last)))
  | _, _ => none

/-- The place of a value in a list, or minus one. -/
def indexOfValue (items : List Value) (v : Value) (start : Int) : Value :=
  let skipped := startIndex items.length start
  match (items.drop skipped).findIdx? (equalValues v) with
  | some k => .int ((skipped + k : Nat) : Int)
  | none => .int (-1)

/-- The place of a text in a text, or minus one. -/
def indexOfText (s part : String) (start : Int) : Value :=
  let cs := s.toList
  if cs.isEmpty || (start != 0 && (cs.length : Int) ≤ start) then .int (-1)
  else
    let skipped := startIndex cs.length start
    match indexOfPart? part.toList (cs.drop skipped) with
    | some k => .int ((skipped + k : Nat) : Int)
    | none => .int (-1)

/-- The value of a function, or `none` if there is none of this name for these arguments. -/
def applyFunction? (name : String) (args : List Value) : Option (Except Cause Value) :=
  match name, args with
  | "len", [.record fields] => some (.ok (.int fields.length))
  | "len", [v] => (property? v "len").map .ok
  | "contains", [v, item] => (holds? v item).map fun b => .ok (.bool b)
  | "starts_with", [.text s, .text t] => some (.ok (.bool (t.toList.isPrefixOf s.toList)))
  | "ends_with", [.text s, .text t] => some (.ok (.bool (t.toList.isSuffixOf s.toList)))
  | "index_of", [.text s, .text t] => some (.ok (indexOfText s t 0))
  | "index_of", [.text s, .char c] => some (.ok (indexOfText s (String.singleton c) 0))
  | "index_of", [.text s, .text t, .int start] => some (.ok (indexOfText s t start))
  | "index_of", [.text s, .char c, .int start] =>
    some (.ok (indexOfText s (String.singleton c) start))
  | "index_of", [.array items, .function _ _ _] =>
    if items.isEmpty then some (.ok (.int (-1))) else none
  | "index_of", [.array items, v] => some (.ok (indexOfValue items v 0))
  | "index_of", [.array items, v, .int start] => some (.ok (indexOfValue items v start))
  | "sub_string", [.text s, .int start] => some (.ok (.text (subText s start s.length)))
  | "sub_string", [.text s, .int start, .int length] => some (.ok (.text (subText s start length)))
  | "sub_string", [.text s, .range first last through] =>
    let start := max first 0
    some (.ok (.text (subText s start (max last start - start + if through then 1 else 0))))
  | "split", [.text s] =>
    some (.ok (textArray ((splitBlank [] s.toList).map String.ofList)))
  | "split", [.text s, .text t] => some (.ok (textArray (splitText s t)))
  | "split", [.text s, .char c] => some (.ok (textArray (splitText s (String.singleton c))))
  | "split", [.text s, .int index] => some (.ok (splitAtIndex s index))
  | "to_upper", [.text s] => some (.ok (.text (upper s)))
  | "to_lower", [.text s] => some (.ok (.text (lower s)))
  | "to_upper", [.char c] => some (.ok (.char (oneChar c (upperChar c))))
  | "to_lower", [.char c] => some (.ok (.char (oneChar c (lowerChar c))))
  | "to_string", [v] => some (.ok (.text v.joined))
  | "to_debug", [v] => some (.ok (.text v.listed))
  | "to_float", [.int n] => some (.ok (.float (intFloat n)))
  | "to_int", [.int n] => some (.ok (.int n))
  | "to_int", [.char c] => some (.ok (.int c.toNat))
  | "to_int", [.float x] => some (floatToInt x)
  | "floor", [.float x] => (property? (.float x) "floor").map .ok
  | "ceiling", [.float x] => (property? (.float x) "ceiling").map .ok
  | "round", [.float x] => (property? (.float x) "round").map .ok
  | "abs", [.int n] => some (checkInt n.natAbs ("Integer overflow: abs(" ++ toString n ++ ")"))
  | "abs", [.float x] => some (.ok (.float x.abs))
  | "max", [a, b] => (extreme? true a b).map .ok
  | "min", [a, b] => (extreme? false a b).map .ok
  | "parse_int", [.text s] => some (parseInt s 10)
  | "parse_int", [.text s, .int radix] => some (parseInt s radix)
  | "parse_float", [.text s] => some (parseFloat s)
  | "type_of", [v] => some (.ok (.text v.typeName))
  | "print", [] | "print", [_] | "debug", [] | "debug", [_] => some (.ok .unit)
  | "Fn", [.text s] => some (.ok (.function (.named s) [] []))
  | _, _ => none

/-! ## Functions that change their first argument -/

/-- Sorts values of one type. -/
def sortValues (items : List Value) : Except Cause (List Value) :=
  match items with
  | first :: _ :: _ =>
    if items.any fun v => v.typeName != first.typeName then
      .error (.noFunction "sort() cannot be called with elements of different types")
    else
      match first with
      | .int _ | .float _ | .text _ | .char _ | .bool _ =>
        .ok (items.mergeSort fun a b => !((compareValues? a b).map (·.2)).getD false)
      | v => .error (.wrongType "type with ordering" v.typeName)
  | _ => .ok items

/-- The value of a function that changes its first argument, and what that becomes. -/
def changeValue? (name : String) (v : Value) (args : List Value) :
    Option (Except Cause (Value × Value)) :=
  match name, v, args with
  | "push", .array items, [item] => some (.ok (.unit, .array (items ++ [item])))
  | "sort", .array items, [] => some ((sortValues items).map fun sorted => (.unit, .array sorted))
  | _, _, _ => none

end Worksheet.Formula
