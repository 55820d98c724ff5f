import Worksheet.Json
import Worksheet.Text.Quoted
/-!
# Writing JSON

Two layouts of a JSON value: on one line without any blanks, and indented by two blanks a level with
one member or item a line. An empty array or object is a pair of brackets in both.

* `Layout`, with `Json.print`; `Json.compact` and `Json.pretty` are its two cases;
* `escaped` is one character inside a text: only quotes, backslashes and control characters below
  the blank are escaped.
-/

namespace Worksheet.Json

open Worksheet.Text

/-- A character inside a text. -/
def escaped (c : Char) : List Char :=
  if c = '\"' then ['\\', '\"']
  else if c = '\\' then ['\\', '\\']
  else if c = Char.ofNat 8 then ['\\', 'b']
  else if c = Char.ofNat 12 then ['\\', 'f']
  else if c = '\n' then ['\\', 'n']
  else if c = '\r' then ['\\', 'r']
  else if c = '\t' then ['\\', 't']
  else if c.toNat < 32 then ['\\', 'u'] ++ hexPadded 4 c.toNat
  else [c]

/-- A text between its quotes. -/
def quoted (s : String) : List Char :=
  '\"' :: (s.toList.flatMap escaped ++ ['\"'])

/-- The digits of an integer, with its sign. -/
def integerText (n : Int) : List Char :=
  if n < 0 then '-' :: Nat.toDigits 10 n.natAbs else Nat.toDigits 10 n.natAbs

/-- A number that is no integer, by its digits and its exponent. -/
def decimalText (d : Decimal) : List Char :=
  (if d.negative then ['-'] else []) ++ Nat.toDigits 10 d.digits ++ ['e'] ++ integerText d.exponent

/-- A value without parts. -/
def atomText : Json → List Char
  | bool true => "true".toList
  | bool false => "false".toList
  | integer n => integerText n
  | decimal d => decimalText d
  | text s => quoted s
  | _ => "null".toList

/-! ## Layouts -/

/-- Where white space stands. -/
inductive Layout
  /-- Nowhere. -/
  | compact
  /-- Before every item, member and closing bracket, which start a line, and after every colon. -/
  | pretty
  deriving DecidableEq, Repr

namespace Layout

/-- What stands before something that belongs to a level of indentation. -/
def newLine : Layout → Nat → List Char
  | compact, _ => []
  | pretty, level => '\n' :: List.replicate (2 * level) ' '

/-- What stands between a name and its value. -/
def colon : Layout → List Char
  | compact => [':']
  | pretty => [':', ' ']

end Layout

mutual

/-- The characters of a value that starts at a level of indentation. -/
def chars (l : Layout) (level : Nat) : Json → List Char
  | array [] => ['[', ']']
  | array items =>
    '[' :: (l.newLine (level + 1) ++ (itemChars l (level + 1) items ++ (l.newLine level ++ [']'])))
  | object [] => ['\x7b', '\x7d']
  | object members =>
    '\x7b' :: (l.newLine (level + 1) ++
      (memberChars l (level + 1) members ++ (l.newLine level ++ ['\x7d'])))
  | j => atomText j

/-- Items with commas between them. -/
def itemChars (l : Layout) (level : Nat) : List Json → List Char
  | [] => []
  | [j] => chars l level j
  | j :: rest => chars l level j ++ ',' :: (l.newLine level ++ itemChars l level rest)

/-- Members with commas between them. -/
def memberChars (l : Layout) (level : Nat) : List (String × Json) → List Char
  | [] => []
  | [(name, j)] => quoted name ++ (l.colon ++ chars l level j)
  | (name, j) :: rest =>
    quoted name ++ (l.colon ++
      (chars l level j ++ ',' :: (l.newLine level ++ memberChars l level rest)))

end

/-- The text of a value. -/
def print (l : Layout) (j : Json) : String :=
  String.ofList (j.chars l 0)

/-- The value on one line. -/
def compact (j : Json) : String :=
  j.print .compact

/-- The value indented. -/
def pretty (j : Json) : String :=
  j.print .pretty

end Worksheet.Json
