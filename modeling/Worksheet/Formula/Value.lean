import Worksheet.Formula.Expr
import Worksheet.Sheet.Number
import Worksheet.Text.Quoted
import Worksheet.Dict
/-!
# Values of formulas

What a formula works with, and the texts in which a value is shown.

* `Value`, `Callee`; the fields of a record are kept in the order of their names;
* `Value.typeName`, and `Value.signatureName` as it stands in complaints about a call;
* `Value.listed`: inside a list or a record; `Value.joined`: joined to a text or thrown;
  `Value.cellText`: in a cell.
-/

namespace Worksheet.Formula

/-- What a function value calls. -/
inductive Callee
  /-- A function by its name, looked up when it is called. -/
  | named (name : String)
  /-- A function literal, with the names of the variables that it has taken from around it. -/
  | literal (captured params : List String) (body : Stmt)

/-- A value of the formula language. -/
inductive Value
  | unit
  | bool (b : Bool)
  | int (n : Int)
  | float (x : Binary64)
  | char (c : Char)
  | text (s : String)
  | array (items : List Value)
  | record (fields : List (String × Value))
  /-- A range of integers, `through` telling whether it holds its last one. -/
  | range (first last : Int) (through : Bool)
  /-- A function, the shared variables that it has taken, and the arguments that are already given. -/
  | function (callee : Callee) (cells : List Nat) (given : List Value)

instance : Inhabited Value := ⟨.unit⟩

namespace Value

/-- The value of a literal. -/
def ofLiteral : Literal → Value
  | .unit => unit
  | .bool b => bool b
  | .int n => int n
  | .float x => float x
  | .char c => char c
  | .text s => text s

/-- The name of a value's type. -/
def typeName : Value → String
  | unit => "()"
  | bool _ => "bool"
  | int _ => "i64"
  | float _ => "f64"
  | char _ => "char"
  | text _ => "string"
  | array _ => "array"
  | record _ => "map"
  | range _ _ false => "range"
  | range _ _ true => "range="
  | function _ _ _ => "Fn"

/-- The name of a value's type in a complaint about a call. -/
def signatureName : Value → String
  | text _ => "&str | ImmutableString | String"
  | v => v.typeName

/-- The name of a function, as far as it has one. -/
def calleeName : Callee → String
  | .named name => name
  | .literal _ _ _ => "anon$"

/-- A range as it is written. -/
def rangeText (first last : Int) (through : Bool) : String :=
  toString first ++ (if through then "..=" else "..") ++ toString last

mutual

/-- The text of a value inside a list or a record. -/
def listed : Value → String
  | unit => "()"
  | bool b => toString b
  | int n => toString n
  | float x => String.ofList x.listed
  | char c => Text.quoteChar c
  | text s => Text.quoteText s
  | array items => "[" ++ listedItems items ++ "]"
  | record fields => "#\x7b" ++ listedFields fields ++ "\x7d"
  | range first last through => rangeText first last through
  | function callee _ _ => "Fn(" ++ calleeName callee ++ ")"

/-- The texts of the items of a list. -/
def listedItems : List Value → String
  | [] => ""
  | [v] => v.listed
  | v :: rest => v.listed ++ ", " ++ listedItems rest

/-- The texts of the fields of a record. -/
def listedFields : List (String × Value) → String
  | [] => ""
  | [(name, v)] => Text.quoteText name ++ ": " ++ v.listed
  | (name, v) :: rest => Text.quoteText name ++ ": " ++ v.listed ++ ", " ++ listedFields rest

end

/-- The text of a value that is joined to a text or thrown. -/
def joined : Value → String
  | unit => ""
  | float x => String.ofList x.joined
  | char c => String.singleton c
  | text s => s
  | v => v.listed

/-- The text of a value in a cell. -/
def cellText : Value → String
  | unit => ""
  | float x => CellNumber.text x
  | v => v.joined

/-- The number of steps that a copy of the value costs. -/
def weight : Value → Nat
  | text s => s.utf8ByteSize / 64
  | array items => items.length / 64
  | record fields => fields.length / 64
  | _ => 0

end Value

end Worksheet.Formula
