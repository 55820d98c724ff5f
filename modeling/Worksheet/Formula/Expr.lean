import Worksheet.Formula.Token
/-!
# Expressions and statements

What a script says, after parsing. Expressions and statements nest in each other: a block can stand
for a value, and a function literal holds statements.

* `Expr`, `Link`, `Stmt` and `Case`; a row of accesses after an operand is one `Expr.chain`;
* `Function` and `Script`;
* `Expr.isInert`, `Stmt.isInert`: running it changes nothing, so that it may be left out where its
  value is not asked for (`Stmt.prune`).
-/

namespace Worksheet.Formula

/-- A value that is written out. -/
inductive Literal
  | unit
  | bool (b : Bool)
  | int (n : Int)
  | float (x : Binary64)
  | char (c : Char)
  | text (s : String)
  deriving DecidableEq, Inhabited

/-- The operators before a single operand. -/
inductive UnaryOperator
  | minus | plus | not
  deriving DecidableEq, Inhabited, Repr

/-- The operator as it is written. -/
def UnaryOperator.text : UnaryOperator → String
  | minus => "-"
  | plus => "+"
  | not => "!"

/-- A variable that a function literal takes from around it, with the place of its first mention. -/
structure Capture where
  name : String
  place : Place
  deriving DecidableEq, Inhabited

mutual

/-- An expression. -/
inductive Expr
  | literal (value : Literal) (place : Place)
  /-- A text in back quotes, as the parts that are joined. -/
  | joined (parts : List Expr) (place : Place)
  | array (items : List Expr) (place : Place)
  | record (fields : List (String × Expr)) (place : Place)
  | name (spelled : String) (place : Place)
  /-- A name qualified by another one. -/
  | qualified (space name : String) (place : Place)
  | call (name : String) (args : List Expr) (place : Place)
  | unary (op : UnaryOperator) (arg : Expr) (place : Place)
  | binary (op : Operator) (lhs rhs : Expr) (place : Place)
  /-- An operand followed by accesses. -/
  | chain (root : Expr) (links : List Link)
  | lambda (params : List String) (captured : List Capture) (body : Stmt) (place : Place)
  /-- A statement that stands for its value. -/
  | statement (s : Stmt) (place : Place)

/-- An access after an operand. -/
inductive Link
  | member (name : String) (place : Place)
  | index (at_ : Expr) (place : Place)
  | method (name : String) (args : List Expr) (place : Place)

/-- A statement. -/
inductive Stmt
  | noop
  | expr (e : Expr)
  | declare (constant : Bool) (name : String) (init : Option Expr) (place : Place)
  | assign (target : Expr) (op : Option Operator) (value : Expr) (place : Place)
  | branch (condition : Expr) (yes no : List Stmt)
  | choice (subject : Expr) (cases : List Case)
  | whileLoop (condition : Option Expr) (body : List Stmt)
  /-- A loop whose condition stands after its body; it goes on while the condition is `goOn`. -/
  | doLoop (body : List Stmt) (condition : Expr) (goOn : Bool)
  | forLoop (name : String) (counter : Option String) (source : Expr) (body : List Stmt)
  | leave (value : Option Expr) (place : Place)
  | skip (place : Place)
  | giveBack (value : Option Expr) (place : Place)
  | raise (value : Option Expr) (place : Place)
  | attempt (body : List Stmt) (name : Option String) (handler : List Stmt)
  | block (body : List Stmt)

/-- A case of a choice; without values it is the default. -/
inductive Case
  | mk (values : List Expr) (guard : Option Expr) (action : Stmt)

end

instance : Inhabited Expr := ⟨.literal .unit Place.start⟩
instance : Inhabited Stmt := ⟨.noop⟩

/-- A named function. -/
structure Function where
  name : String
  params : List String
  body : List Stmt

/-- A script: its functions, and the statements outside of them. -/
structure Script where
  functions : List Function
  body : List Stmt

namespace Expr

/-- The place that a complaint about the expression points at. -/
def place : Expr → Place
  | literal _ p | joined _ p | array _ p | record _ p | name _ p | qualified _ _ p
  | call _ _ p | unary _ _ p | binary _ _ _ p | lambda _ _ _ p | statement _ p => p
  | chain root _ => root.place

/-- The expression is a value written out, with nothing to work out. -/
def isLiteral : Expr → Bool
  | literal _ _ => true
  | _ => false

end Expr

/-! ## Statements that do nothing -/

mutual

/-- Working the expression out changes nothing. -/
def Expr.isInert : Expr → Bool
  | .literal _ _ | .name _ _ => true
  | .joined parts _ | .array parts _ => exprsInert parts
  | .record fields _ => fieldsInert fields
  | .binary op lhs rhs _ =>
    (op == .both || op == .either || op == .coalesce) && lhs.isInert && rhs.isInert
  | .statement s _ => s.isInert
  | _ => false

/-- Working the expressions out changes nothing. -/
def exprsInert : List Expr → Bool
  | [] => true
  | e :: rest => e.isInert && exprsInert rest

/-- Working the fields out changes nothing. -/
def fieldsInert : List (String × Expr) → Bool
  | [] => true
  | (_, e) :: rest => e.isInert && fieldsInert rest

/-- Running the statement changes nothing. -/
def Stmt.isInert : Stmt → Bool
  | .noop => true
  | .expr e => e.isInert
  | .branch condition yes no => condition.isInert && stmtsInert yes && stmtsInert no
  | .forLoop _ _ source body => source.isInert && stmtsInert body
  | .block body => stmtsInert body
  | _ => false

/-- Running the statements changes nothing. -/
def stmtsInert : List Stmt → Bool
  | [] => true
  | s :: rest => s.isInert && stmtsInert rest

end

/-- Leaves out the inert statements, except the last one, whose value may be asked for. -/
def Stmt.prune : List Stmt → List Stmt
  | [] => []
  | [s] => [s]
  | s :: rest => if s.isInert then prune rest else s :: prune rest

end Worksheet.Formula
