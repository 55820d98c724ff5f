import Worksheet.Formula.Grammar.Fault
import Worksheet.Formula.Expr
/-!
# Reading tokens

The state in which a script is parsed: the tokens to come, the variables in scope, the variables that
the function literal at hand takes from around it, and the functions defined so far.

* `Parse`, `Parse.peek`, `Parse.advance`, `Parse.expect`;
* `Parse.mention`: what becomes of a variable that is mentioned;
* `Context`: where in a script the reader is;
* `Grammar`: the readers that a rule may use for its parts.
-/

namespace Worksheet.Formula

/-- A variable in scope. -/
structure LocalName where
  name : String
  constant : Bool
  deriving Inhabited

/-- The state in which a script is parsed. -/
structure ParseState where
  tokens : List Located
  /-- The variables of the function at hand, the innermost first. -/
  scope : List LocalName
  /-- The variables taken from around the function at hand, in the order of first mention. -/
  captured : List Capture
  functions : List Function

/-- A reader of tokens. -/
abbrev Parse : Type → Type :=
  StateT ParseState (Except SyntaxError)

namespace Parse

/-- Gives up with a fault at a place. -/
def fail {α : Type} (fault : SyntaxFault) (place : Place) : Parse α :=
  fun _ => .error ⟨fault, place⟩

/-- The next token, which stays. -/
def peek : Parse Located := do
  match (← get).tokens with
  | t :: _ => pure t
  | [] => pure ⟨.finish, Place.start⟩

/-- Takes the next token; the last one stays. -/
def advance : Parse Located := do
  let st ← get
  match st.tokens with
  | [] => pure ⟨.finish, Place.start⟩
  | [t] => pure t
  | t :: rest =>
    set { st with tokens := rest }
    pure t

/-- Takes the next token if it is the given one, and tells whether it was. -/
def accept (token : Token) : Parse Bool := do
  if (← peek).token = token then
    let _ ← advance
    pure true
  else pure false

/-- Gives up at the next token: the fault inside it, or the given one. -/
def reject {α : Type} (fault : Token → SyntaxFault) : Parse α := do
  let t ← peek
  match t.token with
  | .fault f => fail (.lexical f) t.place
  | token => fail (fault token) t.place

/-- The next token does not fit. -/
def unexpected {α : Type} : Parse α :=
  reject fun token => .unexpected token.display

/-- Takes the given mark; if something else comes, the mark is missing for the reason given. -/
def expect (token : Token) (reason : String) : Parse Unit := do
  unless ← accept token do
    reject fun _ => .missing token.display reason

/-- A name for a variable. -/
def variableName : Parse (String × Place) := do
  let t ← advance
  match t.token with
  | .word name => pure (name, t.place)
  | .reserved s => if isNameForm s.toList then fail (.reserved s) t.place else fail .variableName t.place
  | .fault f => fail (.lexical f) t.place
  | _ => fail .variableName t.place

/-- The number of tokens to come, which bounds the rounds of every loop. -/
def remaining : Parse Nat := do
  pure (← get).tokens.length

/-- Notes that a variable is mentioned. One that neither the function at hand nor the script defines
is taken from around the function. -/
def mention (name : String) (place : Place) : Parse Unit :=
  modify fun st =>
    if st.scope.any (·.name == name) || st.functions.any (·.name == name) ||
        st.captured.any (·.name == name) then st
    else { st with captured := st.captured ++ [⟨name, place⟩] }

/-- Brings a variable into scope. -/
def define (name : String) (constant : Bool) : Parse Unit :=
  modify fun st => { st with scope := ⟨name, constant⟩ :: st.scope }

/-- Runs a reader, and forgets the variables that it brought into scope. -/
def enclosed {α : Type} (p : Parse α) : Parse α := do
  let before := (← get).scope
  let a ← p
  modify fun st => { st with scope := before }
  pure a

end Parse

/-- Where in a script the reader is. -/
structure Context where
  /-- Outside of all blocks and functions. -/
  outermost : Bool := false
  /-- Inside a loop of the function at hand. -/
  breakable : Bool := false
  /-- Inside a function. -/
  inFunction : Bool := false
  /-- A bar ends the expression. -/
  barEnds : Bool := false

/-- The context of a part inside brackets. -/
def Context.inner (c : Context) : Context :=
  { c with outermost := false, barEnds := false }

/-- The readers that a rule may use for its parts. -/
structure Grammar where
  expr : Context → Parse Expr
  /-- An operand with the operators before it. -/
  operand : Context → Parse Expr
  /-- Operators of at least some strength after a first operand. -/
  operators : Context → Nat → Expr → Parse Expr
  stmt : Context → Parse Stmt
  block : Context → Parse (List Stmt)

end Worksheet.Formula
