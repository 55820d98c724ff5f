import Worksheet.Formula.Value
/-!
# Failures of formulas

Why a formula fails while it runs. A failure is a chain: one frame for every function call around it,
and the cause inside, each with a place as far as one is known.

* `Cause` with its wording (`Cause.message`) and its fields for a handler (`Cause.caught`);
* `Failure`: a cause inside frames.
-/

namespace Worksheet.Formula

/-- Why a formula fails. -/
inductive Cause
  | thrown (v : Value)
  | noVariable (name : String)
  | noFunction (signature : String)
  | noNamespace (name : String)
  | noProperty (name type : String)
  | noSetter (name type value : String)
  | arrayBounds (size : Nat) (index : Int)
  | textBounds (size : Nat) (index : Int)
  | bitBounds (size : Nat) (index : Int)
  | noIndexer (type : String)
  | arithmetic (message : String)
  | wrongType (expected actual : String)
  | notIterable
  | constantMethod (name : String)
  | stackOverflow
  /-- Stopped because its time was up. -/
  | terminated

/-- How many items there are, in words. -/
def sizeText (empty one many : String) : Nat → String
  | 0 => empty
  | 1 => "only 1 " ++ one
  | n => "only " ++ toString n ++ " " ++ many

namespace Cause

/-- What a cause is called. -/
def message : Cause → String
  | thrown v => if v.joined.isEmpty then "Runtime error" else "Runtime error: " ++ v.joined
  | noVariable name => "Variable not found: " ++ name
  | noFunction signature => "Function not found: " ++ signature
  | noNamespace name => "Module not found: " ++ name
  | noProperty name type =>
    "Unknown property '" ++ name ++ "' - a getter is not registered for type '" ++ type ++ "'"
  | noSetter name type value =>
    "No writable property '" ++ name ++ "' - a setter is not registered for type '" ++ type ++
      "' to handle '" ++ value ++ "'"
  | arrayBounds size index =>
    "Array index " ++ toString index ++ " out of bounds: " ++
      sizeText "array is empty" "element in array" "elements in array" size
  | textBounds size index =>
    "String index " ++ toString index ++ " out of bounds: " ++
      sizeText "string is empty" "character in string" "characters in string" size
  | bitBounds size index =>
    "Bit-field index " ++ toString index ++ " out of bounds: only " ++ toString size ++
      " bits in bit-field"
  | noIndexer type => "Indexer unavailable: " ++ type
  | arithmetic message => message
  | wrongType expected actual => "Data type incorrect: " ++ actual ++ " (expecting " ++ expected ++ ")"
  | notIterable => "For loop expects iterable type"
  | constantMethod name => "Non-pure method '" ++ name ++ "' cannot be called on constant"
  | stackOverflow => "Stack overflow"
  | terminated => "Script terminated"

/-- The kind of a cause, as a handler sees it. -/
def kind : Cause → String
  | thrown _ => "ErrorRuntime"
  | noVariable _ => "ErrorVariableNotFound"
  | noFunction _ => "ErrorFunctionNotFound"
  | noNamespace _ => "ErrorModuleNotFound"
  | noProperty _ _ | noSetter _ _ _ => "ErrorDotExpr"
  | arrayBounds _ _ => "ErrorArrayBounds"
  | textBounds _ _ => "ErrorStringBounds"
  | bitBounds _ _ => "ErrorBitFieldBounds"
  | noIndexer _ => "ErrorIndexingType"
  | arithmetic _ => "ErrorArithmetic"
  | wrongType _ _ => "ErrorMismatchDataType"
  | notIterable => "ErrorFor"
  | constantMethod _ => "ErrorNonPureMethodCallOnConstant"
  | stackOverflow => "ErrorStackOverflow"
  | terminated => "ErrorTerminated"

/-- The cause is that a limit of the language was reached. No handler gets to see that. -/
def isLimit : Cause → Bool
  | stackOverflow | terminated => true
  | _ => false

/-- What a handler gets: the value that was thrown, or a record about any other cause. -/
def caught (c : Cause) (place : Option Place) : Value :=
  match c with
  | thrown v => v
  | c =>
    let about : List (String × Value) := match c with
      | noVariable name => [("variable", .text name)]
      | noFunction signature => [("function", .text signature)]
      | _ => []
    let at_ : List (String × Value) := match place with
      | some p => [("line", .int p.line), ("position", .int p.column)]
      | none => []
    .record ((("error", .text c.kind) :: ("message", .text c.message) :: (about ++ at_)).foldl
      (fun fields f => Entries.put f.1 f.2 fields) [])

end Cause

/-- A cause inside the frames of the calls around it. -/
inductive Failure
  | cause (c : Cause) (place : Option Place)
  | inCall (place : Option Place) (inner : Failure)

namespace Failure

/-- The cause at the end of the chain. -/
def innermost : Failure → Cause
  | cause c _ => c
  | inCall _ inner => inner.innermost

/-- The place of the cause at the end of the chain. -/
def innermostPlace : Failure → Option Place
  | cause _ p => p
  | inCall _ inner => inner.innermostPlace

/-- The places of the chain, the outermost frame first and the cause last. -/
def places : Failure → List (Option Place)
  | cause _ p => [p]
  | inCall p inner => p :: inner.places

/-- The formula was stopped because its time was up. -/
def isTermination (f : Failure) : Bool :=
  match f.innermost with
  | .terminated => true
  | _ => false

/-- The failure as it leaves a call: a frame is put around it. A limit takes the place of the call
instead. -/
def leaving (f : Failure) (place : Place) : Failure :=
  if f.innermost.isLimit then cause f.innermost (some place) else inCall (some place) f

/-- Puts a place into a failure that has none. -/
def at_ (f : Failure) (place : Place) : Failure :=
  match f with
  | cause c none => cause c (some place)
  | inCall none inner => inCall (some place) inner
  | f => f

end Failure

end Worksheet.Formula
