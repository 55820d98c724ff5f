import Worksheet.Formula.Vocabulary
/-!
# Faults of a script

Why a script cannot be parsed, as causes, and the wording of each.

* `SyntaxFault` with `SyntaxFault.message`;
* `SyntaxError`: a fault and its place.
-/

namespace Worksheet.Formula

/-- Why a script cannot be parsed. -/
inductive SyntaxFault
  | lexical (f : LexFault)
  | incomplete
  | unexpected (found : String)
  /-- A certain sign is due, for the reason given. -/
  | missing (sign reason : String)
  /-- An expression of a certain kind is due. -/
  | expected (kind : String)
  | variableName
  | propertyName
  | reserved (name : String)
  | unknownOperator (written : String)
  | constantAssignment (name : String)
  | badTarget
  | suspectAssignment
  | looseBreak
  | functionName
  | functionParams (name : String)
  | functionBody (name : String)
  | repeatedParam (function param : String)
  | repeatedFunction (name : String) (params : Nat)
  | repeatedProperty (name : String)
  | repeatedVariable (name : String)
  | nestedFunction
  | earlyDefault
  | guardedDefault
  | outsideFunction (name : String)
  deriving DecidableEq, Inhabited

/-- A fault and the place where it was met. -/
structure SyntaxError where
  fault : SyntaxFault
  place : Place
  deriving DecidableEq, Inhabited

/-- What the fault inside a token is called. -/
def LexFault.message : LexFault → String
  | .openText => "Open string is not terminated"
  | .badEscape s => "Invalid escape sequence: '" ++ s ++ "'"
  | .badChar s => "Invalid character: '" ++ s ++ "'"
  | .badNumber s => "Invalid number: '" ++ s ++ "'"
  | .badName s => "Variable name is not proper: '" ++ s ++ "'"
  | .strayChar c => "Unexpected '" ++ String.singleton c ++ "'"

/-- The number of parameters, in words. -/
def paramCount : Nat → String
  | 0 => "no parameters"
  | 1 => "1 parameter"
  | n => toString n ++ " parameters"

/-- What a fault is called. -/
def SyntaxFault.message : SyntaxFault → String
  | .lexical f => f.message
  | .incomplete => "Script is incomplete"
  | .unexpected s => "Unexpected '" ++ s ++ "'"
  | .missing sign reason => "Expecting '" ++ sign ++ "' " ++ reason
  | .expected kind => "Expecting " ++ kind ++ " expression"
  | .variableName => "Expecting name of a variable"
  | .propertyName => "Expecting name of a property"
  | .reserved s =>
    if isNameForm s.toList then "'" ++ s ++ "' is a reserved keyword"
    else "'" ++ s ++ "' is a reserved symbol"
  | .unknownOperator s => "Unknown operator: '" ++ s ++ "'"
  | .constantAssignment "" => "Cannot assign to a constant value"
  | .constantAssignment name => "Cannot assign to constant " ++ name
  | .badTarget => "Expression cannot be assigned to"
  | .suspectAssignment => "Possibly a typo of '=='?"
  | .looseBreak => "Break statement should only be used inside a loop"
  | .functionName => "Expecting function name in function declaration"
  | .functionParams name => "Expecting parameters for function " ++ name
  | .functionBody name => "Expecting body statement block for function " ++ name
  | .repeatedParam "" param => "Duplicated parameter " ++ param ++ " for anonymous function"
  | .repeatedParam function param => "Duplicated parameter " ++ param ++ " for function " ++ function
  | .repeatedFunction name params =>
    "Function " ++ name ++ " with " ++ paramCount params ++ " already exists"
  | .repeatedProperty name => "Duplicated property for object map literal: " ++ name
  | .repeatedVariable name => "Duplicated variable name: " ++ name
  | .nestedFunction =>
    "Function definitions must be at global level and cannot be inside a block or another function"
  | .earlyDefault => "Default switch case must be the last"
  | .guardedDefault => "This switch case cannot have a condition"
  | .outsideFunction name => "'" ++ name ++ "' can only be used in functions"

end Worksheet.Formula
