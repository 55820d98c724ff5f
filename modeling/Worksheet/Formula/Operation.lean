import Worksheet.Formula.Failure
import Worksheet.Formula.Token.Lexer
/-!
# Operators on values

What the operators of the formula language do. Integers are checked against their range; an integer
beside a double counts as a double; a text joins with anything. Values of different types are unequal,
and none of them is less than the other.

* `equalValues`, `compareValues?`;
* `Operator.apply?`: the value of an operator on two operands, `none` if it has none for them;
* `UnaryOperator.apply?`.
-/

namespace Worksheet.Formula

/-- An integer within the range of the language. -/
def checkInt (n : Int) (fault : String) : Except Cause Value :=
  if Word.fits n then .ok (.int n) else .error (.arithmetic fault)

/-- The double of an integer. -/
def intFloat (n : Int) : Binary64 :=
  Binary64.ofInt n

/-- Two numbers as doubles, if at least one of them is a double. -/
def floatPair? : Value → Value → Option (Binary64 × Binary64)
  | .float x, .float y => some (x, y)
  | .float x, .int n => some (x, intFloat n)
  | .int n, .float y => some (intFloat n, y)
  | _, _ => none

/-- Two texts, where a character beside a text counts as a text. -/
def textPair? : Value → Value → Option (String × String)
  | .text s, .text t => some (s, t)
  | .text s, .char c => some (s, String.singleton c)
  | .char c, .text t => some (String.singleton c, t)
  | .char c, .char d => some (String.singleton c, String.singleton d)
  | _, _ => none

/-! ## Comparison -/

mutual

/-- Two values are equal. -/
def equalValues : Value → Value → Bool
  | .unit, .unit => true
  | .bool a, .bool b => a == b
  | .int m, .int n => m == n
  | .array a, .array b => equalItems a b
  | .record a, .record b => equalFields a b
  | .range a b i, .range c d j => a == c && b == d && i == j
  | a, b =>
    match floatPair? a b with
    | some (x, y) => x.toFloat == y.toFloat
    | none =>
      match textPair? a b with
      | some (s, t) => s == t
      | none => false

/-- Two lists have equal items. -/
def equalItems : List Value → List Value → Bool
  | [], [] => true
  | a :: as, b :: bs => equalValues a b && equalItems as bs
  | _, _ => false

/-- Two records have equal fields. -/
def equalFields : List (String × Value) → List (String × Value) → Bool
  | [], [] => true
  | (n, a) :: as, (m, b) :: bs => n == m && equalValues a b && equalFields as bs
  | _, _ => false

end

/-- How the first value compares with the second: less, and greater. -/
def compareValues? (a b : Value) : Option (Bool × Bool) :=
  match a, b with
  | .int m, .int n => some (decide (m < n), decide (n < m))
  | .bool x, .bool y => some (!x && y, x && !y)
  | .unit, .unit => some (false, false)
  | a, b =>
    match floatPair? a b with
    | some (x, y) => some (x.toFloat < y.toFloat, y.toFloat < x.toFloat)
    | none => (textPair? a b).map fun (s, t) => (decide (s < t), decide (t < s))

/-- The answer of a comparison. Values of different types are only unequal. -/
def compareWith? (op : Operator) (a b : Value) : Option Bool :=
  let sameKind : Bool := a.typeName == b.typeName
  let equal := equalValues a b
  match op with
  | .equal => if sameKind && isFunction a then none else some equal
  | .unequal => if sameKind && isFunction a then none else some (!equal)
  | _ =>
    match compareValues? a b with
    | some (less, greater) =>
      some <| match op with
        | .less => less
        | .lessEqual => less || equal
        | .greater => greater
        | _ => greater || equal
    | none => if sameKind then none else some false
where
  /-- The value is a function. -/
  isFunction : Value → Bool
    | .function _ _ _ => true
    | _ => false

/-! ## Arithmetic -/

/-- The greatest exponent of an integer. -/
def greatestExponent : Int := 4294967295

/-- `m ** n` on integers. -/
def powInt (m n : Int) : Except Cause Value :=
  let shown := toString m ++ " ** " ++ toString n
  if n < 0 then .error (.arithmetic ("Integer raised to a negative power: " ++ shown))
  else
    let overflow := "Exponential overflow: " ++ shown
    -- a base of at least two overflows from the 64th power on
    if greatestExponent < n ∨ (64 ≤ n ∧ 2 ≤ m.natAbs) then .error (.arithmetic overflow)
    else if 64 ≤ n then checkInt (if n % 2 = 0 then m * m else m) overflow
    else checkInt (Int.pow m n.toNat) overflow

/-- Moves the bits of `m` by `n` places to the left, or to the right if `n` is negative. -/
def shiftInt (m n : Int) : Int :=
  if 0 ≤ n then
    if 64 ≤ n then 0 else Word.ofNat (Word.toNat (m * Nat.pow 2 n.toNat))
  else if n ≤ -64 then (if m < 0 then -1 else 0)
  else m / Nat.pow 2 (-n).toNat

/-- An operator on two integers. -/
def intOperation? (op : Operator) (m n : Int) : Option (Except Cause Value) :=
  let shown (sign : String) : String := toString m ++ sign ++ toString n
  match op with
  | .add => some (checkInt (m + n) ("Addition overflow: " ++ shown " + "))
  | .sub => some (checkInt (m - n) ("Subtraction overflow: " ++ shown " - "))
  | .mul => some (checkInt (m * n) ("Multiplication overflow: " ++ shown " * "))
  | .div => some <|
    if n = 0 then .error (.arithmetic ("Division by zero: " ++ shown " / "))
    else checkInt (m.tdiv n) ("Division overflow: " ++ shown " / ")
  | .rem => some <|
    if n = 0 ∨ (m = Word.least ∧ n = -1) then
      .error (.arithmetic ("Modulo division by zero or overflow: " ++ shown " % "))
    else .ok (.int (m.tmod n))
  | .pow => some (powInt m n)
  | .shiftLeft => some (.ok (.int (shiftInt m n)))
  | .shiftRight => some (.ok (.int (shiftInt m (-n))))
  | .bitAnd => some (.ok (.int (Word.ofNat (Word.toNat m &&& Word.toNat n))))
  | .bitOr => some (.ok (.int (Word.ofNat (Word.toNat m ||| Word.toNat n))))
  | .bitXor => some (.ok (.int (Word.ofNat (Word.toNat m ^^^ Word.toNat n))))
  | _ => none

/-- An operator on two doubles. -/
def floatOperation? (op : Operator) (x y : Binary64) : Option Value :=
  let a := x.toFloat
  let b := y.toFloat
  match op with
  | .add => some (.float (.ofFloat (a + b)))
  | .sub => some (.float (.ofFloat (a - b)))
  | .mul => some (.float (.ofFloat (a * b)))
  | .div => some (.float (.ofFloat (a / b)))
  | .rem => some (.float (x.remainder y))
  | .pow => some (.float (.ofFloat (Float.pow a b)))
  | _ => none

/-- An operator on two truth values. -/
def boolOperation? (op : Operator) (a b : Bool) : Option Value :=
  match op with
  | .bitAnd => some (.bool (a && b))
  | .bitOr => some (.bool (a || b))
  | .bitXor => some (.bool (a != b))
  | _ => none

/-! ## Texts -/

/-- The text without the places where `part` stands in it. -/
def removeText (fuel : Nat) (part : List Char) (cs : List Char) : List Char :=
  match fuel, cs with
  | 0, cs => cs
  | _, [] => []
  | fuel + 1, c :: rest =>
    if !part.isEmpty && part.isPrefixOf (c :: rest) then
      removeText fuel part ((c :: rest).drop part.length)
    else c :: removeText fuel part rest

/-- A text joined with a value on one of its sides. -/
def joinText? : Value → Value → Option Value
  | .text s, v => some (.text (s ++ v.joined))
  | v, .text t => some (.text (v.joined ++ t))
  | .char c, .char d => some (.text (String.ofList [c, d]))
  | _, _ => none

/-- A text without the places where another one stands in it. -/
def subtractText? : Value → Value → Option Value
  | .text s, v =>
    match v with
    | .text t => some (.text (String.ofList (removeText (s.length + 1) t.toList s.toList)))
    | .char c => some (.text (String.ofList (s.toList.filter (· != c))))
    | _ => none
  | _, _ => none

/-! ## All operators -/

/-- The value of an operator on two operands, or `none` if the operator is not for them. -/
def Operator.apply? (op : Operator) (a b : Value) : Option (Except Cause Value) :=
  match op with
  | .equal | .unequal | .less | .lessEqual | .greater | .greaterEqual =>
    (compareWith? op a b).map fun r => .ok (.bool r)
  | _ =>
    match a, b with
    | .int m, .int n =>
      match op with
      | .range => some (.ok (.range m n false))
      | .rangeThrough => some (.ok (.range m n true))
      | _ => intOperation? op m n
    | .bool x, .bool y => (boolOperation? op x y).map .ok
    | .array xs, .array ys => if op == .add then some (.ok (.array (xs ++ ys))) else none
    | .record xs, .record ys =>
      if op == .add then
        some (.ok (.record (ys.foldl (fun fields f => Entries.put f.1 f.2 fields) xs)))
      else none
    | a, b =>
      match floatPair? a b with
      | some (x, y) => (floatOperation? op x y).map .ok
      | none =>
        match op with
        | .add => (joinText? a b).map .ok
        | .sub => (subtractText? a b).map .ok
        | _ => none

/-- The value of an operator on one operand, or `none` if the operator is not for it. -/
def UnaryOperator.apply? (op : UnaryOperator) (v : Value) : Option (Except Cause Value) :=
  match op, v with
  | .minus, .int n => some (checkInt (-n) "integer overflow")
  | .minus, .float x => some (.ok (.float x.neg))
  | .plus, .int n => some (.ok (.int n))
  | .plus, .float x => some (.ok (.float x))
  | .not, .bool b => some (.ok (.bool !b))
  | _, _ => none

/-- The call that a complaint names. -/
def signature (name : String) (args : List Value) : String :=
  name ++ " (" ++ ", ".intercalate (args.map Value.signatureName) ++ ")"

end Worksheet.Formula
