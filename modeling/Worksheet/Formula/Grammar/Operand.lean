import Worksheet.Formula.Grammar.Basic
import Worksheet.Formula.Token.Lexer
/-!
# Operands and operators

The rules for expressions. Each rule is written against a `Grammar` for its parts.

* `Grammar.readOperand`: an operand with the operators before it and the accesses after it;
* `Grammar.readOperators`: operators after a first operand, by strength;
* `Grammar.readExpr`: an expression.
-/

namespace Worksheet.Formula

open Parse

namespace Expr

/-- Adds an access after an operand. -/
def access (e : Expr) (link : Link) : Expr :=
  match e with
  | .chain root links => .chain root (links ++ [link])
  | e => .chain e [link]

/-- An index in brackets may follow the operand. -/
def takesIndex : Expr → Bool
  | .literal (.text _) _ => true
  | .literal _ _ | .lambda _ _ _ _ => false
  | .binary op _ _ _ => !(op == .both || op == .either || op == .coalesce)
  | _ => true

/-- The operand with a minus before it. A number that is written out is turned around at once. -/
def negated (e : Expr) (place : Place) : Expr :=
  match e with
  | .literal (.int n) _ =>
    if n = Word.least then .literal (.float (Binary64.ofInt (-n))) place else .literal (.int (-n)) place
  | .literal (.float x) _ => .literal (.float x.neg) place
  | e => .unary .minus e place

/-- The operand with a plus before it. -/
def affirmed (e : Expr) (place : Place) : Expr :=
  match e with
  | .literal (.int _) _ | .literal (.float _) _ => e
  | e => .unary .plus e place

end Expr

namespace Grammar

variable (g : Grammar)

/-- What follows is no block, which would be a condition left out. -/
def conditionAhead : Parse Unit := do
  if (← peek).token = .mark .openBrace then
    reject fun _ => .expected "a boolean"

/-! ## Rows between brackets -/

/-- The arguments of a call, up to the closing bracket. -/
def arguments (name : String) (c : Context) : Nat → Parse (List Expr)
  | 0 => unexpected
  | fuel + 1 => do
    if ← accept (.mark .closeParen) then pure []
    else
      let e ← g.expr c.inner
      if ← accept (.mark .closeParen) then pure [e]
      else if ← accept (.mark .comma) then
        let rest ← arguments name c fuel
        pure (e :: rest)
      else reject fun
        | .finish => .missing ")" ("to close the arguments list of this function call '" ++ name ++ "'")
        | _ => .missing "," ("to separate the arguments to function call '" ++ name ++ "'")

/-- The arguments after the name of a function, if there are any. -/
def argumentsAfter? (name : String) (c : Context) : Parse (Option (List Expr)) := do
  if ← accept (.mark .emptyParens) then pure (some [])
  else if ← accept (.mark .openParen) then pure (some (← arguments g name c (← remaining)))
  else pure none

/-- The items of an array, up to the closing bracket. -/
def items (c : Context) : Nat → Parse (List Expr)
  | 0 => unexpected
  | fuel + 1 => do
    if ← accept (.mark .closeBracket) then pure []
    else
      let e ← g.expr c.inner
      if ← accept (.mark .comma) then
        let rest ← items c fuel
        pure (e :: rest)
      else if ← accept (.mark .closeBracket) then pure [e]
      else reject fun
        | .finish => .missing "]" "to end this array literal"
        | _ => .missing "," "to separate the items of this array literal"

/-- The name of a field, given the names before it. -/
def fieldName (seen : List String) : Parse String := do
  let t ← peek
  match t.token with
  | .word name | .text name =>
    let _ ← advance
    if seen.contains name then fail (.repeatedProperty name) t.place else pure name
  | .piece _ => fail .propertyName t.place
  | .reserved s => if isNameForm s.toList then fail (.reserved s) t.place else fail .propertyName t.place
  | _ => reject fun _ =>
    if seen.isEmpty then .missing "\x7d" "to end this object map literal" else .propertyName

/-- The fields of a record, up to the closing brace, given the names before them. -/
def fields (c : Context) (seen : List String) : Nat → Parse (List (String × Expr))
  | 0 => unexpected
  | fuel + 1 => do
    if ← accept (.mark .closeBrace) then pure []
    else
      let name ← fieldName seen
      expect (.mark .colon) ("to follow the property '" ++ name ++ "' in this object map literal")
      let e ← g.expr c.inner
      if ← accept (.mark .comma) then
        let rest ← fields c (seen ++ [name]) fuel
        pure ((name, e) :: rest)
      else if ← accept (.mark .closeBrace) then pure [(name, e)]
      else reject fun
        | .word _ => .missing "," "to separate the items of this object map literal"
        | _ => .missing "\x7d" "to end this object map literal"

/-- The parts of an interpolated text after its first piece. -/
def joinedParts (c : Context) : Nat → Parse (List Expr)
  | 0 => unexpected
  | fuel + 1 => do
    let place := (← peek).place
    let body ← g.block c.inner
    let part := Expr.statement (.block body) place
    let t ← advance
    match t.token with
    | .text s => pure (if s.isEmpty then [part] else [part, .literal (.text s) t.place])
    | .piece s =>
      let rest ← joinedParts c fuel
      pure (if s.isEmpty then part :: rest else part :: .literal (.text s) t.place :: rest)
    | .fault f => fail (.lexical f) t.place
    | token => fail (.unexpected token.display) t.place

/-! ## Function literals -/

/-- The parameters of a function literal up to the closing bar. -/
def lambdaParams (seen : List String) : Nat → Parse (List String)
  | 0 => unexpected
  | fuel + 1 => do
    let t ← peek
    match t.token with
    | .operator .bitOr =>
      let _ ← advance
      pure seen
    | .word name =>
      let _ ← advance
      if seen.contains name then fail (.repeatedParam "" name) t.place
      define name false
      if ← accept (.operator .bitOr) then pure (seen ++ [name])
      else
        expect (.mark .comma) "to separate the parameters of anonymous function"
        lambdaParams (seen ++ [name]) fuel
    | _ =>
      reject fun _ => .missing "|" "to close the parameters list of anonymous function or closure"

/-- A function literal. What it mentions and does not define is taken from around it. -/
def lambda : Parse Expr := do
  let t ← advance
  let outer ← get
  set { outer with scope := [], captured := [] }
  let params ← if t.token = .operator .either then pure [] else lambdaParams [] (← remaining)
  let body ← g.stmt { inFunction := true }
  let captured := (← get).captured
  modify fun st => { st with scope := outer.scope, captured := outer.captured }
  captured.forM fun v => mention v.name v.place
  pure (.lambda params captured body t.place)

/-! ## Operands -/

/-- A name, alone or before its arguments or a second name. -/
def named (c : Context) (name : String) (place : Place) : Parse Expr := do
  match ← argumentsAfter? g name c with
  | some args => pure (.call name args place)
  | none =>
    if ← accept (.mark .doubleColon) then
      let (second, _) ← variableName
      pure (.qualified name second place)
    else
      mention name place
      pure (.name name place)

/-- A reserved word or sign where an operand is due. -/
def reservedOperand (c : Context) (s : String) (place : Place) : Parse Expr := do
  let next := (← peek).token
  if s = "global" && next = .mark .doubleColon then named g c s place
  else if isCallableWord s && (next = .mark .openParen || next = .mark .emptyParens) then
    named g c s place
  else if s = "this" then
    if c.inFunction then pure (.name s place) else fail (.outsideFunction s) place
  else fail (.reserved s) place

/-- An operand without the operators and accesses around it. -/
def primary (c : Context) : Parse Expr := do
  let t ← peek
  let p := t.place
  let statementValue : Parse Expr := do
    let s ← g.stmt c.inner
    pure (.statement s p)
  match t.token with
  | .finish => fail .incomplete p
  | .fault f => fail (.lexical f) p
  | .mark .openBrace =>
    let body ← g.block c.inner
    pure (.statement (.block body) p)
  | .keyword .if_ | .keyword .while_ | .keyword .loop_ | .keyword .do_ | .keyword .for_
  | .keyword .switch_ => statementValue
  | .operator .bitOr | .operator .either => lambda g
  | .mark .emptyParens | .int _ | .float _ | .char _ | .text _ | .keyword .true_
  | .keyword .false_ | .mark .openParen | .mark .openBracket | .mark .openRecord | .piece _
  | .word _ | .reserved _ =>
    let _ ← advance
    match t.token with
    | .mark .emptyParens => pure (.literal .unit p)
    | .int n => pure (.literal (.int n) p)
    | .float x => pure (.literal (.float x) p)
    | .char d => pure (.literal (.char d) p)
    | .text s => pure (.literal (.text s) p)
    | .keyword .true_ => pure (.literal (.bool true) p)
    | .keyword .false_ => pure (.literal (.bool false) p)
    | .mark .openParen =>
      if ← accept (.mark .closeParen) then pure (.literal .unit p)
      else
        let e ← g.expr c.inner
        expect (.mark .closeParen) "for a matching ( in this expression"
        pure e
    | .mark .openBracket => pure (.array (← items g c (← remaining)) p)
    | .mark .openRecord => pure (.record (← fields g c [] (← remaining)) p)
    | .piece s =>
      let parts ← joinedParts g c (← remaining)
      pure (.joined (if s.isEmpty then parts else .literal (.text s) p :: parts) p)
    | .word name => named g c name p
    | .reserved s => reservedOperand g c s p
    | token => fail (.unexpected token.display) p
  | token => fail (.unexpected token.display) p

/-- The name after a dot, with its arguments if it is called. -/
def memberAccess (c : Context) : Parse Link := do
  let t ← peek
  let (name, callable, plain) ← match t.token with
    | .word name => pure (name, true, true)
    | .reserved s => if isMethodWord s then pure (s, true, false) else fail (.reserved s) t.place
    | _ => fail .propertyName t.place
  let _ ← advance
  match ← if callable then argumentsAfter? g name c else pure none with
  | some args => pure (.method name args t.place)
  | none => if plain then pure (.member name t.place) else fail (.reserved name) t.place

/-- The accesses after an operand. -/
def accesses (c : Context) (e : Expr) : Nat → Parse Expr
  | 0 => pure e
  | fuel + 1 => do
    if ← accept (.mark .dot) then
      let link ← memberAccess g c
      accesses c (e.access link) fuel
    else if e.takesIndex then
      if ← accept (.mark .openBracket) then
        let i ← g.expr c.inner
        expect (.mark .closeBracket) "for a matching [ in this index expression"
        accesses c (e.access (.index i i.place)) fuel
      else pure e
    else pure e

/-- An operand with the operators before it and the accesses after it. -/
def readOperand (c : Context) : Parse Expr := do
  let t ← peek
  match t.token with
  | .operator .sub | .negative =>
    let _ ← advance
    pure ((← g.operand c).negated t.place)
  | .operator .add | .positive =>
    let _ ← advance
    pure ((← g.operand c).affirmed t.place)
  | .mark .bang =>
    let _ ← advance
    pure (.unary .not (← g.operand c) t.place)
  | _ =>
    let e ← primary g c
    accesses g c e (← remaining)

/-! ## Operators -/

/-- The operator that comes next. A reserved sign in its place is no operator. -/
def operatorAhead (c : Context) : Parse (Option (Operator × Place)) := do
  let t ← peek
  match t.token with
  | .operator op => pure (if c.barEnds && op == .bitOr then none else some (op, t.place))
  | .reserved s =>
    if isNameForm s.toList then pure none else fail (.unknownOperator s) t.place
  | _ => pure none

/-- Operators of at least strength `least` after a first operand. -/
def operatorRow (c : Context) (least : Nat) : Expr → Nat → Parse Expr
  | lhs, 0 => pure lhs
  | lhs, fuel + 1 => do
    match ← operatorAhead c with
    | none => pure lhs
    | some (op, place) =>
      if op.strength < least || (op.strength == least && !op.bindsRight) then pure lhs
      else
        let _ ← advance
        let operand ← g.operand c
        let rhs ← match ← operatorAhead c with
          | some (next, _) =>
            if op.strength < next.strength || (op.strength == next.strength && op.bindsRight) then
              g.operators c op.strength operand
            else pure operand
          | none => pure operand
        operatorRow c least (.binary op lhs rhs place) fuel

/-- Operators of at least some strength after a first operand. -/
def readOperators (c : Context) (least : Nat) (lhs : Expr) : Parse Expr := do
  operatorRow g c least lhs (← remaining)

/-- An expression. -/
def readExpr (c : Context) : Parse Expr := do
  let e ← g.operand { c with outermost := false }
  g.operators { c with outermost := false } 1 e

end Grammar

end Worksheet.Formula
