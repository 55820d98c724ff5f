import Worksheet.Formula.Grammar.Operand
/-!
# Statements

The rules for statements, blocks, functions and whole scripts.

* `Grammar.readStmt` and `Grammar.readBlock`;
* `grammar`: the rules, each applied to the rules below it;
* `parse`: a script from its text.
-/

namespace Worksheet.Formula

open Parse

namespace Stmt

/-- No semicolon is due after the statement. -/
def standsAlone : Stmt → Bool
  | branch .. | choice .. | whileLoop .. | forLoop .. | attempt .. | block .. => true
  | _ => false

end Stmt

namespace Token

/-- The token can start an expression, or is faulty. -/
def startsExpr : Token → Bool
  | word _ | reserved _ | int _ | float _ | char _ | text _ | piece _ | negative | positive
  | fault _ => true
  | keyword .true_ | keyword .false_ | keyword .if_ | keyword .while_ | keyword .loop_
  | keyword .do_ | keyword .for_ | keyword .switch_ => true
  | operator .add | operator .sub | operator .bitOr | operator .either => true
  | mark .openBrace | mark .openParen | mark .emptyParens | mark .openBracket | mark .openRecord
  | mark .bang => true
  | _ => false

end Token

namespace Grammar

variable (g : Grammar)

/-! ## Assignments -/

/-- The variable that a chain of accesses starts from, if all of it can be assigned to. -/
def targetName? : Expr → Option (String × Place)
  | .name name place => some (name, place)
  | .chain (.name name place) links =>
    if links.all fun | .method .. => false | _ => true then some (name, place) else none
  | _ => none

/-- Checks that an assignment has a target that may change. -/
def assignment (target : Expr) (op : Option Operator) (value : Expr) (place : Place) : Parse Stmt := do
  match target with
  | .qualified _ _ _ => pure (.assign target op value place)
  | .literal _ p => fail (.constantAssignment "") p
  | .binary .both _ _ _ | .binary .either _ _ _ | .binary .coalesce _ _ _ =>
    if op.isNone then fail .suspectAssignment place else fail .badTarget target.place
  | _ =>
    match targetName? target with
    | none => fail .badTarget target.place
    | some (name, p) =>
      let st ← get
      let constant := ((st.scope.find? (·.name == name)).map (·.constant)).getD false
      if constant then fail (.constantAssignment name) p
      else pure (.assign target op value place)

/-- An expression as a statement, or an assignment to it. -/
def exprStmt (c : Context) : Parse Stmt := do
  let e ← g.expr c
  let t ← peek
  match t.token with
  | .assign op =>
    let _ ← advance
    let value ← g.expr c.inner
    assignment e op value t.place
  | _ => pure (.expr e)

/-! ## Conditions and loops -/

/-- A condition, which is no block. -/
def condition (c : Context) : Parse Expr := do
  conditionAhead
  let e ← g.expr c.inner
  if (← peek).token = .assign none then reject fun _ => .suspectAssignment
  pure e

/-- What follows the word `if`. -/
def branchRest (c : Context) : Nat → Parse Stmt
  | 0 => unexpected
  | fuel + 1 => do
    let guard ← condition g c
    let yes ← g.block c.inner
    if ← accept (.keyword .else_) then
      if ← accept (.keyword .if_) then
        let other ← branchRest c fuel
        pure (.branch guard yes [other])
      else
        let no ← g.block c.inner
        pure (.branch guard yes no)
    else pure (.branch guard yes [])

/-- The values of a case, with bars between them. -/
def caseValues (c : Context) : Nat → Parse (List Expr)
  | 0 => unexpected
  | fuel + 1 => do
    let place := (← peek).place
    let before ← get
    match (g.expr { c.inner with barEnds := true }).run before with
    | .error e => fail (.expected "literal") e.place
    | .ok (e, after) =>
      set after
      unless isValue e do fail (.expected "a literal") place
      if ← accept (.operator .bitOr) then
        let rest ← caseValues c fuel
        pure (e :: rest)
      else pure [e]
where
  /-- The expression is a value written out. -/
  isValue : Expr → Bool
    | .literal _ _ => true
    | .array items _ => items.all Expr.isLiteral
    | .record fields _ => fields.all fun f => f.2.isLiteral
    | .binary .range lhs rhs _ | .binary .rangeThrough lhs rhs _ => lhs.isLiteral && rhs.isLiteral
    | _ => false

/-- The cases of a choice, up to the closing brace. `closed` holds the place of a default before. -/
def cases (c : Context) (closed : Option Place) : Nat → Parse (List Case)
  | 0 => unexpected
  | fuel + 1 => do
    let t ← peek
    if ← accept (.mark .closeBrace) then pure []
    else if t.token = .finish then reject fun _ => .missing "\x7d" "to end this switch block"
    else
      let (values, guard, closed') ←
        if t.token = .mark .underscore && closed.isNone then do
          let _ ← advance
          if (← peek).token = .keyword .if_ then reject fun _ => .guardedDefault
          pure ([], none, some t.place)
        else do
          if let some p := closed then fail .earlyDefault p
          let values ← caseValues g c (← remaining)
          if ← accept (.keyword .if_) then
            let guard ← condition g c
            pure (values, some guard, closed)
          else pure (values, none, closed)
      expect (.mark .arrow) "in this switch case"
      let action ← g.stmt { c with outermost := false }
      let this := Case.mk values guard action
      if ← accept (.mark .comma) then
        let rest ← cases c closed' fuel
        pure (this :: rest)
      else
        let next ← peek
        if next.token = .mark .closeBrace then
          let rest ← cases c closed' fuel
          pure (this :: rest)
        else if action.standsAlone && next.token ≠ .finish then
          let rest ← cases c closed' fuel
          pure (this :: rest)
        else reject fun
          | .finish => .missing ")" "to end this switch block"
          | _ => .missing "," "to separate the items in this switch block"

/-- What follows the word `switch`. -/
def choiceRest (c : Context) : Parse Stmt := do
  let subject ← g.expr c.inner
  expect (.mark .openBrace) "to start a switch block"
  pure (.choice subject (← cases g c none (← remaining)))

/-- The variables of a `for` loop. -/
def loopNames : Parse (String × Option String) := do
  if ← accept (.mark .openParen) then
    let (name, _) ← variableName
    expect (.mark .comma) "after the iteration variable name"
    let (counter, p) ← variableName
    if counter = name then fail (.repeatedVariable counter) p
    expect (.mark .closeParen) "to close the iteration variable"
    pure (name, some counter)
  else
    let (name, _) ← variableName
    pure (name, none)

/-- What follows the word `for`. -/
def forRest (c : Context) : Parse Stmt := do
  let (name, counter) ← loopNames
  expect (.operator .within) "after the iteration variable"
  conditionAhead
  let source ← g.expr c.inner
  enclosed do
    if let some k := counter then define k false
    define name false
    let body ← g.block { c.inner with breakable := true }
    pure (.forLoop name counter source body)

/-- What follows the word `do`. -/
def doRest (c : Context) : Parse Stmt := do
  let body ← g.block { c.inner with breakable := true }
  let goOn ←
    if ← accept (.keyword .while_) then pure true
    else if ← accept (.keyword .until_) then pure false
    else reject fun _ => .missing "while" "for the do statement"
  let guard ← condition g c
  pure (.doLoop body guard goOn)

/-- What follows the word `try`. -/
def attemptRest (c : Context) : Parse Stmt := do
  let body ← g.block c.inner
  expect (.keyword .catch_) "for the 'try' statement"
  if ← accept (.mark .openParen) then
    let (name, _) ← variableName
    expect (.mark .closeParen) "to enclose the catch variable"
    enclosed do
      define name false
      pure (.attempt body (some name) (← g.block c.inner))
  else pure (.attempt body none (← g.block c.inner))

/-! ## Declarations -/

/-- What follows the word `let` or `const`. -/
def declaration (constant : Bool) (c : Context) : Parse Stmt := do
  let (name, place) ← variableName
  let init ← if ← accept (.assign none) then
      let e ← g.expr c.inner
      pure (some e)
    else pure none
  define name constant
  pure (.declare constant name init place)

/-- The parameters of a function up to the closing bracket, given those before. -/
def params (function : String) (seen : List String) : Nat → Parse (List String)
  | 0 => unexpected
  | fuel + 1 => do
    let t ← peek
    match t.token with
    | .mark .closeParen =>
      let _ ← advance
      pure seen
    | .word name =>
      let _ ← advance
      if seen.contains name then fail (.repeatedParam function name) t.place
      define name false
      if ← accept (.mark .closeParen) then pure (seen ++ [name])
      else
        expect (.mark .comma) ("to separate the parameters of function '" ++ function ++ "'")
        params function (seen ++ [name]) fuel
    | .reserved s =>
      if isNameForm s.toList then fail (.reserved s) t.place
      else fail (.missing ")" ("to close the parameters list of function '" ++ function ++ "'")) t.place
    | _ =>
      reject fun _ => .missing ")" ("to close the parameters list of function '" ++ function ++ "'")

/-- A function, from its name on, given the place of the word `fn`. -/
def function (start : Place) : Parse Unit := do
  let t ← advance
  let name ← match t.token with
    | .word name => pure name
    | .reserved s => if isNameForm s.toList then fail (.reserved s) t.place else fail .functionName t.place
    | _ => fail .functionName t.place
  let outer ← get
  set { outer with scope := [], captured := [] }
  let ps ← if ← accept (.mark .emptyParens) then pure []
    else if ← accept (.mark .openParen) then params name [] (← remaining)
    else reject fun _ => .functionParams name
  unless (← peek).token = .mark .openBrace do reject fun _ => .functionBody name
  let body ← g.block { inFunction := true }
  let st ← get
  if st.functions.any fun f => f.name == name && f.params.length == ps.length then
    fail (.repeatedFunction name ps.length) start
  set { st with
    scope := outer.scope
    captured := outer.captured
    functions := st.functions ++ [Function.mk name ps body] }

/-! ## Statements -/

/-- The value after `return`, `throw` or `break`, if there is one. -/
def valueAfter? (c : Context) : Parse (Option Expr) := do
  let t ← peek
  if t.token.startsExpr then
    let e ← g.expr c.inner
    pure (some e)
  else pure none

/-- A statement. -/
def readStmt (c : Context) : Parse Stmt := do
  let t ← peek
  match t.token with
  | .finish => pure .noop
  | .mark .semicolon =>
    let _ ← advance
    pure .noop
  | .mark .openBrace => pure (.block (← g.block c.inner))
  | .keyword .fn_ =>
    unless c.outermost do fail .nestedFunction t.place
    let _ ← advance
    function g t.place
    pure .noop
  | .keyword .private_ =>
    unless c.outermost do fail (.unexpected "private") t.place
    let _ ← advance
    expect (.keyword .fn_) "following 'private'"
    function g t.place
    pure .noop
  | .keyword .if_ =>
    let _ ← advance
    branchRest g c (← remaining)
  | .keyword .switch_ =>
    let _ ← advance
    choiceRest g c
  | .keyword .while_ =>
    let _ ← advance
    let guard ← condition g c
    pure (.whileLoop (some guard) (← g.block { c.inner with breakable := true }))
  | .keyword .loop_ =>
    let _ ← advance
    pure (.whileLoop none (← g.block { c.inner with breakable := true }))
  | .keyword .do_ =>
    let _ ← advance
    doRest g c
  | .keyword .for_ =>
    let _ ← advance
    forRest g c
  | .keyword .continue_ =>
    unless c.breakable do fail .looseBreak t.place
    let _ ← advance
    pure (.skip t.place)
  | .keyword .break_ =>
    unless c.breakable do fail .looseBreak t.place
    let _ ← advance
    pure (.leave (← valueAfter? g c) t.place)
  | .keyword .return_ =>
    let _ ← advance
    pure (.giveBack (← valueAfter? g c) t.place)
  | .keyword .throw_ =>
    let _ ← advance
    pure (.raise (← valueAfter? g c) t.place)
  | .keyword .try_ =>
    let _ ← advance
    attemptRest g c
  | .keyword .let_ =>
    let _ ← advance
    declaration g false c
  | .keyword .const_ =>
    let _ ← advance
    declaration g true c
  | _ => exprStmt g c

/-- The statements up to the closing brace. -/
def blockItems (c : Context) : Nat → Parse (List Stmt)
  | 0 => unexpected
  | fuel + 1 => do
    if ← accept (.mark .closeBrace) then pure []
    else if (← peek).token = .finish then
      reject fun _ => .missing "\x7d" "to terminate this block"
    else
      let s ← g.stmt c.inner
      match s with
      | .noop => blockItems c fuel
      | s =>
        if ← accept (.mark .closeBrace) then pure [s]
        else
          unless ← accept (.mark .semicolon) do
            unless s.standsAlone do
              reject fun _ => .missing ";" "to terminate this statement"
          let rest ← blockItems c fuel
          pure (s :: rest)

/-- A block in braces. -/
def readBlock (c : Context) : Parse (List Stmt) := do
  expect (.mark .openBrace) "to start a statement block"
  let body ← enclosed (blockItems g c (← remaining))
  pure (Stmt.prune body)

/-- The statements of a script. -/
def scriptItems : Nat → Parse (List Stmt)
  | 0 => pure []
  | fuel + 1 => do
    if (← peek).token = .finish then pure []
    else
      let s ← g.stmt { outermost := true }
      match s with
      | .noop => scriptItems fuel
      | s =>
        if (← peek).token = .finish then pure [s]
        else
          unless s.standsAlone do
            unless ← accept (.mark .semicolon) do
              reject fun _ => .missing ";" "to terminate this statement"
          let rest ← scriptItems fuel
          pure (s :: rest)

end Grammar

/-! ## Whole scripts -/

/-- The rules of the language, nested at most so many levels deep. -/
def grammar : Nat → Grammar
  | 0 =>
    { expr := fun _ => unexpected
      operand := fun _ => unexpected
      operators := fun _ _ _ => unexpected
      stmt := fun _ => unexpected
      block := fun _ => unexpected }
  | n + 1 =>
    { expr := fun c => (grammar n).readExpr c
      operand := fun c => (grammar n).readOperand c
      operators := fun c least lhs => (grammar n).readOperators c least lhs
      stmt := fun c => (grammar n).readStmt c
      block := fun c => (grammar n).readBlock c }

/-- Parses the tokens of a script. Between two levels of nesting of the same kind lies a token, so
that four levels for each token are enough. -/
def parseTokens (tokens : List Located) : Except SyntaxError Script :=
  match ((grammar (4 * tokens.length + 4)).scriptItems tokens.length).run ⟨tokens, [], [], []⟩ with
  | .error e => .error e
  | .ok (body, st) => .ok ⟨st.functions, Stmt.prune body⟩

/-- Parses a script. -/
def parse (script : List Char) : Except SyntaxError Script :=
  parseTokens (lex script)

end Worksheet.Formula
