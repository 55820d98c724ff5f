import Worksheet.Formula.Machine
/-!
# Running scripts

The meaning of expressions and statements. Each rule is written against an `Interpreter` for the
parts, and `interpreter` applies the rules to each other.

* `Interpreter.evalExpr`, `Interpreter.evalStmt`, `Interpreter.evalBlock`;
* `Interpreter.invoke`: calls by name; `Interpreter.applyValue`: calls of function values;
* `Interpreter.walk`, `Interpreter.assignAlong`: reading and changing along a chain of accesses;
* `runScript`: a script from start to end.
-/

namespace Worksheet.Formula

open Exec

/-- The functions of the script, how deep the call at hand is, and whether the statement at hand is
outside of all blocks and functions. -/
structure Env where
  functions : List Function
  depth : Nat
  outermost : Bool

/-- The deepest call. -/
def maxDepth : Nat := 64

namespace Env

/-- The function of the script with this name and number of parameters. -/
def function? (env : Env) (name : String) (arity : Nat) : Option Function :=
  env.functions.find? fun f => f.name == name && f.params.length == arity

/-- Inside a block. -/
def inner (env : Env) : Env :=
  { env with outermost := false }

end Env

/-- The meaning of the parts of a rule. -/
structure Interpreter where
  expr : Env → Expr → Exec Value
  stmt : Env → Stmt → Exec Value
  block : Env → List Stmt → Exec Value

/-- An access whose arguments are worked out. -/
inductive Access
  | member (name : String) (place : Place)
  | index (at_ : Value) (place : Place)
  | method (name : String) (args : List Value) (place : Place)

namespace Interpreter

variable (i : Interpreter)

/-! ## Calls -/

/-- Runs the body of a function in a scope of its own. A failure inside leaves it in a frame. -/
def enter (env : Env) (scope : List Binding) (body : Env → Exec Value) (place : Place) :
    Exec Value := do
  spend 1
  if maxDepth < env.depth then fail .stackOverflow place
  else
    rescue (inFreshScope scope (body { env with depth := env.depth + 1, outermost := false }))
      fun
      | .giveBack v => pure v
      | .failed f => throw (.failed (f.leaving place))
      | s => throw s

/-- The parameters of a function with their arguments, as variables. -/
def bindArgs (params : List String) (slots : List Slot) : List Binding :=
  ((params.zip slots).map fun (name, slot) => ⟨name, false, slot⟩).reverse

/-- Calls a function of the script. -/
def callScript (env : Env) (f : Function) (args : List Value) (place : Place) : Exec Value :=
  enter env (bindArgs f.params (args.map .own)) (fun env => i.block env f.body) place

/-- Calls a function by its name: one of the script, or one that the language brings along. -/
def invoke (env : Env) (name : String) (args : List Value) (place : Place) : Exec Value := do
  match env.function? name args.length with
  | some f => callScript i env f args place
  | none =>
    let r ← match applyFunction? name args with
      | some r => lift r place
      | none =>
        match args with
        | v :: rest =>
          match changeValue? name v rest with
          | some r => do pure (← lift r place).1
          | none => fail (.noFunction (signature name args)) place
        | [] => fail (.noFunction (signature name args)) place
    spend (1 + r.weight)
    pure r

/-- Calls a function value. -/
def applyValue (env : Env) (f : Value) (args : List Value) (place : Place) : Exec Value := do
  match f with
  | .function callee cells given =>
    let all := given ++ args
    match callee with
    | .named name => invoke i env name all place
    | .literal captured params body =>
      if params.length = all.length then
        enter env (bindArgs (captured ++ params) (cells.map .cell ++ all.map .own))
          (fun env => i.stmt env body) place
      else fail (.noFunction (signature (Value.calleeName callee) all)) place
  | v => fail (.wrongType "Fn" v.typeName) place

/-- The number of arguments that a function value still takes, as far as that is known. -/
def openArity? (env : Env) : Value → Option Nat
  | .function (.literal _ params _) _ given => some (params.length - given.length)
  | .function (.named name) _ given =>
    (env.functions.find? (·.name == name)).map (·.params.length - given.length)
  | _ => none

/-- Calls a function value with as many of the arguments as it takes, but with the first `least` if
that is not known. -/
def applyOpen (env : Env) (f : Value) (least : Nat) (args : List Value) (place : Place) :
    Exec Value :=
  let n := match openArity? env f with
    | some n => if n ≤ args.length then n else least
    | none => least
  applyValue i env f (args.take n) place

/-! ## Functions that call other functions -/

/-- Applies a function to every item of a list, with its position. -/
def mapItems (env : Env) (f : Value) (place : Place) : Nat → List Value → Exec (List Value)
  | _, [] => pure []
  | k, v :: rest => do
    let r ← applyOpen i env f 1 [v, .int k] place
    let others ← mapItems env f place (k + 1) rest
    pure (r :: others)

/-- The items of a list that a function answers with true. -/
def filterItems (env : Env) (f : Value) (place : Place) : Nat → List Value → Exec (List Value)
  | _, [] => pure []
  | k, v :: rest => do
    let r ← applyOpen i env f 1 [v, .int k] place
    let others ← filterItems env f place (k + 1) rest
    match r with
    | .bool true => pure (v :: others)
    | _ => pure others

/-- Combines the items of a list from the first one on. -/
def reduceItems (env : Env) (f : Value) (place : Place) : Nat → Value → List Value → Exec Value
  | _, acc, [] => pure acc
  | k, acc, v :: rest => do
    let r ← applyOpen i env f 2 [acc, v, .int k] place
    reduceItems env f place (k + 1) r rest

/-- Puts a value into a sorted list, after all values that are not greater. -/
def insertSorted (env : Env) (f : Value) (place : Place) (v : Value) :
    List Value → Exec (List Value)
  | [] => pure [v]
  | w :: rest => do
    let r ← applyValue i env f [w, v] place
    let greater : Bool := match r with
      | .int n => decide (0 < n)
      | .bool b => !b
      | _ => ((compareValues? w v).map (·.2)).getD false
    if greater then pure (v :: w :: rest)
    else pure (w :: (← insertSorted env f place v rest))

/-- A list in the order that a function tells. -/
def sortItems (env : Env) (f : Value) (place : Place) (acc : List Value) :
    List Value → Exec (List Value)
  | [] => pure acc
  | v :: rest => do
    let acc ← insertSorted i env f place v acc
    sortItems env f place acc rest

/-- A call of a method that calls a function value: its value, and what becomes of the first operand
if it changes. -/
def callback? (env : Env) (name : String) (v : Value) (args : List Value) (place : Place) :
    Option (Exec (Value × Option Value)) :=
  match name, v, args with
  | "call", .function _ _ _, args => some do pure (← applyValue i env v args place, none)
  | "curry", .function callee cells given, args =>
    some (pure (.function callee cells (given ++ args), none))
  | "map", .array items, [f@(.function _ _ _)] =>
    some do pure (.array (← mapItems i env f place 0 items), none)
  | "filter", .array items, [f@(.function _ _ _)] =>
    some do pure (.array (← filterItems i env f place 0 items), none)
  | "reduce", .array items, [f@(.function _ _ _)] =>
    some do pure (← reduceItems i env f place 0 .unit items, none)
  | "reduce", .array items, [f@(.function _ _ _), start] =>
    some do pure (← reduceItems i env f place 0 start items, none)
  | "sort", .array items, [f@(.function _ _ _)] =>
    some do pure (.unit, some (.array (← sortItems i env f place [] items)))
  | name, .record fields, args =>
    match fields.find? (·.1 == name) with
    | some (_, f@(.function _ _ _)) => some do pure (← applyValue i env f args place, none)
    | _ => none
  | _, _, _ => none

/-- Calls a method: its value, and what becomes of the operand if it changes. -/
def callMethod (env : Env) (name : String) (v : Value) (args : List Value) (place : Place) :
    Exec (Value × Option Value) := do
  match env.function? name args.length with
  | some f => pure (← callScript i env f args place, none)
  | none =>
    match callback? i env name v args place with
    | some r => r
    | none =>
      match changeValue? name v args with
      | some r =>
        let (result, changed) ← lift r place
        spend (1 + changed.weight)
        pure (result, some changed)
      | none =>
        match applyFunction? name (v :: args) with
        | some r =>
          let r ← lift r place
          spend (1 + r.weight)
          pure (r, none)
        | none => fail (.noFunction (signature name (v :: args))) place

/-! ## Accesses -/

/-- The position that an index points at; a negative one counts from the end. -/
def position? (size : Nat) (index : Int) : Option Nat :=
  if 0 ≤ index then (if index < size then some index.toNat else none)
  else if index.natAbs ≤ size then some (size - index.natAbs) else none

/-- The value of a member. -/
def getMember (v : Value) (name : String) : Except Cause Value :=
  match v with
  | .record fields => .ok (((fields.find? (·.1 == name)).map (·.2)).getD .unit)
  | v =>
    match property? v name with
    | some r => .ok r
    | none => .error (.noProperty name v.typeName)

/-- Gives a member another value. -/
def setMember (v : Value) (name : String) (new : Value) : Except Cause Value :=
  match v with
  | .record fields => .ok (.record (Entries.put name new fields))
  | v => .error (.noSetter name v.typeName new.typeName)

/-- The value at an index. -/
def getIndex (v index : Value) : Except Cause Value :=
  match v, index with
  | .array items, .int k =>
    match (position? items.length k).bind (items[·]?) with
    | some item => .ok item
    | none => .error (.arrayBounds items.length k)
  | .text s, .int k =>
    let cs := s.toList
    match (position? cs.length k).bind (cs[·]?) with
    | some c => .ok (.char c)
    | none => .error (.textBounds cs.length k)
  | .text s, .range first last through =>
    (applyFunction? "sub_string" [.text s, .range first last through]).getD (.ok .unit)
  | .record fields, .text name => .ok (((fields.find? (·.1 == name)).map (·.2)).getD .unit)
  | .int n, .int k =>
    match position? 64 k with
    | some b => .ok (.bool (Word.toNat n / Nat.pow 2 b % 2 = 1))
    | none => .error (.bitBounds 64 k)
  | .array _, i | .text _, i => .error (.wrongType "i64" i.typeName)
  | .record _, i => .error (.wrongType "string" i.typeName)
  | v, i => .error (.noIndexer (v.typeName ++ " [" ++ i.typeName ++ "]"))

/-- Puts another value at an index. -/
def setIndex (v index new : Value) : Except Cause Value :=
  match v, index with
  | .array items, .int k =>
    match position? items.length k with
    | some p => .ok (.array (items.set p new))
    | none => .error (.arrayBounds items.length k)
  | .text s, .int k =>
    let cs := s.toList
    match position? cs.length k, new with
    | some p, .char c => .ok (.text (String.ofList (cs.set p c)))
    | some _, new => .error (.wrongType "char" new.typeName)
    | none, _ => .error (.textBounds cs.length k)
  | .record fields, .text name => .ok (.record (Entries.put name new fields))
  | .array _, i | .text _, i => .error (.wrongType "i64" i.typeName)
  | .record _, i => .error (.wrongType "string" i.typeName)
  | v, i => .error (.noIndexer (v.typeName ++ " [" ++ i.typeName ++ "]"))

/-- Follows a chain of accesses: its value, and what becomes of the operand if it changes. -/
def walk (env : Env) (v : Value) : List Access → Exec (Value × Option Value)
  | [] => pure (v, none)
  | .member name place :: rest => do
    spend 1
    let w ← lift (getMember v name) place
    let (result, changed) ← walk env w rest
    match changed, v with
    | some w', .record _ => pure (result, some (← lift (setMember v name w') place))
    | _, _ => pure (result, none)
  | .index k place :: rest => do
    spend 1
    let w ← lift (getIndex v k) place
    let (result, changed) ← walk env w rest
    match changed with
    | some w' => pure (result, some (← lift (setIndex v k w') place))
    | none => pure (result, none)
  | .method name args place :: rest => do
    let (w, changed) ← callMethod i env name v args place
    let (result, _) ← walk env w rest
    pure (result, changed)

/-- The value that an assignment puts in place of `old`. -/
def combine (op : Option Operator) (old : Exec Value) (new : Value) (place : Place) : Exec Value := do
  match op with
  | none => pure new
  | some op =>
    let old ← old
    let r ← match op, old, new with
      | .add, .array items, v =>
        match v with
        | .array more => pure (.array (items ++ more))
        | v => pure (.array (items ++ [v]))
      | op, old, new =>
        match op.apply? old new with
        | some r => lift r place
        | none => fail (.noFunction (signature op.text [old, new])) place
    spend (1 + r.weight)
    pure r

/-- Assigns to the end of a chain of accesses, and gives what becomes of the operand. -/
def assignAlong (op : Option Operator) (new : Value) (opPlace : Place) (v : Value) :
    List Access → Exec Value
  | [] => combine op (pure v) new opPlace
  | .member name place :: rest => do
    if rest.isEmpty && op.isNone then lift (setMember v name new) place
    else
      let w ← lift (getMember v name) place
      let w' ← assignAlong op new opPlace w rest
      lift (setMember v name w') place
  | .index k place :: rest => do
    if rest.isEmpty && op.isNone then lift (setIndex v k new) place
    else
      let w ← lift (getIndex v k) place
      let w' ← assignAlong op new opPlace w rest
      lift (setIndex v k w') place
  | .method name args place :: _ => fail (.noFunction (signature name (v :: args))) place

/-! ## Expressions -/

/-- Works out expressions from left to right. -/
def evalList (env : Env) : List Expr → Exec (List Value)
  | [] => pure []
  | e :: rest => do
    let v ← i.expr env e
    let others ← evalList env rest
    pure (v :: others)

/-- Works out the arguments of accesses, from left to right. -/
def evalLinks (env : Env) : List Link → Exec (List Access)
  | [] => pure []
  | .member name place :: rest => do pure (.member name place :: (← evalLinks env rest))
  | .index e place :: rest => do
    let v ← i.expr env e
    let others ← evalLinks env rest
    pure (.index v place :: others)
  | .method name args place :: rest => do
    let vs ← evalList i env args
    let others ← evalLinks env rest
    pure (.method name vs place :: others)

/-- Works out fields from left to right. -/
def evalFields (env : Env) : List (String × Expr) → Exec (List (String × Value))
  | [] => pure []
  | (name, e) :: rest => do
    let v ← i.expr env e
    let others ← evalFields env rest
    pure ((name, v) :: others)

/-- Joins the texts of the parts. -/
def joinParts (env : Env) (acc : String) : List Expr → Exec Value
  | [] => pure (.text acc)
  | e :: rest => do
    let v ← i.expr env e
    let acc := acc ++ v.joined
    spend (1 + (Value.text acc).weight)
    joinParts env acc rest

/-- A truth value. -/
def truth (v : Value) (place : Place) : Exec Bool :=
  match v with
  | .bool b => pure b
  | v => fail (.wrongType "bool" v.typeName) place

/-- Two operands with an operator between them. -/
def evalBinary (env : Env) (op : Operator) (lhs rhs : Expr) (place : Place) : Exec Value := do
  match op with
  | .both =>
    if ← truth (← i.expr env lhs) lhs.place then
      pure (.bool (← truth (← i.expr env rhs) rhs.place))
    else pure (.bool false)
  | .either =>
    if ← truth (← i.expr env lhs) lhs.place then pure (.bool true)
    else pure (.bool (← truth (← i.expr env rhs) rhs.place))
  | .coalesce =>
    match ← i.expr env lhs with
    | .unit => i.expr env rhs
    | v => pure v
  | .within =>
    let container ← i.expr env rhs
    let item ← i.expr env lhs
    match holds? container item with
    | some b => pure (.bool b)
    | none => fail (.noFunction (signature "contains" [container, item])) place
  | op =>
    let a ← i.expr env lhs
    let b ← i.expr env rhs
    match op.apply? a b with
    | some r =>
      let v ← lift r place
      spend (1 + v.weight)
      pure v
    | none => fail (.noFunction (signature op.text [a, b])) place

/-- The constant of the script with a name. -/
def readQualified (space name : String) (place : Place) : Exec Value := do
  if space = "global" then
    match (← get).constants.find? (·.1 == name) with
    | some (_, v) => pure v
    | none => fail (.noVariable (space ++ "::" ++ name)) place
  else fail (.noNamespace space) place

/-- The arguments of a call. If the first one is a variable, it is read after the others. -/
def evalArgs (env : Env) (args : List Expr) : Exec (List Value) := do
  match args with
  | first :: rest =>
    match first with
    | .name _ _ | .qualified _ _ _ =>
      let others ← evalList i env rest
      let v ← i.expr env first
      pure (v :: others)
    | _ => evalList i env args
  | [] => pure []

/-- A chain of accesses. If it starts at a variable, what becomes of the operand is written back. -/
def evalChain (env : Env) (root : Expr) (links : List Link) : Exec Value := do
  let accesses ← evalLinks i env links
  match root with
  | .name name place =>
    let v ← read name place
    let (result, changed) ← walk i env v accesses
    match changed with
    | some v' => write name v' place
    | none => pure ()
    pure result
  | root =>
    let v ← i.expr env root
    pure (← walk i env v accesses).1

/-- A call by name. A function that changes its first argument changes the variable given there. -/
def evalCall (env : Env) (name : String) (args : List Expr) (place : Place) : Exec Value := do
  let isMethod : Bool := ["push", "sort", "map", "filter", "reduce", "call", "curry"].contains name
  match args with
  | first :: rest =>
    if isMethod && (env.function? name args.length).isNone then
      evalChain i env first [.method name rest place]
    else invoke i env name (← evalArgs i env args) place
  | [] => invoke i env name [] place

/-- The value of an expression. -/
def evalExpr (env : Env) (e : Expr) : Exec Value := do
  spend 1
  match e with
  | .literal v _ => pure (.ofLiteral v)
  | .joined parts _ => joinParts i env "" parts
  | .array items _ => pure (.array (← evalList i env items))
  | .record fields _ =>
    pure (.record ((← evalFields i env fields).foldl (fun fs f => Entries.put f.1 f.2 fs) []))
  | .name name place => read name place
  | .qualified space name place => readQualified space name place
  | .call name args place => evalCall i env name args place
  | .unary op arg place =>
    let v ← i.expr env arg
    match op.apply? v with
    | some r => lift r place
    | none => fail (.noFunction (signature op.text [v])) place
  | .binary op lhs rhs place => evalBinary i env op lhs rhs place
  | .chain root links => evalChain i env root links
  | .lambda params captured body _ =>
    let cells ← captured.mapM share
    pure (.function (.literal (captured.map (·.name)) params body) cells [])
  | .statement s _ => i.stmt env.inner s

/-! ## Statements -/

/-- The value of an expression that may be left out. -/
def evalOption (env : Env) : Option Expr → Exec Value
  | some e => i.expr env e
  | none => pure .unit

/-- Assigns to a target. -/
def evalAssign (env : Env) (target : Expr) (op : Option Operator) (value : Expr) (place : Place) :
    Exec Unit := do
  let new ← i.expr env value
  match target with
  | .name name p =>
    let v ← combine op (read name p) new place
    write name v p
  | .chain (.name name p) links =>
    let accesses ← evalLinks i env links
    let v ← read name p
    write name (← assignAlong op new place v accesses) p
  | target => fail (.noVariable "") target.place

/-- Runs a round of a loop: its end, unless the loop goes on. -/
def round (body : Exec Round) : Exec Round :=
  rescue (do spend 1; body) fun
    | .skip => pure .again
    | .leave v => pure (.over v)
    | s => throw s

/-- Runs a loop. -/
def runLoop (body : Exec Round) : Exec Value := do
  loop (round body) ((← get).steps + 1)

/-- What a `for` loop goes through. -/
def iterable? : Value → Option (List Value)
  | .array items => some items
  | .text s => some (s.toList.map .char)
  | _ => none

/-- Runs the body of a `for` loop on every value of a list. -/
def forItems (env : Env) (name : String) (counter : Option String) (body : List Stmt)
    (place : Place) : Nat → List Value → Exec Value
  | _, [] => pure .unit
  | k, v :: rest => do
    if let some c := counter then write c (.int k) place
    write name v place
    match ← round (do let _ ← i.block env body; pure .again) with
    | .again => forItems env name counter body place (k + 1) rest
    | .over v => pure v

/-- Runs the body of a `for` loop on the integers from `n` up to below `last`. -/
def forRange (env : Env) (name : String) (counter : Option String) (body : List Stmt)
    (place : Place) (first last : Int) : Nat → Int → Exec Value
  | 0, _ => pure .unit
  | fuel + 1, n => do
    if last ≤ n then pure .unit
    else
      if let some c := counter then write c (.int (n - first)) place
      write name (.int n) place
      match ← round (do let _ ← i.block env body; pure .again) with
      | .again => forRange env name counter body place first last fuel (n + 1)
      | .over v => pure v

/-- Runs a `for` loop. -/
def evalFor (env : Env) (name : String) (counter : Option String) (source : Expr)
    (body : List Stmt) : Exec Value := do
  let v ← i.expr env source
  inBlock do
    if let some c := counter then bind c false (.own .unit)
    bind name false (.own .unit)
    match v with
    | .range first last through =>
      let stop := if through then last + 1 else last
      forRange i env name counter body source.place first stop (stop - first).toNat first
    | v =>
      match iterable? v with
      | some items => forItems i env name counter body source.place 0 items
      | none => fail .notIterable source.place

/-- Two values are the same, types included. -/
def sameValue (a b : Value) : Bool :=
  a.typeName == b.typeName && equalValues a b

/-- The value of a choice is one of the given ones. -/
def matchesExactly (env : Env) (v : Value) : List Expr → Exec Bool
  | [] => pure false
  | e :: rest => do
    match ← i.expr env e with
    | .range _ _ _ => matchesExactly env v rest
    | w => if sameValue v w then pure true else matchesExactly env v rest

/-- The value of a choice lies in one of the given ranges. -/
def matchesRange (env : Env) (v : Value) : List Expr → Exec Bool
  | [] => pure false
  | e :: rest => do
    match ← i.expr env e with
    | w@(.range _ _ _) => if (holds? w v).getD false then pure true else matchesRange env v rest
    | _ => matchesRange env v rest

/-- The first case that a test and its own condition let through. -/
def firstCase (env : Env) (test : List Expr → Exec Bool) : List Case → Exec (Option Stmt)
  | [] => pure none
  | .mk values guard action :: rest => do
    if ← test values then
      match guard with
      | none => pure (some action)
      | some g =>
        if ← truth (← i.expr env g) g.place then pure (some action)
        else firstCase env test rest
    else firstCase env test rest

/-- Runs a choice: the cases with the value itself come first, then ranges, then the default. -/
def evalChoice (env : Env) (subject : Expr) (cases : List Case) : Exec Value := do
  let v ← i.expr env subject
  let exact ← firstCase i env (matchesExactly i env v) cases
  let found ← match exact with
    | some s => pure (some s)
    | none => firstCase i env (matchesRange i env v) cases
  match found with
  | some s => i.block env [s]
  | none =>
    match cases.find? fun | .mk values _ _ => values.isEmpty with
    | some (.mk _ _ action) => i.block env [action]
    | none => pure .unit

/-- What a handler makes of a failure. -/
def handle (env : Env) (f : Failure) (name : Option String) (handler : List Stmt) :
    Exec Value := inBlock do
  if let some n := name then bind n false (.own (f.innermost.caught f.innermostPlace))
  rescue (do let _ ← i.block env handler; pure .unit) fun
    | .failed (.cause (.thrown .unit) place) =>
      match f with
      | .cause c _ => throw (.failed (.cause c place))
      | .inCall _ inner => throw (.failed (.inCall place inner))
    | s => throw s

/-- Runs a statement. -/
def evalStmt (env : Env) (s : Stmt) : Exec Value := do
  spend 1
  let inner := env.inner
  match s with
  | .noop => pure .unit
  | .expr e => i.expr inner e
  | .declare constant name init _ =>
    let v ← evalOption i inner init
    if constant && env.outermost then
      modify fun m => { m with constants := (name, v) :: m.constants }
    bind name constant (.own v)
    pure .unit
  | .assign target op value place =>
    evalAssign i inner target op value place
    pure .unit
  | .branch condition yes no =>
    if ← truth (← i.expr inner condition) condition.place then i.block inner yes
    else i.block inner no
  | .choice subject cases => evalChoice i inner subject cases
  | .whileLoop condition body =>
    runLoop do
      let goOn ← match condition with
        | some e => truth (← i.expr inner e) e.place
        | none => pure true
      if goOn then
        let _ ← i.block inner body
        pure .again
      else pure (.over .unit)
  | .doLoop body condition goOn =>
    runLoop do
      let _ ← rescue (i.block inner body) fun
        | .skip => pure .unit
        | s => throw s
      if (← truth (← i.expr inner condition) condition.place) == goOn then pure .again
      else pure (.over .unit)
  | .forLoop name counter source body => evalFor i inner name counter source body
  | .leave value _ => throw (.leave (← evalOption i inner value))
  | .skip _ => throw .skip
  | .giveBack value _ => throw (.giveBack (← evalOption i inner value))
  | .raise value place => fail (.thrown (← evalOption i inner value)) place
  | .attempt body name handler =>
    rescue (i.block inner body) fun
      | .failed f =>
        if f.innermost.isLimit then throw (.failed f) else handle i inner f name handler
      | s => throw s
  | .block body => i.block inner body

/-- Runs statements; the value of the last one counts. -/
def evalStmts (env : Env) : List Stmt → Exec Value
  | [] => pure .unit
  | [s] => i.stmt env s
  | s :: rest => do
    let _ ← i.stmt env s
    evalStmts env rest

/-- Runs statements in a block of their own. -/
def evalBlock (env : Env) (body : List Stmt) : Exec Value :=
  inBlock (evalStmts i env body)

end Interpreter

/-- The meaning of the language, nested at most so many levels deep. -/
def interpreter : Nat → Interpreter
  | 0 =>
    { expr := fun _ _ => throw (.failed (.cause .terminated none))
      stmt := fun _ _ => throw (.failed (.cause .terminated none))
      block := fun _ _ => throw (.failed (.cause .terminated none)) }
  | n + 1 =>
    { expr := fun env e => (interpreter n).evalExpr env e
      stmt := fun env s => (interpreter n).evalStmt env s
      block := fun env body => (interpreter n).evalBlock env body }

/-- Runs a script with so many steps. Every level of nesting takes a step, so that as many levels as
there are steps are enough. -/
def runScript (steps : Nat) (script : Script) : Except Failure Value :=
  let run := (interpreter (3 * steps + 3)).evalStmts ⟨script.functions, 0, true⟩ script.body
  match run ⟨[], #[], [], steps⟩ with
  | .ok v _ => .ok v
  | .error (.giveBack v) _ => .ok v
  | .error (.failed f) _ => .error f
  | .error _ _ => .ok .unit

end Worksheet.Formula
