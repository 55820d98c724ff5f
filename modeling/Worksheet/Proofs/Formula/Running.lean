import Mathlib.Data.List.Forall2
import Worksheet.Formula.Interpreter
/-!
# What code does, steps aside

Code of the formula language takes steps and levels of nesting. What it does is the same for all budgets that are
large enough, and it takes from each of them the same number of steps.

* `Runs`: the outcome of code, whatever the budget;
* `Runs.bind` and the lemmas after it: one rule for each way in which code is put together;
* `Evals`, `Does` and `DoesAll`: the outcomes of expressions, of statements and of lists of statements;
* `Answers`, **`Answers.entered`**, **`BodyAnswers.call`**: calls of the functions of a script.
-/

namespace Worksheet.Formula

open Exec Interpreter

/-- The machine with other steps left. -/
def Machine.left (m : Machine) (steps : Nat) : Machine :=
  { m with steps := steps }

/-- The machine with other variables in scope. -/
def Machine.put (m : Machine) (scope : List Binding) : Machine :=
  { m with scope := scope }

@[simp] theorem Machine.put_scope (m : Machine) (scope : List Binding) : (m.put scope).scope = scope := rfl

@[simp] theorem Machine.put_constants (m : Machine) (scope : List Binding) :
    (m.put scope).constants = m.constants := rfl

@[simp] theorem Machine.put_put (m : Machine) (scope scope' : List Binding) :
    (m.put scope).put scope' = m.put scope' := rfl

@[simp] theorem Machine.put_self (m : Machine) : m.put m.scope = m := rfl

/-- How code ends. -/
def finished {α : Type} (outcome : Except Signal α) (m : Machine) : EStateM.Result Signal Machine α :=
  match outcome with
  | .ok a => .ok a m
  | .error e => .error e m

/-- From this machine the code has this outcome, and leaves that machine. The code is given for every level of
nesting; it needs some number of levels, and takes the same number of steps from every budget that has steps left
after it. -/
def Runs {α : Type} (x : Nat → Exec α) (m : Machine) (outcome : Except Signal α) (m' : Machine) : Prop :=
  ∃ level cost, ∀ n, level ≤ n → ∀ left, 0 < left → x n (m.left (left + cost)) = finished outcome (m'.left left)

variable {α β : Type} {m m₁ m₂ : Machine} {a : α} {e : Signal} {o : Except Signal β} {place : Place}

namespace Runs

/-! ## Parts of code -/

theorem pure (a : α) (m : Machine) : Runs (fun _ => Pure.pure a) m (.ok a) m :=
  ⟨0, 0, fun _ _ _ _ => rfl⟩

theorem throw (e : Signal) (m : Machine) : Runs (fun _ => (MonadExcept.throw e : Exec α)) m (.error e) m :=
  ⟨0, 0, fun _ _ _ _ => rfl⟩

theorem fail (c : Cause) (place : Place) (m : Machine) :
    Runs (fun _ => (Exec.fail c place : Exec α)) m (.error (.failed (.cause c (some place)))) m :=
  ⟨0, 0, fun _ _ _ _ => rfl⟩

theorem bind {x : Nat → Exec α} {f : Nat → α → Exec β} (hx : Runs x m (.ok a) m₁)
    (hf : Runs (fun n => f n a) m₁ o m₂) : Runs (fun n => x n >>= f n) m o m₂ := by
  obtain ⟨level, cost, hx⟩ := hx
  obtain ⟨level', cost', hf⟩ := hf
  refine ⟨max level level', cost' + cost, fun n hn left hleft => ?_⟩
  show EStateM.bind (x n) (f n) _ = _
  rw [← Nat.add_assoc, EStateM.bind, hx n (by omega) (left + cost') (by omega)]
  exact hf n (by omega) left hleft

theorem bind_error {x : Nat → Exec α} {f : Nat → α → Exec β} (hx : Runs x m (.error e) m₁) :
    Runs (fun n => x n >>= f n) m (.error e) m₁ := by
  obtain ⟨level, cost, hx⟩ := hx
  refine ⟨level, cost, fun n hn left hleft => ?_⟩
  show EStateM.bind (x n) (f n) _ = _
  rw [EStateM.bind, hx n hn left hleft]
  rfl

theorem spend (n : Nat) (m : Machine) : Runs (fun _ => Exec.spend n) m (.ok ()) m := by
  refine ⟨0, n, fun _ _ left hleft => ?_⟩
  have hless : n < (m.left (left + n)).steps := Nat.lt_add_of_pos_left hleft
  have hspend : Exec.spend n (m.left (left + n)) = .ok () (m.left (left + n - n)) := if_pos hless
  rw [Nat.add_sub_cancel] at hspend
  exact hspend

theorem lift (a : α) (place : Place) (m : Machine) : Runs (fun _ => Exec.lift (.ok a) place) m (.ok a) m :=
  pure a m

theorem rescue {x : Nat → Exec α} {handler : Nat → Signal → Exec α} (hx : Runs x m (.ok a) m₁) :
    Runs (fun n => Exec.rescue (x n) (handler n)) m (.ok a) m₁ := by
  obtain ⟨level, cost, hx⟩ := hx
  refine ⟨level, cost, fun n hn left hleft => ?_⟩
  show Exec.rescue (x n) (handler n) _ = _
  rw [Exec.rescue, hx n hn left hleft]
  rfl

theorem rescue_error {x : Nat → Exec α} {handler : Nat → Signal → Exec α} {o : Except Signal α}
    (hx : Runs x m (.error e) m₁) (hhandler : Runs (fun n => handler n e) m₁ o m₂) :
    Runs (fun n => Exec.rescue (x n) (handler n)) m o m₂ := by
  obtain ⟨level, cost, hx⟩ := hx
  obtain ⟨level', cost', hhandler⟩ := hhandler
  refine ⟨max level level', cost' + cost, fun n hn left hleft => ?_⟩
  show Exec.rescue (x n) (handler n) _ = _
  rw [← Nat.add_assoc, Exec.rescue, hx n (by omega) (left + cost') (by omega)]
  exact hhandler n (by omega) left hleft

theorem inFreshScope {x : Nat → Exec β} {scope : List Binding} (hx : Runs x (m.put scope) o m₁) :
    Runs (fun n => Exec.inFreshScope scope (x n)) m o (m₁.put m.scope) := by
  obtain ⟨level, cost, hx⟩ := hx
  refine ⟨level, cost, fun n hn left hleft => ?_⟩
  have h := hx n hn left hleft
  change x n { m.left (left + cost) with scope := scope } = _ at h
  show Exec.inFreshScope scope (x n) _ = _
  rw [Exec.inFreshScope, h]
  cases o <;> rfl

theorem inBlock {x : Nat → Exec β} (hx : Runs x m o m₁) :
    Runs (fun n => Exec.inBlock (x n)) m o (m₁.put (shrink m.scope.length m₁.scope)) := by
  obtain ⟨level, cost, hx⟩ := hx
  refine ⟨level, cost, fun n hn left hleft => ?_⟩
  show Exec.inBlock (x n) _ = _
  rw [Exec.inBlock, hx n hn left hleft]
  cases o <;> rfl

/-! ## Variables -/

variable {name : String} {constant : Bool} {v w : Value}

theorem find (hname : m.scope.find? (·.name == name) = some ⟨name, constant, .own v⟩) :
    Runs (fun _ => Exec.find? name) m (.ok (some ⟨name, constant, .own v⟩)) m :=
  ⟨0, 0, fun _ _ left _ => congrArg (fun b => EStateM.Result.ok b (m.left left)) hname⟩

theorem read (hname : m.scope.find? (·.name == name) = some ⟨name, constant, .own v⟩) (place : Place) :
    Runs (fun _ => Exec.read name place) m (.ok v) m :=
  (find hname).bind (pure v m)

theorem write (hname : m.scope.find? (·.name == name) = some ⟨name, constant, .own v⟩) (w : Value) (place : Place) :
    Runs (fun _ => Exec.write name w place) m (.ok ()) (m.put (replaceSlot name (.own w) m.scope)) :=
  (find hname).bind ⟨0, 0, fun _ _ _ _ => rfl⟩

theorem declare (name : String) (constant : Bool) (v : Value) (m : Machine) :
    Runs (fun _ => Exec.bind name constant (.own v)) m (.ok ()) (m.put (⟨name, constant, .own v⟩ :: m.scope)) :=
  ⟨0, 0, fun _ _ _ _ => rfl⟩

end Runs

/-! ## Expressions -/

/-- The outcome of an expression. -/
def Evals (env : Env) (m : Machine) (e : Expr) (outcome : Except Signal Value) (m' : Machine) : Prop :=
  Runs (fun n => (interpreter n).expr env e) m outcome m'

/-- The outcome of a statement. -/
def Does (env : Env) (m : Machine) (s : Stmt) (outcome : Except Signal Value) (m' : Machine) : Prop :=
  Runs (fun n => (interpreter n).stmt env s) m outcome m'

/-- The outcome of a list of statements. -/
def DoesAll (env : Env) (m : Machine) (body : List Stmt) (outcome : Except Signal Value) (m' : Machine) : Prop :=
  Runs (fun n => evalStmts (interpreter n) env body) m outcome m'

/-- The outcome of a block. -/
def DoesBlock (env : Env) (m : Machine) (body : List Stmt) (outcome : Except Signal Value) (m' : Machine) : Prop :=
  Runs (fun n => (interpreter n).block env body) m outcome m'

variable {env : Env} {e₁ e₂ : Expr} {v w r : Value} {name : String} {constant : Bool} {result : Except Signal Value}

/-- The operator works on both of its operands in any case, the left one first. -/
def Operator.isStrict : Operator → Bool
  | .both | .either | .coalesce | .within => false
  | _ => true

/-- The environment in the body of a function that is called from here. -/
def Env.inside (env : Env) : Env :=
  { env with depth := env.depth + 1, outermost := false }

theorem Runs.deeper {x y : Nat → Exec β} (hy : ∀ n, y (n + 1) = x n) (hx : Runs x m o m₁) : Runs y m o m₁ := by
  obtain ⟨level, cost, hx⟩ := hx
  refine ⟨level + 1, cost, fun n hn left hleft => ?_⟩
  obtain ⟨n, rfl⟩ : ∃ k, n = k + 1 := ⟨n - 1, by omega⟩
  rw [hy]
  exact hx n (by omega) left hleft

namespace Evals

theorem literal (l : Literal) (place : Place) : Evals env m (.literal l place) (.ok (.ofLiteral l)) m :=
  .deeper (fun _ => rfl) ((Runs.spend 1 m).bind (.pure _ m))

theorem read (h : m.scope.find? (·.name == name) = some ⟨name, constant, .own v⟩) (place : Place) :
    Evals env m (.name name place) (.ok v) m :=
  .deeper (fun _ => rfl) ((Runs.spend 1 m).bind (.read h place))

theorem global (h : m.constants.find? (·.1 == name) = some (name, v)) (place : Place) :
    Evals env m (.qualified "global" name place) (.ok v) m := by
  have hread : Runs (fun _ => readQualified "global" name place) m (.ok v) m := by
    refine ⟨0, 0, fun n _ left _ => ?_⟩
    have hfound : (m.left (left + 0)).constants.find? (·.1 == name) = some (name, v) := h
    have hget : ∀ f : Machine → Exec Value, ((get : Exec Machine) >>= f) (m.left (left + 0)) =
        f (m.left (left + 0)) (m.left (left + 0)) := fun _ => rfl
    show readQualified "global" name place (m.left (left + 0)) = _
    rw [readQualified, if_pos rfl, hget, hfound]
    rfl
  exact .deeper (fun _ => rfl) ((Runs.spend 1 m).bind hread)

/-! ### Operators -/

variable {op : Operator}

/-- What an operator that works out both operands does with their values. -/
def applyStrict (op : Operator) (place : Place) (a b : Value) : Exec Value :=
  match op.apply? a b with
  | some r => do
    let v ← Exec.lift r place
    Exec.spend (1 + v.weight)
    Pure.pure v
  | none => Exec.fail (.noFunction (signature op.text [a, b])) place

theorem binary (hstrict : op.isStrict = true) (h₁ : Evals env m e₁ (.ok v) m₁) (h₂ : Evals env m₁ e₂ (.ok w) m₂)
    (happly : op.apply? v w = some (.ok r)) (place : Place) : Evals env m (.binary op e₁ e₂ place) (.ok r) m₂ := by
  have hrule : ∀ i : Interpreter, evalBinary i env op e₁ e₂ place = (do
      let a ← i.expr env e₁
      let b ← i.expr env e₂
      applyStrict op place a b) := by
    intro i
    cases op <;> first | rfl | cases hstrict
  refine .deeper (fun _ => rfl) ((Runs.spend 1 m).bind ?_)
  simp only [hrule]
  refine h₁.bind (h₂.bind ?_)
  unfold applyStrict
  rw [happly]
  exact (Runs.lift r place m₂).bind ((Runs.spend _ m₂).bind (.pure r m₂))

theorem either {b c : Bool} (h₁ : Evals env m e₁ (.ok (.bool b)) m) (h₂ : b = false → Evals env m e₂ (.ok (.bool c)) m)
    (place : Place) : Evals env m (.binary .either e₁ e₂ place) (.ok (.bool (b || c))) m := by
  refine .deeper (fun _ => rfl) ((Runs.spend 1 m).bind (h₁.bind ?_))
  cases b with
  | true => exact (Runs.pure true m).bind (.pure _ m)
  | false => exact (Runs.pure false m).bind ((h₂ rfl).bind ((Runs.pure c m).bind (.pure _ m)))

/-! ### Accesses -/

/-- Following the accesses leads from one value to another, and changes nothing. -/
inductive Leads (env : Env) (m : Machine) : Value → List Link → Value → Prop
  | here (v : Value) : Leads env m v [] v
  | member {v w r : Value} {rest : List Link} {name : String} (place : Place) (hmember : getMember v name = .ok w)
    (h : Leads env m w rest r) : Leads env m v (.member name place :: rest) r
  | index {v k w r : Value} {rest : List Link} {e : Expr} (place : Place) (hk : Evals env m e (.ok k) m)
    (hindex : getIndex v k = .ok w) (h : Leads env m w rest r) : Leads env m v (.index e place :: rest) r
  | length {items : List Value} {rest : List Link} {r : Value} (place : Place) (hlen : env.function? "len" 0 = none)
    (h : Leads env m (.int items.length) rest r) : Leads env m (.array items) (.method "len" [] place :: rest) r

theorem chain {links : List Link} (h : m.scope.find? (·.name == name) = some ⟨name, constant, .own v⟩)
    (hlinks : Leads env m v links r) (place : Place) : Evals env m (.chain (.name name place) links) (.ok r) m := by
  have hwalk : ∃ accesses, Runs (fun n => evalLinks (interpreter n) env links) m (.ok accesses) m ∧
      Runs (fun n => walk (interpreter n) env v accesses) m (.ok (r, none)) m := by
    clear h
    induction hlinks with
    | here v => exact ⟨[], .pure _ m, .pure _ m⟩
    | @member v w r rest name place hmember _ ih =>
      obtain ⟨accesses, hlinks, hwalk⟩ := ih
      refine ⟨.member name place :: accesses, hlinks.bind (.pure _ m), (Runs.spend 1 m).bind ?_⟩
      rw [hmember]
      refine (Runs.lift w place m).bind (hwalk.bind ?_)
      cases v <;> exact .pure _ m
    | @index v k w r rest e place hk hindex _ ih =>
      obtain ⟨accesses, hlinks, hwalk⟩ := ih
      refine ⟨.index k place :: accesses, Runs.bind hk (hlinks.bind (.pure _ m)), (Runs.spend 1 m).bind ?_⟩
      rw [hindex]
      exact (Runs.lift w place m).bind (hwalk.bind (.pure _ m))
    | @length items rest r place hlen _ ih =>
      obtain ⟨accesses, hlinks, hwalk⟩ := ih
      refine ⟨.method "len" [] place :: accesses, (Runs.pure [] m).bind (hlinks.bind (.pure _ m)), ?_⟩
      have hmethod : Runs (fun n => callMethod (interpreter n) env "len" (.array items) [] place) m
          (.ok (.int items.length, none)) m := by
        have hnone : env.function? "len" ([] : List Value).length = none := hlen
        simp only [callMethod, hnone]
        exact (Runs.lift (Value.int items.length) place m).bind ((Runs.spend _ m).bind (.pure _ m))
      exact hmethod.bind (hwalk.bind (.pure _ m))
  obtain ⟨accesses, hlinks, hwalk⟩ := hwalk
  exact .deeper (fun _ => rfl) ((Runs.spend 1 m).bind (hlinks.bind ((Runs.read h place).bind
    (hwalk.bind (.pure r m)))))

/-! ### Calls -/

variable {args : List Expr} {vs : List Value} {f : Function}

theorem all (hargs : List.Forall₂ (fun e v => Evals env m e (.ok v) m) args vs) :
    Runs (fun n => evalList (interpreter n) env args) m (.ok vs) m := by
  induction hargs with
  | nil => exact .pure [] m
  | cons hfirst _ ih => exact Runs.bind hfirst (ih.bind (.pure _ m))

/-- The arguments of a call. It does not matter which one is worked out first, since none of them changes anything. -/
theorem arguments (hargs : List.Forall₂ (fun e v => Evals env m e (.ok v) m) args vs) :
    Runs (fun n => evalArgs (interpreter n) env args) m (.ok vs) m := by
  cases hargs with
  | nil => exact .pure [] m
  | @cons e v rest vs hfirst hrest =>
    have hall := all (.cons hfirst hrest)
    have hlast : Runs (fun n => do
        let others ← evalList (interpreter n) env rest
        let v ← (interpreter n).expr env e
        Pure.pure (v :: others)) m (.ok (v :: vs)) m := (all hrest).bind (Runs.bind hfirst (.pure _ m))
    cases e with
    | name | qualified => exact hlast
    | _ => exact hall

theorem call (hname : ["push", "sort", "map", "filter", "reduce", "call", "curry"].contains name = false)
    (hargs : List.Forall₂ (fun e v => Evals env m e (.ok v) m) args vs)
    (hcall : Runs (fun n => invoke (interpreter n) env name vs place) m result m₁) :
    Evals env m (.call name args place) result m₁ := by
  have hrule : ∀ i : Interpreter, evalCall i env name args place = (do
      let vs ← evalArgs i env args
      invoke i env name vs place) := by
    intro i
    cases args with
    | nil => rfl
    | cons => simp only [evalCall, hname, Bool.false_and, Bool.false_eq_true, if_false]
  refine .deeper (fun _ => rfl) ((Runs.spend 1 m).bind ?_)
  simp only [hrule]
  exact (arguments hargs).bind hcall

end Evals

namespace Runs

variable {args : List Value} {f : Function}

theorem native (hnone : env.function? name args.length = none) (happly : applyFunction? name args = some (.ok r))
    (place : Place) : Runs (fun n => invoke (interpreter n) env name args place) m (.ok r) m := by
  simp only [invoke, hnone, happly]
  exact (Runs.lift r place m).bind ((Runs.spend _ m).bind (.pure r m))

theorem entered {x : Nat → Env → Exec Value} {scope : List Binding} (hdepth : env.depth ≤ maxDepth)
    (hbody : Runs (fun n => Exec.rescue (Exec.inFreshScope scope (x n env.inside)) fun
        | .giveBack v => Pure.pure v
        | .failed f => MonadExcept.throw (.failed (f.leaving place))
        | s => MonadExcept.throw s) m result m₁) :
    Runs (fun n => enter env scope (x n) place) m result m₁ := by
  simp only [enter, if_neg (Nat.not_lt.mpr hdepth)]
  exact (Runs.spend 1 m).bind hbody

end Runs

/-! ## Statements -/

variable {s : Stmt} {body rest : List Stmt}

namespace Does

theorem expr (h : Evals env.inner m e₁ result m₁) : Does env m (.expr e₁) result m₁ :=
  .deeper (fun _ => rfl) ((Runs.spend 1 m).bind h)

theorem declare (h : Evals env.inner m e₁ (.ok v) m₁) (hplain : (constant && env.outermost) = false) (place : Place) :
    Does env m (.declare constant name (some e₁) place) (.ok .unit) (m₁.put (⟨name, constant, .own v⟩ :: m₁.scope)) := by
  refine .deeper (fun _ => rfl) ((Runs.spend 1 m).bind (Runs.bind h ?_))
  simp only [hplain, Bool.false_eq_true, if_false]
  exact (Runs.declare name constant v m₁).bind (.pure _ _)

theorem declare_error (h : Evals env.inner m e₁ (.error e) m₁) (place : Place) :
    Does env m (.declare constant name (some e₁) place) (.error e) m₁ :=
  .deeper (fun _ => rfl) ((Runs.spend 1 m).bind (Runs.bind_error h))

theorem add {a b : Int} (h : Evals env.inner m e₁ (.ok (.int b)) m)
    (hname : m.scope.find? (·.name == name) = some ⟨name, constant, .own (.int a)⟩) (hfits : Word.fits (a + b) = true)
    (place place' : Place) :
    Does env m (.assign (.name name place') (some .add) e₁ place) (.ok .unit)
      (m.put (replaceSlot name (.own (.int (a + b))) m.scope)) := by
  have hsum : Operator.add.apply? (.int a) (.int b) = some (.ok (.int (a + b))) := by
    simp only [ Operator.apply?, intOperation?, checkInt, hfits, if_true]
  have hcombine : Runs (fun _ => combine (some .add) (Exec.read name place') (.int b) place) m (.ok (.int (a + b))) m := by
    refine (Runs.read hname place').bind ?_
    simp only [hsum]
    exact (Runs.lift _ place m).bind ((Runs.spend _ m).bind (.pure _ m))
  exact .deeper (fun _ => rfl) ((Runs.spend 1 m).bind ((Runs.bind h (hcombine.bind (Runs.write hname _ place'))).bind
    (.pure _ _)))

theorem branch {b : Bool} {yes no : List Stmt} (h : Evals env.inner m e₁ (.ok (.bool b)) m₁)
    (hbranch : DoesBlock env.inner m₁ (if b then yes else no) result m₂) :
    Does env m (.branch e₁ yes no) result m₂ := by
  refine .deeper (fun _ => rfl) ((Runs.spend 1 m).bind (Runs.bind h ((Runs.pure b m₁).bind ?_)))
  cases b with
  | true => exact hbranch
  | false => exact hbranch

theorem giveBack (h : Evals env.inner m e₁ (.ok v) m₁) (place : Place) :
    Does env m (.giveBack (some e₁) place) (.error (.giveBack v)) m₁ :=
  .deeper (fun _ => rfl) ((Runs.spend 1 m).bind (Runs.bind h (.throw _ m₁)))

theorem raise (h : Evals env.inner m e₁ (.ok v) m₁) (place : Place) :
    Does env m (.raise (some e₁) place) (.error (.failed (.cause (.thrown v) (some place)))) m₁ :=
  .deeper (fun _ => rfl) ((Runs.spend 1 m).bind (Runs.bind h (.fail _ place m₁)))

end Does

namespace DoesAll

theorem nil (env : Env) (m : Machine) : DoesAll env m [] (.ok .unit) m :=
  .pure _ m

theorem last (h : Does env m s result m₁) : DoesAll env m [s] result m₁ :=
  h

theorem cons {s' : Stmt} (h : Does env m s (.ok v) m₁) (hrest : DoesAll env m₁ (s' :: rest) result m₂) :
    DoesAll env m (s :: s' :: rest) result m₂ :=
  Runs.bind h hrest

theorem early (h : Does env m s (.error e) m₁) : DoesAll env m (s :: rest) (.error e) m₁ := by
  cases rest with
  | nil => exact h
  | cons s' rest => exact Runs.bind_error h

end DoesAll

theorem DoesAll.block (h : DoesAll env m body result m₁) :
    DoesBlock env m body result (m₁.put (shrink m.scope.length m₁.scope)) :=
  .deeper (fun _ => rfl) (Runs.inBlock h)

theorem DoesAll.closed (h : DoesAll env m body result m₁) (hlength : m₁.scope.length = m.scope.length) :
    DoesBlock env m body result m₁ := by
  have hblock := h.block
  rwa [shrink, ← hlength, Nat.sub_self, List.drop_zero, Machine.put_self] at hblock

/-! ## Answers -/

/-- The code gives this value, or throws something if there is none, and changes nothing. -/
def Answers (x : Nat → Exec Value) (m : Machine) (answer : Option Value) : Prop :=
  match answer with
  | some v => Runs x m (.ok v) m
  | none => ∃ failure v, failure.innermost = .thrown v ∧ Runs x m (.error (.failed failure)) m

/-- The body of a function ends with this answer. -/
inductive Concludes : Except Signal Value → Option Value → Prop
  | value (v : Value) : Concludes (.ok v) (some v)
  | giveBack (v : Value) : Concludes (.error (.giveBack v)) (some v)
  | thrown {failure : Failure} {v : Value} (h : failure.innermost = .thrown v) :
    Concludes (.error (.failed failure)) none

theorem innermost_leaving {failure : Failure} (h : failure.innermost = .thrown v) (place : Place) :
    (failure.leaving place).innermost = .thrown v := by
  have hlimit : failure.innermost.isLimit = false := by rw [h]; rfl
  rw [Failure.leaving, hlimit]
  exact h

/-- **A function answers with what its body ends with.** What the body does to its own variables is lost, and a failure
in it leaves the call in a frame. -/
theorem Answers.entered {x : Nat → Env → Exec Value} {scope scope' : List Binding} {answer : Option Value}
    (hdepth : env.depth ≤ maxDepth) (hbody : Runs (fun n => x n env.inside) (m.put scope) result (m.put scope'))
    (hconcludes : Concludes result answer) (place : Place) :
    Answers (fun n => enter env scope (x n) place) m answer := by
  have hfresh : Runs (fun n => Exec.inFreshScope scope (x n env.inside)) m result ((m.put scope').put m.scope) :=
    .inFreshScope hbody
  rw [Machine.put_put, Machine.put_self] at hfresh
  cases hconcludes with
  | value v => exact Runs.entered hdepth (.rescue hfresh)
  | giveBack v => exact Runs.entered hdepth (.rescue_error hfresh (.pure v m))
  | thrown hthrown =>
    exact ⟨_, _, innermost_leaving hthrown place, Runs.entered hdepth (.rescue_error hfresh (.throw _ m))⟩

theorem Answers.call {f : Function} {args : List Value} {scope : List Binding} {answer : Option Value}
    (hf : env.function? name args.length = some f) (hdepth : env.depth ≤ maxDepth)
    (hbody : DoesAll env.inside (m.put (bindArgs f.params (args.map .own))) f.body result (m.put scope))
    (hconcludes : Concludes result answer) (place : Place) :
    Answers (fun n => invoke (interpreter n) env name args place) m answer := by
  simp only [invoke, hf, callScript]
  exact .entered (x := fun n env => (interpreter n).block env f.body) hdepth hbody.block hconcludes place

theorem Answers.evalCall {args : List Expr} {vs : List Value} {answer : Option Value}
    (hname : ["push", "sort", "map", "filter", "reduce", "call", "curry"].contains name = false)
    (hargs : List.Forall₂ (fun e v => Evals env m e (.ok v) m) args vs)
    (hcall : Answers (fun n => invoke (interpreter n) env name vs place) m answer) :
    Answers (fun n => (interpreter n).expr env (.call name args place)) m answer := by
  cases answer with
  | some v => exact Evals.call hname hargs hcall
  | none =>
    obtain ⟨failure, v, hthrown, hruns⟩ := hcall
    exact ⟨failure, v, hthrown, Evals.call hname hargs hruns⟩

/-- The statements of a function body, run with these variables in scope, end with this answer. -/
def BodyAnswers (env : Env) (m : Machine) (scope : List Binding) (body : List Stmt) (answer : Option Value) : Prop :=
  ∃ result scope', DoesAll env (m.put scope) body result (m.put scope') ∧ Concludes result answer

namespace BodyAnswers

variable {scope scope' : List Binding} {answer : Option Value}

theorem cons {s' : Stmt} (h : Does env (m.put scope) s (.ok v) (m.put scope'))
    (hrest : BodyAnswers env m scope' (s' :: rest) answer) : BodyAnswers env m scope (s :: s' :: rest) answer := by
  obtain ⟨result, scope'', hdoes, hconcludes⟩ := hrest
  exact ⟨result, scope'', .cons h hdoes, hconcludes⟩

theorem early (h : Does env (m.put scope) s (.error (.giveBack v)) (m.put scope')) :
    BodyAnswers env m scope (s :: rest) (some v) :=
  ⟨_, scope', .early h, .giveBack v⟩

theorem last (h : Answers (fun n => (interpreter n).expr env.inner e₁) (m.put scope) answer) :
    BodyAnswers env m scope [.expr e₁] answer := by
  cases answer with
  | some v => exact ⟨_, scope, .last (.expr h), .value v⟩
  | none =>
    obtain ⟨failure, v, hthrown, hruns⟩ := h
    exact ⟨_, scope, .last (.expr hruns), .thrown hthrown⟩

theorem call {f : Function} {args : List Value} (hf : env.function? name args.length = some f)
    (hdepth : env.depth ≤ maxDepth)
    (hbody : BodyAnswers env.inside m (bindArgs f.params (args.map .own)) f.body answer) (place : Place) :
    Answers (fun n => invoke (interpreter n) env name args place) m answer := by
  obtain ⟨result, scope', hdoes, hconcludes⟩ := hbody
  exact .call hf hdepth hdoes hconcludes place

end BodyAnswers

/-! ## Loops -/

variable {source : Expr} {first last k : Int} {fuel index : Nat} {items : List Value}

/-- The variable of a loop. -/
def loopVariable (name : String) (v : Value) : Binding :=
  ⟨name, false, .own v⟩

theorem Does.forRange (h : Evals env.inner m source (.ok (.range first last false)) m₁)
    (hrounds : Runs (fun n => Interpreter.forRange (interpreter n) env.inner name none body source.place first last
      (last - first).toNat first) (m₁.put (loopVariable name .unit :: m₁.scope)) result m₂) :
    Does env m (.forLoop name none source body) result (m₂.put (shrink m₁.scope.length m₂.scope)) :=
  .deeper (fun _ => rfl) ((Runs.spend 1 m).bind (Runs.bind h (Runs.inBlock
    ((Runs.declare name false .unit m₁).bind hrounds))))

theorem Does.forItems (h : Evals env.inner m source (.ok (.array items)) m₁)
    (hrounds : Runs (fun n => Interpreter.forItems (interpreter n) env.inner name none body source.place 0 items)
      (m₁.put (loopVariable name .unit :: m₁.scope)) result m₂) :
    Does env m (.forLoop name none source body) result (m₂.put (shrink m₁.scope.length m₂.scope)) :=
  .deeper (fun _ => rfl) ((Runs.spend 1 m).bind (Runs.bind h (Runs.inBlock
    ((Runs.declare name false .unit m₁).bind hrounds))))

namespace Runs

/-- What a round of a loop does that ends normally. -/
theorem round (h : DoesBlock env m body (.ok v) m₁) :
    Runs (fun n => Interpreter.round (do let _ ← (interpreter n).block env body; Pure.pure .again)) m (.ok .again) m₁ :=
  rescue ((spend 1 m).bind (Runs.bind h (pure _ m₁)))

/-- A round that gives a value back or fails ends the loop. -/
theorem round_error (h : DoesBlock env m body (.error e) m₁) (hskip : e ≠ .skip) (hleave : ∀ v, e ≠ .leave v) :
    Runs (fun n => Interpreter.round (do let _ ← (interpreter n).block env body; Pure.pure .again)) m (.error e) m₁ := by
  refine rescue_error ((spend 1 m).bind (bind_error h)) ?_
  cases e with
  | skip => exact absurd rfl hskip
  | leave v => exact absurd rfl (hleave v)
  | failed | giveBack => exact throw _ m₁

theorem forRange_over (h : last ≤ k) (m : Machine) :
    Runs (fun n => Interpreter.forRange (interpreter n) env name none body place first last fuel k) m (.ok .unit) m := by
  cases fuel with
  | zero => exact pure _ m
  | succ fuel =>
    simp only [Interpreter.forRange, if_pos h]
    exact pure _ m

theorem forRange_next (h : k < last) (hname : m.scope.find? (·.name == name) = some (loopVariable name w))
    (hround : DoesBlock env (m.put (replaceSlot name (.own (.int k)) m.scope)) body (.ok v) m₁)
    (hrest : Runs (fun n => Interpreter.forRange (interpreter n) env name none body place first last fuel (k + 1)) m₁
      result m₂) :
    Runs (fun n => Interpreter.forRange (interpreter n) env name none body place first last (fuel + 1) k) m
      result m₂ := by
  simp only [Interpreter.forRange, if_neg (Int.not_le.mpr h)]
  exact (write hname (.int k) place).bind ((round hround).bind hrest)

theorem forRange_error (h : k < last) (hname : m.scope.find? (·.name == name) = some (loopVariable name w))
    (hround : DoesBlock env (m.put (replaceSlot name (.own (.int k)) m.scope)) body (.error e) m₁) (hskip : e ≠ .skip)
    (hleave : ∀ v, e ≠ .leave v) :
    Runs (fun n => Interpreter.forRange (interpreter n) env name none body place first last (fuel + 1) k) m
      (.error e) m₁ := by
  simp only [Interpreter.forRange, if_neg (Int.not_le.mpr h)]
  exact (write hname (.int k) place).bind (bind_error (round_error hround hskip hleave))

theorem forItems_next (hname : m.scope.find? (·.name == name) = some (loopVariable name w))
    (hround : DoesBlock env (m.put (replaceSlot name (.own r) m.scope)) body (.ok v) m₁)
    (hrest : Runs (fun n => Interpreter.forItems (interpreter n) env name none body place (index + 1) items) m₁
      result m₂) :
    Runs (fun n => Interpreter.forItems (interpreter n) env name none body place index (r :: items)) m result m₂ :=
  (write hname r place).bind ((round hround).bind hrest)

theorem forItems_error (hname : m.scope.find? (·.name == name) = some (loopVariable name w))
    (hround : DoesBlock env (m.put (replaceSlot name (.own r) m.scope)) body (.error e) m₁) (hskip : e ≠ .skip)
    (hleave : ∀ v, e ≠ .leave v) :
    Runs (fun n => Interpreter.forItems (interpreter n) env name none body place index (r :: items)) m (.error e) m₁ :=
  (write hname r place).bind (bind_error (round_error hround hskip hleave))

end Runs

end Worksheet.Formula
