import Worksheet.Formula.Grammar.Statement
/-!
# Functions stay

What is read later never takes a function away from a script, and never comes before one.

* `Keeps`: a reader after which the functions are still there;
* `Keeps.bind` and the lemmas after it: one rule for each way in which readers are put together;
* `Grammar.Keeps`: the same for all rules of a grammar;
* `Grammar.Keeps.readOperand` and the lemmas after it: rules whose parts keep the functions keep them as well;
* **`keeps_grammar`**: by induction on the levels, the whole language.
-/

namespace Worksheet.Formula

/-- Functions that were there before the reader are there after it. -/
def Keeps {α : Type} (base : List Function) (p : Parse α) : Prop :=
  ∀ st a st', base <+: st.functions → p st = .ok (a, st') → base <+: st'.functions

variable {α β : Type} {base : List Function}

namespace Keeps

variable {p q : Parse α} {f : α → Parse β}

/-! ## Parts of readers -/

@[grind ←] theorem pure (a : α) : Keeps base (Pure.pure a : Parse α) := by
  rintro st a st' h ⟨⟩
  exact h

@[grind ←] theorem fail (fault : SyntaxFault) (place : Place) : Keeps base (Parse.fail fault place : Parse α) := by
  rintro _ _ _ _ ⟨⟩

@[grind ←] theorem bind (hp : Keeps base p) (hf : ∀ a, Keeps base (f a)) : Keeps base (p >>= f) := by
  intro st b st' h hrun
  change (p st >>= fun r => f r.1 r.2) = _ at hrun
  cases hfirst : p st with
  | error e =>
    rw [hfirst] at hrun
    cases hrun
  | ok r =>
    rw [hfirst] at hrun
    exact hf r.1 r.2 b st' (hp st r.1 r.2 h hfirst) hrun

@[grind ←] theorem get_bind {f : ParseState → Parse β} (hf : ∀ st, base <+: st.functions → Keeps base (f st)) :
    Keeps base (get >>= f) :=
  fun st b st' h hrun => hf st h st b st' h hrun

@[grind ←] theorem set {st : ParseState} (h : base <+: st.functions) : Keeps base (MonadStateOf.set st : Parse PUnit) := by
  rintro _ _ _ _ ⟨⟩
  exact h

@[grind ←] theorem modify {f : ParseState → ParseState} (h : ∀ st, base <+: st.functions → base <+: (f st).functions) :
    Keeps base (modify f : Parse PUnit) := by
  rintro st _ _ hst ⟨⟩
  exact h st hst

theorem ite {c : Prop} [Decidable c] (hp : Keeps base p) (hq : Keeps base q) : Keeps base (if c then p else q) := by
  split
  · exact hp
  · exact hq

/-! ## Tokens and names -/

@[grind ←] theorem peek : Keeps base Parse.peek := by
  unfold Parse.peek
  refine .get_bind fun st _ => ?_
  split <;> exact .pure _

@[grind ←] theorem advance : Keeps base Parse.advance := by
  unfold Parse.advance
  refine .get_bind fun st h => ?_
  split
  · exact .pure _
  · exact .pure _
  · exact .bind (.set h) fun _ => .pure _

@[grind ←] theorem accept (token : Token) : Keeps base (Parse.accept token) :=
  .bind .peek fun _ => .ite (.bind .advance fun _ => .pure _) (.pure _)

@[grind ←] theorem reject (fault : Token → SyntaxFault) : Keeps base (Parse.reject fault : Parse α) := by
  refine .bind .peek fun t => ?_
  split <;> exact .fail _ _

@[grind ←] theorem fail_bind (fault : SyntaxFault) (place : Place) : Keeps base (Parse.fail fault place >>= f) := by
  rintro _ _ _ _ ⟨⟩

@[grind ←] theorem unexpected : Keeps base (Parse.unexpected : Parse α) :=
  .reject _

@[grind ←] theorem expect (token : Token) (reason : String) : Keeps base (Parse.expect token reason) :=
  .bind (.accept token) fun _ => .ite (.pure _) (.reject _)

@[grind ←] theorem variableName : Keeps base Parse.variableName := by
  unfold Parse.variableName
  grind

@[grind ←] theorem remaining : Keeps base Parse.remaining :=
  .get_bind fun _ _ => .pure _

@[grind ←] theorem mention (name : String) (place : Place) : Keeps base (Parse.mention name place) := by
  refine .modify fun st h => ?_
  split <;> exact h

@[grind ←] theorem define (name : String) (constant : Bool) : Keeps base (Parse.define name constant) :=
  .modify fun _ h => h

@[grind ←] theorem enclosed (hp : Keeps base p) : Keeps base (Parse.enclosed p) :=
  .get_bind fun _ _ => .bind hp fun _ => .bind (.modify fun _ h => h) fun _ => .pure _

end Keeps

/-! ## Expressions -/

namespace Grammar

/-- The rules of a grammar keep the functions. -/
structure Keeps (base : List Function) (g : Grammar) : Prop where
  expr : ∀ c, Formula.Keeps base (g.expr c)
  operand : ∀ c, Formula.Keeps base (g.operand c)
  operators : ∀ c least lhs, Formula.Keeps base (g.operators c least lhs)
  stmt : ∀ c, Formula.Keeps base (g.stmt c)
  block : ∀ c, Formula.Keeps base (g.block c)

attribute [grind ←] Keeps.expr Keeps.operand Keeps.operators Keeps.stmt Keeps.block

variable {g : Grammar} {c : Context} {fuel : Nat} {name : String} {place : Place}

@[grind ←] theorem keeps_conditionAhead : Formula.Keeps base conditionAhead := by
  unfold conditionAhead
  grind

@[grind ←] theorem keeps_fieldName (seen : List String) : Formula.Keeps base (fieldName seen) := by
  unfold fieldName
  grind

@[grind ←] theorem keeps_lambdaParams (seen : List String) : Formula.Keeps base (lambdaParams seen fuel) := by
  induction fuel generalizing seen with
  | zero => exact .unexpected
  | succ fuel ih =>
    unfold lambdaParams
    refine .bind .peek fun t => ?_
    split <;> grind

theorem keeps_mentions (captured : List Capture) :
    Formula.Keeps base (captured.forM fun v => Parse.mention v.name v.place) := by
  induction captured with
  | nil => exact .pure _
  | cons v captured ih => exact .bind (.mention _ _) fun _ => ih

@[grind ←] theorem keeps_operatorAhead (c : Context) : Formula.Keeps base (operatorAhead c) := by
  unfold operatorAhead
  grind

namespace Keeps

variable (hg : g.Keeps base)

include hg

@[grind ←] theorem arguments : Formula.Keeps base (arguments g name c fuel) := by
  induction fuel with
  | zero => exact .unexpected
  | succ fuel ih =>
    unfold Grammar.arguments
    grind

@[grind ←] theorem argumentsAfter? : Formula.Keeps base (argumentsAfter? g name c) := by
  unfold Grammar.argumentsAfter?
  grind

@[grind ←] theorem items : Formula.Keeps base (items g c fuel) := by
  induction fuel with
  | zero => exact .unexpected
  | succ fuel ih =>
    unfold Grammar.items
    grind

@[grind ←] theorem fields (seen : List String) : Formula.Keeps base (fields g c seen fuel) := by
  induction fuel generalizing seen with
  | zero => exact .unexpected
  | succ fuel ih =>
    unfold Grammar.fields
    grind

@[grind ←] theorem joinedParts : Formula.Keeps base (joinedParts g c fuel) := by
  induction fuel with
  | zero => exact .unexpected
  | succ fuel ih =>
    unfold Grammar.joinedParts
    grind

@[grind ←] theorem lambda : Formula.Keeps base (lambda g) := by
  unfold Grammar.lambda
  refine .bind .advance fun t => .get_bind fun outer houter => .bind (.set houter) fun _ => ?_
  split
  · refine .bind (.pure _) fun _ => .bind (hg.stmt _) fun _ => .get_bind fun inside _ => ?_
    exact .bind (.modify fun _ h => h) fun _ => .bind (keeps_mentions _) fun _ => .pure _
  · refine .bind .remaining fun _ => .bind (keeps_lambdaParams _) fun _ => ?_
    refine .bind (hg.stmt _) fun _ => .get_bind fun inside _ => ?_
    exact .bind (.modify fun _ h => h) fun _ => .bind (keeps_mentions _) fun _ => .pure _

@[grind ←] theorem named : Formula.Keeps base (named g c name place) := by
  unfold Grammar.named
  grind

@[grind ←] theorem reservedOperand (s : String) : Formula.Keeps base (reservedOperand g c s place) := by
  unfold Grammar.reservedOperand
  grind

theorem parenthesised (p : Place) : Formula.Keeps base (do
    if ← Parse.accept (.mark .closeParen) then pure (Expr.literal .unit p)
    else
      let e ← g.expr c.inner
      Parse.expect (.mark .closeParen) "for a matching ( in this expression"
      pure e) := by
  grind

@[grind ←] theorem primary : Formula.Keeps base (primary g c) := by
  unfold Grammar.primary
  refine .bind .peek fun t => ?_
  obtain ⟨token, p⟩ := t
  have hstatement : Formula.Keeps base (g.stmt c.inner >>= fun s => pure (Expr.statement s p)) := by grind
  -- each kind of token has its own rule, and all signs without one are refused
  cases token with
  | word name => exact .bind .advance fun _ => hg.named
  | reserved s => exact .bind .advance fun _ => hg.reservedOperand s
  | int n => exact .bind .advance fun _ => .pure _
  | float x => exact .bind .advance fun _ => .pure _
  | char d => exact .bind .advance fun _ => .pure _
  | text s => exact .bind .advance fun _ => .pure _
  | piece s => exact .bind .advance fun _ => .bind .remaining fun _ => .bind hg.joinedParts fun _ => .pure _
  | keyword w =>
    cases w <;> first | exact .fail _ _ | exact hstatement | exact .bind .advance fun _ => .pure _
  | operator op => cases op <;> first | exact .fail _ _ | exact hg.lambda
  | mark m =>
    cases m with
    | openBrace => exact .bind (hg.block _) fun _ => .pure _
    | emptyParens => exact .bind .advance fun _ => .pure _
    | openParen => exact .bind .advance fun _ => hg.parenthesised p
    | openBracket => exact .bind .advance fun _ => .bind .remaining fun _ => .bind hg.items fun _ => .pure _
    | openRecord => exact .bind .advance fun _ => .bind .remaining fun _ => .bind (hg.fields _) fun _ => .pure _
    | _ => exact .fail _ _
  | _ => exact .fail _ _

@[grind ←] theorem memberAccess : Formula.Keeps base (memberAccess g c) := by
  unfold Grammar.memberAccess
  refine .bind .peek fun t => ?_
  split <;> grind

@[grind ←] theorem accesses (e : Expr) : Formula.Keeps base (accesses g c e fuel) := by
  induction fuel generalizing e with
  | zero => exact .pure e
  | succ fuel ih =>
    unfold Grammar.accesses
    grind

@[grind ←] theorem readOperand : Formula.Keeps base (readOperand g c) := by
  unfold Grammar.readOperand
  grind

@[grind ←] theorem operatorRow (least : Nat) (lhs : Expr) : Formula.Keeps base (operatorRow g c least lhs fuel) := by
  induction fuel generalizing lhs with
  | zero => exact .pure lhs
  | succ fuel ih =>
    unfold Grammar.operatorRow
    refine .bind (keeps_operatorAhead c) fun ahead => ?_
    cases ahead <;> grind

@[grind ←] theorem readOperators (least : Nat) (lhs : Expr) : Formula.Keeps base (readOperators g c least lhs) := by
  unfold Grammar.readOperators
  grind

@[grind ←] theorem readExpr : Formula.Keeps base (readExpr g c) := by
  unfold Grammar.readExpr
  grind

end Keeps

/-! ## Statements -/

@[grind ←] theorem keeps_assignment (target : Expr) (op : Option Operator) (value : Expr) :
    Formula.Keeps base (assignment target op value place) := by
  unfold assignment
  grind

@[grind ←] theorem keeps_loopNames : Formula.Keeps base loopNames := by
  unfold loopNames
  grind

@[grind ←] theorem keeps_params (function : String) (seen : List String) :
    Formula.Keeps base (params function seen fuel) := by
  induction fuel generalizing seen with
  | zero => exact .unexpected
  | succ fuel ih =>
    unfold params
    refine .bind .peek fun t => ?_
    split <;> grind

namespace Keeps

variable (hg : g.Keeps base)

include hg

@[grind ←] theorem exprStmt : Formula.Keeps base (exprStmt g c) := by
  unfold Grammar.exprStmt
  grind

@[grind ←] theorem condition : Formula.Keeps base (condition g c) := by
  unfold Grammar.condition
  grind

@[grind ←] theorem branchRest : Formula.Keeps base (branchRest g c fuel) := by
  induction fuel with
  | zero => exact .unexpected
  | succ fuel ih =>
    unfold Grammar.branchRest
    grind

@[grind ←] theorem caseValues : Formula.Keeps base (caseValues g c fuel) := by
  induction fuel with
  | zero => exact .unexpected
  | succ fuel ih =>
    unfold Grammar.caseValues
    refine .bind .peek fun t => .get_bind fun before hbefore => ?_
    split
    · exact .fail _ _
    · next e after hrun => exact .bind (.set (hg.expr _ _ _ _ hbefore hrun)) fun _ => by grind

theorem caseRest (values : List Expr) (guard : Option Expr) (closed : Option Place)
    (hcases : Formula.Keeps base (cases g c closed fuel)) :
    Formula.Keeps base (do
      Parse.expect (.mark .arrow) "in this switch case"
      let action ← g.stmt { c with outermost := false }
      if ← Parse.accept (.mark .comma) then
        let rest ← Grammar.cases g c closed fuel
        pure (Case.mk values guard action :: rest)
      else
        let next ← Parse.peek
        if next.token = .mark .closeBrace then
          let rest ← Grammar.cases g c closed fuel
          pure (Case.mk values guard action :: rest)
        else if action.standsAlone && next.token ≠ .finish then
          let rest ← Grammar.cases g c closed fuel
          pure (Case.mk values guard action :: rest)
        else Parse.reject fun
          | .finish => .missing ")" "to end this switch block"
          | _ => .missing "," "to separate the items in this switch block") := by
  grind

@[grind ←] theorem cases (closed : Option Place) : Formula.Keeps base (cases g c closed fuel) := by
  induction fuel generalizing closed with
  | zero => exact .unexpected
  | succ fuel ih =>
    have hrest : ∀ values guard closed, _ := fun values guard closed => hg.caseRest values guard closed (ih closed)
    unfold Grammar.cases
    refine .bind .peek fun t => .bind (.accept _) fun _ => .ite (.pure _) (.ite (.reject _) (.ite ?_ ?_))
    · refine .bind .advance fun _ => .bind .peek fun next => .ite (.bind (.reject _) fun _ => ?_) ?_
      · exact .bind (.pure _) fun _ => hrest _ _ _
      · exact .bind (.pure _) fun _ => hrest _ _ _
    · cases closed with
      | none =>
        refine .bind .remaining fun n => .bind hg.caseValues fun values => .bind (.accept _) fun _ => .ite ?_ ?_
        · exact .bind hg.condition fun guard => .bind (.pure _) fun _ => hrest _ _ _
        · exact .bind (.pure _) fun _ => hrest _ _ _
      | some p => exact .fail_bind _ _

@[grind ←] theorem choiceRest : Formula.Keeps base (choiceRest g c) := by
  unfold Grammar.choiceRest
  grind

@[grind ←] theorem forRest : Formula.Keeps base (forRest g c) := by
  unfold Grammar.forRest
  refine .bind keeps_loopNames fun names => .bind (.expect _ _) fun _ => .bind keeps_conditionAhead fun _ => ?_
  refine .bind (hg.expr _) fun source => .enclosed ?_
  grind

@[grind ←] theorem doRest : Formula.Keeps base (doRest g c) := by
  unfold Grammar.doRest
  grind

@[grind ←] theorem attemptRest : Formula.Keeps base (attemptRest g c) := by
  unfold Grammar.attemptRest
  refine .bind (hg.block _) fun body => .bind (.expect _ _) fun _ => .bind (.accept _) fun _ => .ite ?_ (by grind)
  refine .bind .variableName fun name => .bind (.expect _ _) fun _ => .enclosed ?_
  grind

@[grind ←] theorem declaration (constant : Bool) : Formula.Keeps base (declaration g constant c) := by
  unfold Grammar.declaration
  grind

@[grind ←] theorem function (start : Place) : Formula.Keeps base (function g start) := by
  unfold Grammar.function
  refine .bind .advance fun t => ?_
  split
  · refine .bind (.pure _) fun name => .get_bind fun outer houter => .bind (.set houter) fun _ => ?_
    refine .bind (.accept _) fun _ => .bind (.accept _) fun _ => .ite ?_ (.ite ?_ ?_)
    · grind
    · grind
    · grind
  · grind
  · grind

@[grind ←] theorem valueAfter? : Formula.Keeps base (valueAfter? g c) := by
  unfold Grammar.valueAfter?
  grind

@[grind ←] theorem readStmt : Formula.Keeps base (readStmt g c) := by
  unfold Grammar.readStmt
  refine .bind .peek fun t => ?_
  split <;> grind

@[grind ←] theorem blockItems : Formula.Keeps base (blockItems g c fuel) := by
  induction fuel with
  | zero => exact .unexpected
  | succ fuel ih =>
    unfold Grammar.blockItems
    refine .bind (.accept _) fun _ => .ite (.pure _) (.bind .peek fun _ => .ite (.reject _) ?_)
    refine .bind (hg.stmt _) fun s => ?_
    split <;> grind

@[grind ←] theorem readBlock : Formula.Keeps base (readBlock g c) := by
  unfold Grammar.readBlock
  grind

theorem scriptItems : Formula.Keeps base (scriptItems g fuel) := by
  induction fuel with
  | zero => exact .pure []
  | succ fuel ih =>
    unfold Grammar.scriptItems
    grind

end Keeps

end Grammar

/-- **The whole language keeps the functions**, level by level. -/
theorem keeps_grammar (base : List Function) (n : Nat) : (grammar n).Keeps base := by
  induction n with
  | zero =>
    exact ⟨fun _ => .unexpected, fun _ => .unexpected, fun _ _ _ => .unexpected, fun _ => .unexpected,
      fun _ => .unexpected⟩
  | succ n ih =>
    exact ⟨fun _ => ih.readExpr, fun _ => ih.readOperand, fun _ => ih.readOperators, fun _ => ih.readStmt,
      fun _ => ih.readBlock⟩

end Worksheet.Formula
