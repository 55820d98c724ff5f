import Worksheet.Proofs.Formula.CallText
import Worksheet.Proofs.Formula.Keeping
import Worksheet.Proofs.Formula.Tables
/-!
# Formulas as scripts

What a formula has at hand when its script runs.

* `Script.IsOrdinary`, **`equipped_library`**: the functions of the library in a script;
* **`script_formula`**: every formula starts with the declarations of the row and has the library;
* `runScript_doesAll`, **`runScript_more`**: running it, from the tables of the row on;
* **`BodyAnswers.wrapper`**: a wrapper answers with what is in it;
* `FormulaGives`, `FormulaThrows`, **`answersWith_call`**: formulas that are a call.
-/

namespace Worksheet.Formula

open Interpreter Library

variable {env : Env} {m : Machine} {columns : List Column} {row : Row} {mode : FormulaMode} {source : String}
  {script : Script} {functions : List Function}

/-! ## The functions of a formula -/

/-- The formula defines no function of its own in place of one that the library calls. -/
def Script.IsOrdinary (script : Script) : Prop :=
  ∀ f ∈ script.functions, ¬ (f.name = "len" ∧ f.params.length = 0) ∧ ¬ (f.name = "type_of" ∧ f.params.length = 1)

theorem find?_of_apart {fs : List ((Nat → Place) → Function)} {functions : List Function}
    (h : List.Forall₂ (fun f g => ∃ p, f p = g) fs functions)
    (hapart : fs.Pairwise fun f g => ∀ p q, (f p).Apart (g q)) :
    ∀ f ∈ fs, ∃ p, (functions.find? fun g => g.name == (f p).name && g.params.length == (f p).params.length) =
      some (f p) := by
  induction h with
  | nil => exact List.forall_mem_nil _
  | @cons f g fs functions hfirst _ ih =>
    obtain ⟨hf, hfs⟩ := List.pairwise_cons.mp hapart
    obtain ⟨p, rfl⟩ := hfirst
    refine List.forall_mem_cons.mpr ⟨⟨p, List.find?_cons_of_pos (by simp)⟩, fun f' hf' => ?_⟩
    obtain ⟨q, hq⟩ := ih hfs f' hf'
    refine ⟨q, (List.find?_cons_of_neg ?_).trans hq⟩
    have hother := hf f' hf' p q
    simpa [Function.Apart] using hother

theorem function?_eq_none {name : String} {arity : Nat}
    (h : ∀ f ∈ env.functions, ¬ (f.name = name ∧ f.params.length = arity)) : env.function? name arity = none :=
  List.find?_eq_none.mpr fun f hf => by simpa using h f hf

theorem equipped_library {own : List Function} (h : IsLibrary functions)
    (hown : Script.IsOrdinary ⟨functions ++ own, []⟩) (env : Env) (henv : env.functions = functions ++ own) :
    Equipped env := by
  refine ⟨fun f hf => ?_, function?_eq_none fun f hf => (hown f (henv ▸ hf)).1,
    function?_eq_none fun f hf => (hown f (henv ▸ hf)).2⟩
  obtain ⟨p, hp⟩ := find?_of_apart h (List.pairwise_map.mpr shelf_apart) f hf
  exact ⟨p, by rw [Env.function?, henv, List.find?_append, hp]; rfl⟩

/-- The names of the functions of the library. -/
def libraryNames : List String :=
  ["formula_column_index", "formula_dropdown_options", "get_cell", "get_dropdown_index", "to_dropdown_value"]

theorem IsLibrary.name_mem (h : IsLibrary functions) : ∀ f ∈ functions, f.name ∈ libraryNames := by
  have hnames : ∀ f ∈ library, ∀ p, (f p).name ∈ libraryNames := by
    simp [library, shelf, columnIndex, dropdownOptions, firstOccurrence, getCell, dropdownIndex, dropdownValue,
      libraryNames]
  have hnamed : List.Forall₂ (fun g (_ : (Nat → Place) → Function) => g.name ∈ libraryNames ∧ True) functions library := by
    refine ((List.forall₂_and_left _ _).mpr ⟨hnames, h⟩).flip.imp ?_
    rintro _ f ⟨hname, p, rfl⟩
    exact ⟨hname p, trivial⟩
  exact ((List.forall₂_and_left _ _).mp hnamed).1

theorem IsLibrary.isOrdinary (h : IsLibrary functions) (body : List Stmt) : Script.IsOrdinary ⟨functions, body⟩ := by
  have hlength : "len" ∉ libraryNames := by decide
  have htypeOf : "type_of" ∉ libraryNames := by decide
  exact fun f hf => ⟨fun hname => hlength (hname.1 ▸ h.name_mem f hf), fun hname => htypeOf (hname.1 ▸ h.name_mem f hf)⟩

/-- **The script of a formula**: the declarations of the row, and then what its author wrote, with the functions of the
library at hand. -/
theorem script_formula (hparse : parse (compile mode source columns row).script = .ok script) :
    (∃ functions own, script.functions = functions ++ own ∧ IsLibrary functions) ∧
      ∃ body more, script.body = body ++ more ∧
        body.map Stmt.declaration? = ((rowDeclarations mode columns row).zipIdx 1).map some := by
  obtain ⟨rest, hrest⟩ : ∃ rest, (compile mode source columns row).script =
      unlines ((preamble mode columns row).map String.toList) ++ rest := by
    cases mode with
    | expression => exact ⟨_, by simp only [compile, List.append_assoc]; rfl⟩
    | module => exact ⟨_, by simp only [compile, List.append_assoc]; rfl⟩
  obtain ⟨body, scope, functions, line, depth, fuel, hbody, hlibrary, -, -, heq⟩ := parse_preamble mode columns row rest
  rw [hrest, heq] at hparse
  cases hitems : Grammar.scriptItems (grammar depth) fuel (ParseState.at ⟨[], scope, [], functions⟩
      (lexFrom (rest.length + 1) ⟨⟨1 + line, 1⟩, false, []⟩ false rest)) with
  | error e =>
    rw [hitems] at hparse
    cases hparse
  | ok r =>
    rw [hitems] at hparse
    cases hparse
    obtain ⟨own, hown⟩ := (keeps_grammar functions depth).scriptItems _ _ _ (List.prefix_refl functions) hitems
    exact ⟨⟨functions, own, hown.symm, hlibrary⟩, body, _, rfl, hbody⟩

/-! ## Running a formula -/

/-- What becomes of a script. -/
def scriptResult : Except Signal Value → Except Failure Value
  | .ok v => .ok v
  | .error (.giveBack v) => .ok v
  | .error (.failed f) => .error f
  | .error _ => .ok .unit

/-- A script does what its statements do, if it has steps enough. -/
theorem runScript_doesAll {outcome : Except Signal Value} {m' : Machine}
    (h : DoesAll ⟨script.functions, 0, true⟩ .empty script.body outcome m') :
    ∃ least, ∀ steps, least ≤ steps → runScript steps script = scriptResult outcome := by
  obtain ⟨level, cost, h⟩ := h
  refine ⟨max level (cost + 1), fun steps hsteps => ?_⟩
  have hlevel : level ≤ 3 * steps + 3 := by omega
  have hrun := h (3 * steps + 3) hlevel (steps - cost) (by omega)
  rw [show steps - cost + cost = steps by omega] at hrun
  change evalStmts (interpreter (3 * steps + 3)) ⟨script.functions, 0, true⟩ script.body ⟨[], #[], [], steps⟩ = _ at hrun
  unfold runScript
  dsimp only
  rw [hrun]
  cases outcome with
  | ok v => rfl
  | error e => cases e <;> rfl

/-- A script that starts with the declarations of the row goes on from the tables of the row. -/
theorem runScript_declared {body more : List Stmt} (hscript : script = ⟨functions, body ++ more⟩)
    (hbody : body.map Stmt.declaration? = ((rowDeclarations mode columns row).zipIdx 1).map some)
    {outcome : Except Signal Value} {m' : Machine}
    (h : DoesAll ⟨functions, 0, true⟩ (rowMachine mode columns row) more outcome m') :
    ∃ least, ∀ steps, least ≤ steps → runScript steps script = scriptResult outcome := by
  subst hscript
  exact runScript_doesAll (.declarations rfl hbody h)

/-- A formula goes on from the tables of the row. -/
theorem runScript_more (hparse : parse (compile mode source columns row).script = .ok script)
    {outcome : Except Signal Value} {m' : Machine}
    (h : DoesAll ⟨script.functions, 0, true⟩ (rowMachine mode columns row)
      (script.body.drop (rowDeclarations mode columns row).length) outcome m') :
    ∃ least, ∀ steps, least ≤ steps → runScript steps script = scriptResult outcome := by
  obtain ⟨-, body, more, hscript, hbody⟩ := script_formula hparse
  have hlength : body.length = (rowDeclarations mode columns row).length := by simpa using congrArg List.length hbody
  rw [hscript, ← hlength, List.drop_left] at h
  exact runScript_declared (congrArg (Script.mk script.functions) hscript) hbody h

/-! ## Wrappers -/

variable {e : Expr} {v : Value} {answer : Option Value} {body : List Stmt} {scope : List Binding}

theorem BodyAnswers.returned (h : Answers (fun n => (interpreter n).expr env.inner e) (m.put scope) answer)
    (place : Place) : BodyAnswers env m scope [.giveBack (some e) place] answer := by
  cases answer with
  | some v => exact ⟨_, scope, .last (.giveBack h place), .giveBack v⟩
  | none =>
    obtain ⟨failure, v, hthrown, hruns⟩ := h
    have hfails : Does env (m.put scope) (.giveBack (some e) place) (.error (.failed failure)) (m.put scope) :=
      .deeper (fun _ => rfl) ((Runs.spend 1 _).bind (Runs.bind_error hruns))
    exact ⟨_, scope, .last hfails, .thrown hthrown⟩

/-- A function literal without parameters that takes nothing from around it. -/
def thunk (body : List Stmt) : Value :=
  .function (.literal [] [] (.block body)) [] []

theorem Answers.applied (hdepth : env.depth ≤ maxDepth) (h : BodyAnswers env.inside.inner m [] body answer)
    (place : Place) : Answers (fun n => applyValue (interpreter n) env (thunk body) [] place) m answer := by
  obtain ⟨result, scope, hdoes, hconcludes⟩ := h
  have hblock : Does env.inside (m.put []) (.block body) result (m.put (Exec.shrink 0 scope)) :=
    .deeper (fun _ => rfl) ((Runs.spend 1 _).bind hdoes.block)
  exact .entered (x := fun n env => (interpreter n).stmt env (.block body)) hdepth hblock hconcludes place

theorem Evals.callMethod {p₁ p₂ : Place} {name : String} {constant : Bool} {result : Except Signal Value}
    (hname : m.scope.find? (·.name == name) = some ⟨name, constant, .own (thunk body)⟩)
    (hnone : env.function? "call" 0 = none)
    (happly : Runs (fun n => applyValue (interpreter n) env (thunk body) [] p₂) m result m) :
    Evals env m (.chain (.name name p₁) [.method "call" [] p₂]) result m := by
  have hlinks : Runs (fun n => evalLinks (interpreter n) env [.method "call" [] p₂]) m (.ok [.method "call" [] p₂]) m :=
    (Runs.pure [] m).bind ((Runs.pure [] m).bind (.pure _ m))
  have hmethod : ∀ n, Interpreter.callMethod (interpreter n) env "call" (thunk body) [] p₂ =
      (do pure (← applyValue (interpreter n) env (thunk body) [] p₂, none)) := by
    intro n
    have hlength : env.function? "call" ([] : List Value).length = none := hnone
    simp only [Interpreter.callMethod, hlength]
    rfl
  have hwalk : Runs (fun n => walk (interpreter n) env (thunk body) [.method "call" [] p₂]) m
      (result.map fun v => (v, none)) m := by
    simp only [walk, hmethod]
    cases result with
    | ok v =>
      have hcall : Runs (fun n => do pure (← applyValue (interpreter n) env (thunk body) [] p₂, (none : Option Value))) m
          (.ok (v, none)) m := happly.bind (.pure _ m)
      exact hcall.bind ((Runs.pure (v, none) m).bind (.pure (v, none) m))
    | error e => exact .bind_error (.bind_error happly)
  refine .deeper (fun _ => rfl) ((Runs.spend 1 m).bind (hlinks.bind ((Runs.read hname p₁).bind ?_)))
  cases result with
  | ok v => exact hwalk.bind (.pure v m)
  | error e => exact .bind_error hwalk

/-- **A wrapper answers with what is in it**, run in a scope of its own. -/
theorem BodyAnswers.wrapper (hbody : IsWrapper e body) (hdepth : env.depth ≤ maxDepth)
    (hnone : env.function? "call" 0 = none)
    (h : Answers (fun n => (interpreter n).expr env.inside.inner.inner e) (m.put []) answer) :
    BodyAnswers env m m.scope body answer := by
  obtain ⟨p₁, p₂, p₃, p₄, p₅, rfl⟩ := hbody
  let fx := thunk [.giveBack (some e) p₁]
  let scope' : List Binding := ⟨"fx", false, .own fx⟩ :: m.scope
  have hlambda : Evals env.inner m (.lambda [] [] (.block [.giveBack (some e) p₁]) p₂) (.ok fx) m :=
    .deeper (fun _ => rfl) ((Runs.spend 1 m).bind ((Runs.pure [] m).bind (.pure _ m)))
  have hinside : BodyAnswers env.inner.inside.inner (m.put scope') [] [.giveBack (some e) p₁] answer := .returned h p₁
  have hanswers : Answers (fun n => applyValue (interpreter n) env.inner fx [] p₅) (m.put scope') answer :=
    .applied hdepth hinside p₅
  refine .cons (.declare hlambda rfl p₃) (.last ?_)
  cases answer with
  | some v => exact Evals.callMethod rfl hnone hanswers
  | none =>
    obtain ⟨failure, v, hthrown, hruns⟩ := hanswers
    exact ⟨failure, v, hthrown, Evals.callMethod rfl hnone hruns⟩

/-! ## Formulas that are a call -/

/-- The formula gives the value, if it may take steps enough. -/
def FormulaGives (columns : List Column) (row : Row) (source : String) (v : Value) : Prop :=
  ∃ script least, parse (compile .expression source columns row).script = .ok script ∧
    ∀ steps, least ≤ steps → runScript steps script = .ok v

/-- The formula throws something, if it may take steps enough. -/
def FormulaThrows (columns : List Column) (row : Row) (source : String) : Prop :=
  ∃ script least failure v, parse (compile .expression source columns row).script = .ok script ∧
    failure.innermost = .thrown v ∧ ∀ steps, least ≤ steps → runScript steps script = .error failure

theorem runScript_unique {script' : Script} {least least' : Nat} {result result' : Except Failure Value}
    (hparse : parse (compile mode source columns row).script = .ok script)
    (hruns : ∀ steps, least ≤ steps → runScript steps script = result)
    (hparse' : parse (compile mode source columns row).script = .ok script')
    (hruns' : ∀ steps, least' ≤ steps → runScript steps script' = result') : result = result' := by
  obtain rfl : script = script' := Except.ok.inj (hparse.symm.trans hparse')
  exact (hruns (max least least') (Nat.le_max_left _ _)).symm.trans (hruns' (max least least') (Nat.le_max_right _ _))

theorem FormulaGives.not_throws (h : FormulaGives columns row source v) : ¬ FormulaThrows columns row source := by
  rintro ⟨script', least', failure, w, hparse', -, hruns'⟩
  obtain ⟨script, least, hparse, hruns⟩ := h
  cases runScript_unique hparse hruns hparse' hruns'

theorem FormulaGives.unique {w : Value} (h : FormulaGives columns row source v) (h' : FormulaGives columns row source w) :
    v = w := by
  obtain ⟨script, least, hparse, hruns⟩ := h
  obtain ⟨script', least', hparse', hruns'⟩ := h'
  exact Except.ok.inj (runScript_unique hparse hruns hparse' hruns')

/-- What is given, or that something is thrown. -/
def AnswersWith (Gives : Value → Prop) (Throws : Prop) : Option Value → Prop
  | some v => Gives v ∧ ¬ Throws
  | none => Throws

theorem exists_evals {es : List Expr} {ds : List Datum} (h : exprsData? es = some ds) :
    List.Forall₂ (fun e v => Evals env m e (.ok v) m) es (ds.map Datum.value) := by
  induction es generalizing ds with
  | nil =>
    cases h
    exact .nil
  | cons e es ih =>
    obtain ⟨d, hd, hrest⟩ := Option.bind_eq_some_iff.mp h
    obtain ⟨ds, hds, hsome⟩ := Option.bind_eq_some_iff.mp hrest
    cases hsome
    exact .cons (.datum hd) (ih hds)

/-- **A formula that is a call with its arguments written out** answers with what the function answers, called in the
wrapper. -/
theorem answersWith_call {name : String} {ws : List (List Char)} {ds : List Datum} (hname : IsVariableName name.toList)
    (hhead : name.toList.head? ≠ some 'r') (h : List.Forall₂ EncodesArgument ws ds) (hne : ws ≠ [])
    (hsource : source.toList = callText name ws)
    (hmethod : ["push", "sort", "map", "filter", "reduce", "call", "curry"].contains name = false)
    (hanswers : ∀ functions place, IsLibrary functions →
      Answers (fun n => invoke (interpreter n) ⟨functions, 1, false⟩ name (ds.map Datum.value) place)
        ((rowMachine .expression columns row).put []) answer) :
    AnswersWith (FormulaGives columns row source) (FormulaThrows columns row source) answer := by
  obtain ⟨functions, body, more, es, place, hparse, hlibrary, hbody, hwrapper, hdata⟩ :=
    parse_call hname hhead h hne hsource columns row
  have hnone : (⟨functions, 0, true⟩ : Env).function? "call" 0 = none :=
    function?_eq_none fun f hf hcall => absurd (hcall.1 ▸ hlibrary.name_mem f hf) (by decide)
  have hcall : Answers (fun n => (interpreter n).expr ⟨functions, 1, false⟩ (.call name es place))
      ((rowMachine .expression columns row).put []) answer :=
    .evalCall hmethod (exists_evals hdata) (hanswers functions place hlibrary)
  obtain ⟨result, scope, hdoes, hconcludes⟩ := BodyAnswers.wrapper hwrapper (Nat.zero_le _) hnone hcall
  obtain ⟨least, hruns⟩ := runScript_declared rfl hbody hdoes
  cases hconcludes with
  | value v | giveBack v =>
    have hgives : FormulaGives columns row source v := ⟨_, least, hparse, hruns⟩
    exact ⟨hgives, hgives.not_throws⟩
  | thrown hthrown => exact ⟨_, least, _, _, hparse, hthrown, hruns⟩

end Worksheet.Formula
