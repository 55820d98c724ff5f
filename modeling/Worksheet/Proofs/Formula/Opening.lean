import Worksheet.Proofs.Formula.Header
import Worksheet.Proofs.Formula.Phrases
/-!
# Reading the library

What the grammar makes of the tokens of the library, one function after the other.

* `params_ok`, `function_ok`: a function from its parts;
* `reads_columnIndex` and the lemmas after it: the functions of the library, statement by statement;
* `scriptItems_functions`: functions one after the other;
* **`parse_preamble`**: a script with the preamble, whatever comes after it.
-/

namespace Worksheet.Formula

open Grammar Parse Library

variable {p : Nat → Place} {ts : List Token} {k n fuel : Nat} {next : Located} {rest : List Located}

/-! ## Functions -/

/-- The parameters as variables in scope. -/
def paramScope (params : List String) : List LocalName :=
  (params.map fun name => ⟨name, false⟩).reverse

/-- The parameters after the opening bracket. -/
def paramTokens (params : List String) : List Token :=
  (params.map .word).intersperse (.mark .comma) ++ [.mark .closeParen]

theorem params_ok (function : String) {params : List String} (hne : params ≠ []) {seen : List String}
    (hnodup : (seen ++ params).Nodup) (hfuel : params.length ≤ fuel) (st : ParseState) (next : Located)
    (rest : List Located) :
    Grammar.params function seen fuel (st.at (placed p k (paramTokens params) ++ next :: rest)) =
      .ok (seen ++ params, { st with scope := paramScope params ++ st.scope }.at (next :: rest)) := by
  induction params generalizing seen fuel st k with
  | nil => exact absurd rfl hne
  | cons name params ih =>
    rw [List.length_cons] at hfuel
    obtain ⟨fuel, rfl⟩ : ∃ m, fuel = m + 1 := ⟨fuel - 1, by omega⟩
    have hnew : ¬ seen.contains name := by
      rw [List.contains_iff_mem]
      exact fun hmem => List.disjoint_of_nodup_append hnodup hmem List.mem_cons_self
    cases params with
    | nil =>
      have hclose : (⟨.mark .closeParen, p (k + 1)⟩ : Located).token = .mark .closeParen := rfl
      rw [show placed p k (paramTokens [name]) = [⟨.word name, p k⟩, ⟨.mark .closeParen, p (k + 1)⟩] from rfl,
        List.cons_append, List.singleton_append]
      unfold Grammar.params
      rw [bind_ok (peek_ok st _ _)]
      dsimp only
      rw [bind_ok (advance_ok st _ _ _), if_neg hnew, bind_ok (define_ok name false st _), bind_ok (accept_ok _ hclose)]
      rfl
    | cons second params =>
      have hshape : placed p k (paramTokens (name :: second :: params)) =
          ⟨.word name, p k⟩ :: ⟨.mark .comma, p (k + 1)⟩ :: placed p (k + 2) (paramTokens (second :: params)) := by
        rw [paramTokens, List.map_cons, List.map_cons, List.intersperse_cons_cons, List.cons_append, List.cons_append,
          placed_cons, placed_cons]
        rfl
      have hcomma : (⟨.mark .comma, p (k + 1)⟩ : Located).token = .mark .comma := rfl
      have hopen : (⟨.mark .comma, p (k + 1)⟩ : Located).token ≠ .mark .closeParen := by simp
      rw [List.append_cons] at hnodup
      have hmore := ih (k := k + 2) (List.cons_ne_nil _ _) hnodup (Nat.le_of_succ_le_succ hfuel)
        { st with scope := ⟨name, false⟩ :: st.scope }
      obtain ⟨t, more, htail⟩ : ∃ t ts, placed p (k + 2) (paramTokens (second :: params)) ++ next :: rest = t :: ts :=
        List.exists_cons_of_ne_nil (by simp)
      rw [hshape, List.cons_append, List.cons_append]
      rw [htail] at hmore ⊢
      unfold Grammar.params
      rw [bind_ok (peek_ok st _ _)]
      dsimp only
      rw [bind_ok (advance_ok st _ _ _), if_neg hnew, bind_ok (define_ok name false st _), bind_ok (accept_no _ hopen),
        if_neg Bool.false_ne_true, bind_ok (expect_ok _ hcomma _), hmore, ← List.append_cons]
      simp [paramScope]

/-- The tokens are read as a function, if the script has no function with its name and its number of parameters. -/
def ReadsFunction (ts : List Token) (f : (Nat → Place) → Function) : Prop :=
  ts.head? = some (.keyword .fn_) ∧ ∀ p n (st : ParseState) next rest, 4 * ts.length ≤ n →
    (st.functions.any fun g => g.name == (f p).name && g.params.length == (f p).params.length) = false →
    (grammar n).stmt { outermost := true } (st.at (placed p 0 ts ++ next :: rest)) =
      .ok (.noop, { st with functions := st.functions ++ [f p] }.at (next :: rest))

theorem length_paramTokens {params : List String} (hne : params ≠ []) :
    (paramTokens params).length = 2 * params.length := by
  have hpos := List.length_pos_iff.mpr hne
  rw [paramTokens, List.length_append, List.length_intersperse, List.length_map, List.length_singleton]
  omega

/-- A function from its name on, from its parameters and its body. -/
theorem function_ok {name : String} {params : List String} (hne : params ≠ []) (hnodup : params.Nodup)
    {body : (Nat → Place) → List Stmt} (hbody : ReadsBlock (paramScope params) (2 * params.length + 3) ts body)
    (hn : 4 * (braced ts).length ≤ n) (start : Place) (st : ParseState)
    (hnew : (st.functions.any fun g => g.name == name && g.params.length == params.length) = false) :
    Grammar.function (grammar n) start (st.at (⟨.word name, p 1⟩ :: ⟨.mark .openParen, p 2⟩ ::
        (placed p 3 (paramTokens params) ++ (placed p (2 * params.length + 3) (braced ts) ++ next :: rest)))) =
      .ok ((), { st with functions := st.functions ++ [Function.mk name params (body p)] }.at (next :: rest)) := by
  let inside : ParseState := { st with scope := [], captured := [] }
  have hempty : (⟨.mark .openParen, p 2⟩ : Located).token ≠ .mark .emptyParens := by simp
  have hopen : (⟨.mark .openParen, p 2⟩ : Located).token = .mark .openParen := rfl
  obtain ⟨brace, more, hbrace, hmore⟩ : ∃ (t : Located) (us : List Located), t.token = .mark .openBrace ∧
    placed p (2 * params.length + 3) (braced ts) ++ next :: rest = t :: us := ⟨_, _, rfl, rfl⟩
  obtain ⟨t, us, htail⟩ : ∃ (t : Located) (us : List Located), placed p 3 (paramTokens params) ++ brace :: more = t :: us :=
    List.exists_cons_of_ne_nil (by simp)
  have hfuel : params.length ≤ (t :: us).length := by
    rw [← htail, List.length_append, placed, List.length_map, List.length_zipIdx, length_paramTokens hne]
    omega
  have hfresh : (([] : List String) ++ params).Nodup := hnodup
  have hparams := params_ok (p := p) (k := 3) name hne hfresh hfuel inside brace more
  have hblock : (grammar n).block { inFunction := true }
      ({ inside with scope := paramScope params }.at (brace :: more)) =
      .ok (body p, { inside with scope := paramScope params }.at (next :: rest)) := by
    rw [← hmore]
    exact hbody n _ p next rest st.functions hn
  have hscope : paramScope params ++ inside.scope = paramScope params := List.append_nil _
  rw [htail, hscope, List.nil_append] at hparams
  rw [hmore]
  unfold Grammar.function
  rw [htail, bind_ok (advance_ok st _ _ _)]
  dsimp only
  rw [bind_ok (pure_ok _ _), bind_ok (get_ok _), bind_ok (set_ok _ _)]
  show (accept (.mark .emptyParens) >>= _) (inside.at (⟨.mark .openParen, p 2⟩ :: t :: us)) = _
  rw [bind_ok (accept_no _ hempty), bind_ok (accept_ok _ hopen), if_neg Bool.false_ne_true, if_pos rfl,
    bind_ok (remaining_ok _ _), bind_ok hparams, bind_ok (peek_ok _ _ _), if_pos hbrace, bind_ok hblock, bind_ok (get_ok _)]
  exact congrFun (if_neg (Bool.eq_false_iff.mp hnew)) _

theorem ReadsFunction.of_body {name : String} {params : List String} (hne : params ≠ []) (hnodup : params.Nodup)
    {body : (Nat → Place) → List Stmt} (hbody : ReadsBlock (paramScope params) (2 * params.length + 3) ts body) :
    ReadsFunction (fnTokens name params ts) fun p => ⟨name, params, body p⟩ := by
  refine ⟨rfl, fun p n st next rest hn hnew => ?_⟩
  have hshape : placed p 0 (fnTokens name params ts) = ⟨.keyword .fn_, p 0⟩ :: ⟨.word name, p 1⟩ ::
      ⟨.mark .openParen, p 2⟩ :: (placed p 3 (paramTokens params) ++ placed p (2 * params.length + 3) (braced ts)) := by
    rw [Nat.add_comm _ 3, ← length_paramTokens hne, ← placed_append, ← placed_cons, ← placed_cons, ← placed_cons]
    simp only [fnTokens, listed, paramTokens, List.append_assoc, List.cons_append]
  have hlength : (braced ts).length + 1 ≤ (fnTokens name params ts).length := by
    simp only [fnTokens, listed, List.length_append, List.length_cons]
    omega
  obtain ⟨n, rfl⟩ : ∃ m, n = m + 1 := ⟨n - 1, by omega⟩
  rw [hshape, List.cons_append, List.cons_append, List.cons_append, List.append_assoc]
  show readStmt (grammar n) { outermost := true } _ = _
  unfold readStmt
  rw [bind_ok (peek_ok st _ _)]
  dsimp only
  rw [if_pos rfl, bind_ok (advance_ok st _ _ _)]
  show (Grammar.function (grammar n) (p 0) >>= fun _ => pure Stmt.noop) _ = _
  rw [bind_ok (function_ok hne hnodup hbody (by omega) (p 0) st hnew)]
  rfl

/-! ## The functions of the library -/

theorem ReadsFunction.of_items {name : String} {params : List String} (hne : params ≠ []) (hnodup : params.Nodup)
    {body : (Nat → Place) → List Stmt} (hbody : ReadsItems (paramScope params) (2 * params.length + 4) ts body)
    (hprune : ∀ p, Stmt.prune (body p) = body p) :
    ReadsFunction (fnTokens name params ts) fun p => ⟨name, params, body p⟩ :=
  .of_body hne hnodup (.of_items hbody hprune)

section Bodies

/-- The variables of a function that looks for a column. -/
abbrev columnNames : List LocalName :=
  paramScope ["name_or_index", "occurrence"]

theorem reads_columnGiven : ReadsItems (⟨"cells", false⟩ :: columnNames) 32 (
    ifTokens [.word "name_or_index", .operator .less, .int 0] (throwTokens [.text "Column index starts at 0!"]) ++
    (ifTokens (.word "name_or_index" :: .operator .greaterEqual :: lengthTokens "cells")
      (throwTokens [.text "Column index out of range: ", .operator .add, .word "name_or_index"]) ++
    returnTokens [.word "name_or_index"])) columnGiven := by
  refine .branch (.of_add fun _ _ _ _ _ _ => rfl) ⟨_, rfl, by decide⟩ ?_ (fun _ => rfl) rfl ?_
  · exact .only (.raise (.of_add fun _ _ _ _ _ _ => rfl) ⟨_, rfl, rfl⟩ .nil)
  refine .branch (.of_add fun _ _ _ _ _ _ => rfl) ⟨_, rfl, by decide⟩ ?_ (fun _ => rfl) rfl ?_
  · exact .only (.raise (.of_add fun _ _ _ _ _ _ => rfl) ⟨_, rfl, rfl⟩ .nil)
  · exact .only (.giveBack (.of_add fun _ _ _ _ _ _ => rfl) ⟨_, rfl, rfl⟩ .nil)

/-- The variables of the loop that looks for a title. -/
abbrev roundNames : List LocalName :=
  ⟨"index", false⟩ :: ⟨"seen", false⟩ :: ⟨"cells", false⟩ :: columnNames

theorem reads_columnRound : ReadsItems roundNames 74 (
    ifTokens (itemTokens "cells" "index" ++ memberTokens "column_name" ++ [.operator .equal, .word "name_or_index"]) (
      ifTokens [.word "seen", .operator .equal, .word "occurrence"] (returnTokens [.word "index"]) ++
      addOneTokens "seen")) columnRound := by
  have htitle : ReadsOperand roundNames 75 (itemTokens "cells" "index" ++ memberTokens "column_name")
      (.operator .equal) fun p => .chain (.name "cells" (p 75))
        [.index (.name "index" (p 77)) (p 77), .member "column_name" (p 80)] := fun _ _ _ _ _ _ => rfl
  have hsought : ReadsOperand roundNames 82 [.word "name_or_index"] (.mark .openBrace)
      fun p => .name "name_or_index" (p 82) := fun _ _ _ _ _ _ => rfl
  refine .only (.branch (.binary htitle (by simp [itemTokens]) hsought rfl) ⟨_, rfl, by decide⟩ ?_ (fun _ => rfl) rfl .nil)
  refine .branch (.of_add fun _ _ _ _ _ _ => rfl) ⟨_, rfl, by decide⟩ ?_ (fun _ => rfl) rfl ?_
  · exact .only (.giveBack (.of_add fun _ _ _ _ _ _ => rfl) ⟨_, rfl, rfl⟩ .nil)
  · exact .addOne (.of_add fun _ _ _ _ _ _ => rfl) (fun _ => by simp)

theorem reads_columnIndex : ReadsFunction columnIndexTokens columnIndex := by
  refine .of_items (List.cons_ne_nil _ _) (by decide) (show ReadsItems _ _ _ fun p => (columnIndex p).body from ?_)
    fun _ => rfl
  simp only [List.append_assoc]
  refine .branch (.of_add fun _ _ _ _ _ _ => rfl) ⟨_, rfl, by decide⟩ ?_ (fun _ => rfl) rfl ?_
  · exact .only (.raise (.of_add fun _ _ _ _ _ _ => rfl) ⟨_, rfl, rfl⟩ .nil)
  refine .declare "cells" (.of_add fun _ _ _ _ _ _ => rfl) ?_
  refine .branch (.of_add fun _ _ _ _ _ _ => rfl) ⟨_, rfl, by decide⟩ reads_columnGiven (fun _ => rfl) rfl ?_
  refine .declare "seen" (.of_add fun _ _ _ _ _ _ => rfl) ?_
  refine .loop "index" (.of_add fun _ _ _ _ _ _ => rfl) ⟨_, rfl, by decide⟩ reads_columnRound (fun _ => rfl) rfl ?_
  exact ReadsStmt.last (.of_add fun _ _ _ _ _ _ => rfl) ⟨_, rfl, rfl⟩ (fun _ => by simp)

theorem reads_optionsRound : ReadsItems [⟨"column", false⟩, ⟨"index", false⟩] 13 (
    ifTokens (.word "column" :: memberTokens "index" ++ [.operator .equal, .word "index"])
      (returnTokens (.word "column" :: memberTokens "values"))) optionsRound := by
  refine .only (.branch (.of_add fun _ _ _ _ _ _ => rfl) ⟨_, rfl, by decide⟩ ?_ (fun _ => rfl) rfl .nil)
  exact .only (.giveBack (.of_add fun _ _ _ _ _ _ => rfl) ⟨_, rfl, rfl⟩ .nil)

theorem reads_dropdownOptions : ReadsFunction dropdownOptionsTokens dropdownOptions := by
  refine .of_items (List.cons_ne_nil _ _) (by decide) (show ReadsItems _ _ _ fun p => (dropdownOptions p).body from ?_)
    fun _ => rfl
  refine .loop "column" (.of_add fun _ _ _ _ _ _ => rfl) ⟨_, rfl, by decide⟩ reads_optionsRound (fun _ => rfl) rfl ?_
  exact ReadsStmt.last (.of_add fun _ _ _ _ _ _ => rfl) ⟨_, rfl, rfl⟩ (fun _ => by simp)

theorem reads_firstOccurrence_one (name : String) :
    ReadsFunction (firstOccurrenceTokens name ["name_or_index"]) fun p => firstOccurrence p name ["name_or_index"] := by
  refine .of_items (List.cons_ne_nil _ _) (by decide) (ReadsStmt.last (.of_add fun _ _ _ _ _ _ => rfl) ⟨_, rfl, rfl⟩ ?_)
    fun _ => rfl
  exact fun _ => by simp

theorem reads_firstOccurrence_two (name : String) :
    ReadsFunction (firstOccurrenceTokens name ["value", "name_or_index"])
      fun p => firstOccurrence p name ["value", "name_or_index"] := by
  refine .of_items (List.cons_ne_nil _ _) (by decide) (ReadsStmt.last (.of_add fun _ _ _ _ _ _ => rfl) ⟨_, rfl, rfl⟩ ?_)
    fun _ => rfl
  exact fun _ => by simp

variable {us : List Token} {ss : (Nat → Place) → List Stmt}

/-- The variables of a function once it has looked for a column. -/
abbrev foundNames (params : List String) : List LocalName :=
  ⟨"index", false⟩ :: paramScope (params ++ ["name_or_index", "occurrence"])

theorem reads_findColumn (params : List String) {absent : Token} {l : Literal} (hstart : absent.startsExpr = true)
    (habsent : ReadsExpr (foundNames params) (k + 16) [absent] (.mark .semicolon) fun p => .literal l (p (k + 16)))
    (hus : goesOn us = true) (hmore : ReadsItems (foundNames params) (k + 19) us ss) :
    ReadsItems (paramScope (params ++ ["name_or_index", "occurrence"])) k (findColumnTokens absent ++ us)
      fun p => findColumn p k l ++ ss p := by
  have hscope : paramScope (params ++ ["name_or_index", "occurrence"]) =
      ⟨"occurrence", false⟩ :: ⟨"name_or_index", false⟩ :: paramScope params := by simp [paramScope]
  rw [foundNames, hscope] at habsent hmore
  rw [hscope, findColumnTokens, List.append_assoc]
  refine .declare "index" (.of_add fun _ _ _ _ _ _ => rfl) ?_
  refine .branch (.of_add fun _ _ _ _ _ _ => rfl) ⟨_, rfl, by decide⟩ ?_ (fun _ => rfl) hus hmore
  exact .only (.giveBack habsent ⟨_, rfl, hstart⟩ .nil)

theorem reads_findOptions {scope : List LocalName} (hus : goesOn us = true)
    (hmore : ReadsItems (⟨"options", false⟩ :: ⟨"index", false⟩ :: scope) (k + 20) us ss) :
    ReadsItems (⟨"index", false⟩ :: scope) k (findOptionsTokens ++ us) fun p => findOptions p k ++ ss p := by
  rw [findOptionsTokens, List.append_assoc]
  refine .declare "options" (.of_add fun _ _ _ _ _ _ => rfl) ?_
  refine .branch (.of_add fun _ _ _ _ _ _ => rfl) ⟨_, rfl, by decide⟩ ?_ (fun _ => rfl) hus hmore
  exact .only (.giveBack (.of_add fun _ _ _ _ _ _ => rfl) ⟨_, rfl, rfl⟩ .nil)

theorem reads_getCell : ReadsFunction getCellTokens getCell := by
  refine .of_items (List.cons_ne_nil _ _) (by decide) (show ReadsItems _ _ _ fun p => (getCell p).body from ?_) fun _ => rfl
  simp only [List.append_assoc]
  refine reads_findColumn [] rfl (.of_add fun _ _ _ _ _ _ => rfl) rfl ?_
  refine .declare "cells" (.of_add fun _ _ _ _ _ _ => rfl) ?_
  exact ReadsStmt.last (.of_add fun _ _ _ _ _ _ => rfl) ⟨_, rfl, rfl⟩ (fun _ => by simp)

theorem reads_positionRound : ReadsItems (⟨"option", false⟩ :: ⟨"position", false⟩ :: ⟨"value", false⟩ ::
    ⟨"cells", false⟩ :: ⟨"options", false⟩ :: foundNames []) 74 (
      ifTokens [.word "option", .operator .equal, .word "value"] (returnTokens [.word "position"]) ++
      addOneTokens "position") positionRound := by
  refine .branch (.of_add fun _ _ _ _ _ _ => rfl) ⟨_, rfl, by decide⟩ ?_ (fun _ => rfl) rfl ?_
  · exact .only (.giveBack (.of_add fun _ _ _ _ _ _ => rfl) ⟨_, rfl, rfl⟩ .nil)
  · exact .addOne (.of_add fun _ _ _ _ _ _ => rfl) (fun _ => by simp)

theorem reads_dropdownIndex : ReadsFunction dropdownIndexTokens dropdownIndex := by
  refine .of_items (List.cons_ne_nil _ _) (by decide) (show ReadsItems _ _ _ fun p => (dropdownIndex p).body from ?_)
    fun _ => rfl
  simp only [List.append_assoc]
  refine reads_findColumn [] rfl (.of_add fun _ _ _ _ _ _ => rfl) rfl ?_
  refine reads_findOptions rfl ?_
  refine .declare "cells" (.of_add fun _ _ _ _ _ _ => rfl) ?_
  refine .declare "value" (.of_add fun _ _ _ _ _ _ => rfl) ?_
  refine .declare "position" (.of_add fun _ _ _ _ _ _ => rfl) ?_
  refine .loop "option" (.of_add fun _ _ _ _ _ _ => rfl) ⟨_, rfl, by decide⟩ reads_positionRound (fun _ => rfl) rfl ?_
  exact ReadsStmt.last (.of_add fun _ _ _ _ _ _ => rfl) ⟨_, rfl, rfl⟩ (fun _ => by simp)

/-- The variables of the function that looks for an option. -/
abbrev optionNames : List LocalName :=
  ⟨"options", false⟩ :: foundNames ["value"]

theorem reads_bound : ReadsRow optionNames 30 67 (.operator .greaterEqual :: lengthTokens "options") (.mark .openBrace)
    (fun p => .name "value" (p 66)) fun p =>
      .binary .greaterEqual (.name "value" (p 66)) (.chain (.name "options" (p 68)) [.method "len" [] (p 70)]) (p 67) :=
  .last (by decide) (fun _ _ _ _ _ _ => rfl) rfl

theorem reads_outside : ReadsExpr optionNames 62
    ([.word "value", .operator .less, .int 0, .operator .either, .word "value", .operator .greaterEqual] ++
      lengthTokens "options") (.mark .openBrace) fun p =>
    .binary .either (.binary .less (.name "value" (p 62)) (.literal (.int 0) (p 64)) (p 63))
      (.binary .greaterEqual (.name "value" (p 66)) (.chain (.name "options" (p 68)) [.method "len" [] (p 70)]) (p 67))
      (p 65) := by
  have hrow : ReadsRow optionNames 1 65
      (.operator .either :: ([.word "value"] ++ .operator .greaterEqual :: lengthTokens "options")) (.mark .openBrace)
      (fun p => .binary .less (.name "value" (p 62)) (.literal (.int 0) (p 64)) (p 63)) _ :=
    .deeper (by decide) (fun _ _ _ _ _ _ => rfl) (by decide) reads_bound rfl
  have hrows : ReadsRow optionNames 1 63 (.operator .less :: ([.int 0] ++ (.operator .either ::
      ([.word "value"] ++ .operator .greaterEqual :: lengthTokens "options")))) (.mark .openBrace)
      (fun p => .name "value" (p 62)) _ :=
    .step (by decide) (fun _ _ _ _ _ _ => rfl) (.inr ⟨.either, rfl, by decide⟩) hrow
  have hall : ReadsExpr optionNames 62 ([.word "value"] ++ (.operator .less :: ([.int 0] ++ (.operator .either ::
      ([.word "value"] ++ .operator .greaterEqual :: lengthTokens "options"))))) (.mark .openBrace) _ :=
    ReadsOperand.expr (fun _ _ _ _ _ _ => rfl) (List.cons_ne_nil _ _) hrows
  exact hall

theorem reads_dropdownValue : ReadsFunction dropdownValueTokens dropdownValue := by
  refine .of_items (List.cons_ne_nil _ _) (by decide) (show ReadsItems _ _ _ fun p => (dropdownValue p).body from ?_)
    fun _ => rfl
  simp only [List.append_assoc]
  refine reads_findColumn ["value"] rfl (.of_add fun _ _ _ _ _ _ => rfl) rfl ?_
  refine reads_findOptions rfl ?_
  refine .branch (.of_add fun _ _ _ _ _ _ => rfl) ⟨_, rfl, by decide⟩ ?_ (fun _ => rfl) rfl ?_
  · exact .only (.giveBack (.of_add fun _ _ _ _ _ _ => rfl) ⟨_, rfl, rfl⟩ .nil)
  refine .branch reads_outside ⟨_, rfl, by decide⟩ ?_ (fun _ => rfl) rfl ?_
  · exact .only (.giveBack (.of_add fun _ _ _ _ _ _ => rfl) ⟨_, rfl, rfl⟩ .nil)
  exact ReadsStmt.last (.of_add fun _ _ _ _ _ _ => rfl) ⟨_, rfl, rfl⟩ (fun _ => by simp)

theorem reads_shelf : ∀ f ∈ shelf, ReadsFunction f.1 f.2 := by
  simp only [shelf, List.forall_mem_cons]
  exact ⟨reads_columnIndex, reads_dropdownOptions, reads_firstOccurrence_one _, reads_getCell, reads_firstOccurrence_one _,
    reads_dropdownIndex, reads_firstOccurrence_two _, reads_dropdownValue, List.forall_mem_nil _⟩

end Bodies

/-! ## All of the library -/

/-- A call can mean only one of two functions: they differ in their names or in their numbers of parameters. -/
def Function.Apart (f g : Function) : Prop :=
  ¬ (f.name = g.name ∧ f.params.length = g.params.length)

/-- **Functions are read one after the other**, and what comes after them is read on its own. -/
theorem scriptItems_functions {shelf : List (List Token × ((Nat → Place) → Function))}
    (h : ∀ f ∈ shelf, ReadsFunction f.1 f.2) (hshelf : shelf.Pairwise fun f g => ∀ p q, (f.2 p).Apart (g.2 q))
    {located : List Located} (hlocated : located.map (·.token) = shelf.flatMap (·.1)) (hn : 4 * located.length ≤ n)
    (st : ParseState) (hnew : ∀ g ∈ st.functions, ∀ f ∈ shelf, ∀ p, g.Apart (f.2 p)) (fuel : Nat) (next : Located)
    (rest : List Located) :
    ∃ functions, List.Forall₂ (fun f g => ∃ p, f.2 p = g) shelf functions ∧
      scriptItems (grammar n) (shelf.length + fuel) (st.at (located ++ next :: rest)) =
        scriptItems (grammar n) fuel ({ st with functions := st.functions ++ functions }.at (next :: rest)) := by
  induction shelf generalizing located st with
  | nil =>
    obtain rfl : located = [] := List.map_eq_nil_iff.mp hlocated
    refine ⟨[], .nil, ?_⟩
    rw [List.length_nil, Nat.zero_add, List.append_nil, List.nil_append]
  | cons f shelf ih =>
    obtain ⟨hread, hreads⟩ := List.forall_mem_cons.mp h
    obtain ⟨hfirst, hothers⟩ := List.pairwise_cons.mp hshelf
    obtain ⟨first, located, rfl, htokens, hlocated⟩ := List.map_eq_append_iff.mp hlocated
    change first.map (·.token) = f.1 at htokens
    obtain ⟨p, hp⟩ := exists_placed first
    have hnone : (st.functions.any fun g => g.name == (f.2 p).name && g.params.length == (f.2 p).params.length) = false := by
      rw [List.any_eq_false]
      intro g hg
      simpa [Function.Apart] using hnew g hg f List.mem_cons_self p
    obtain ⟨keyword, more, hkeyword, hmore⟩ :
        ∃ (t : Located) (us : List Located), t.token = .keyword .fn_ ∧ first = t :: us := by
      obtain ⟨ts, hts⟩ := List.head?_eq_some_iff.mp hread.1
      rw [hts] at htokens
      obtain ⟨t, us, rfl, ht, -⟩ := List.map_eq_cons_iff.mp htokens
      exact ⟨t, us, ht, rfl⟩
    obtain ⟨t, us, htail⟩ : ∃ t us, located ++ next :: rest = t :: us := List.exists_cons_of_ne_nil (by simp)
    rw [List.length_append] at hn
    have hdepth : 4 * f.1.length ≤ n := by
      rw [← htokens, List.length_map]
      omega
    have hstmt := hread.2 p n st t us hdepth hnone
    rw [← htokens, hp, ← htail, hmore] at hstmt
    obtain ⟨functions, hfunctions, hitems⟩ := ih hreads hothers hlocated (by omega)
        { st with functions := st.functions ++ [f.2 p] } (by
      refine List.forall_mem_append.mpr ⟨fun g hg f hf => hnew g hg f (List.mem_cons_of_mem _ hf), ?_⟩
      exact List.forall_mem_singleton.mpr fun g hg q => hfirst g hg p q)
    refine ⟨f.2 p :: functions, .cons ⟨p, rfl⟩ hfunctions, ?_⟩
    rw [List.length_cons, Nat.add_right_comm, List.append_assoc, hmore]
    rw [List.cons_append] at hstmt ⊢
    rw [scriptItems, bind_ok (peek_ok st keyword _), if_neg (by rw [hkeyword]; simp), bind_ok hstmt]
    dsimp only
    rw [hitems, List.append_assoc, List.singleton_append]

theorem shelf_apart : shelf.Pairwise fun f g => ∀ p q, (f.2 p).Apart (g.2 q) := by
  simp [shelf, Function.Apart, columnIndex, dropdownOptions, firstOccurrence, getCell, dropdownIndex, dropdownValue]

/-! ## Scripts with the preamble -/

/-- The functions are those of the library, with some places. -/
def IsLibrary (functions : List Function) : Prop :=
  List.Forall₂ (fun f g => ∃ p, f p = g) library functions

theorem length_shelf_le : shelf.length ≤ libraryTokens.length := by
  decide +kernel

/-- **A script with the preamble** starts with the declarations of the row and has the functions of the library. What
comes after them is read with these functions at hand. -/
theorem parse_preamble (mode : FormulaMode) (columns : List Column) (row : Row) (rest : List Char) :
    ∃ body scope functions line depth fuel,
      let tokens := lexFrom (rest.length + 1) ⟨⟨1 + line, 1⟩, false, []⟩ false rest
      body.map Stmt.declaration? = ((rowDeclarations mode columns row).zipIdx 1).map some ∧ IsLibrary functions ∧
      tokens.length ≤ fuel ∧ 4 * tokens.length ≤ depth ∧
      parse (unlines ((preamble mode columns row).map String.toList) ++ rest) =
        (scriptItems (grammar depth) fuel (ParseState.at ⟨[], scope, [], functions⟩ tokens)).map
          fun r => ⟨r.2.functions, body ++ Stmt.prune r.1⟩ := by
  obtain ⟨tss, groups, ts, hreads, hgroups, htokens, -, hlex⟩ := lex_preamble mode columns row rest
  rw [Nat.add_assoc 1] at hlex
  generalize Builtin.source.length + (dataLines mode columns row).length = line at hlex
  obtain ⟨next, more, hnext⟩ :=
    List.exists_cons_of_ne_nil (lexFrom_ne_nil (rest.length + 1) ⟨⟨1 + line, 1⟩, false, []⟩ false rest)
  rw [spellAll, map_spellFrom, hnext] at hlex
  obtain ⟨hcount, hlength⟩ := length_lines hreads 1 hgroups
  have hshelf : (ts.map Spelled.toLocated).map (·.token) = shelf.flatMap (·.1) := by
    rw [List.map_map]
    exact htokens
  have hlibrary : ts.length = libraryTokens.length := by rw [← htokens, List.length_map]
  have hmany := length_shelf_le
  obtain ⟨t, us, hcons⟩ : ∃ t us, ts.map Spelled.toLocated ++ next :: more = t :: us := List.exists_cons_of_ne_nil (by simp)
  generalize htotal : (lex (unlines ((preamble mode columns row).map String.toList) ++ rest)).length = total
  have hsum : total = groups.flatten.length + (ts.length + (next :: more).length) := by
    rw [← htotal, hlex, List.length_append, List.length_append, List.length_map]
  obtain ⟨fuel, hfuel⟩ : ∃ f, total = tss.length + (shelf.length + f) := ⟨total - tss.length - shelf.length, by omega⟩
  obtain ⟨body, scope, hbody, hinert, hitems⟩ := scriptItems_ok (n := 4 * total + 3) hreads (fun us hus => by
    have := hlength us hus
    omega) 1 hgroups ⟨[], [], [], []⟩ (shelf.length + fuel) t us
  obtain ⟨functions, hfunctions, hmoreItems⟩ := scriptItems_functions (n := 4 * total + 4) reads_shelf shelf_apart hshelf
    (by rw [List.length_map]; omega) ⟨[], scope, [], []⟩ (List.forall_mem_nil _) fuel next more
  refine ⟨body, scope, functions, line, 4 * total + 4, fuel, hbody, ?_, ?_, ?_, ?_⟩
  · exact List.forall₂_map_left_iff.mpr hfunctions
  · rw [hnext]
    omega
  · rw [hnext]
    omega
  · have hall : scriptItems (grammar (4 * total + 4)) total (ParseState.at ⟨[], [], [], []⟩ (groups.flatten ++ t :: us)) =
        (scriptItems (grammar (4 * total + 4)) fuel >>= fun more => pure (body ++ more))
          (ParseState.at ⟨[], scope, [], functions⟩ (next :: more)) := by
      rw [← hfuel, ← hcons] at hitems
      rw [← hcons]
      exact hitems.trans (bind_congr_at hmoreItems _)
    rw [parse, parseTokens_eq, htotal, hlex, hnext, hcons, hall]
    exact map_items_append hinert _

end Worksheet.Formula
