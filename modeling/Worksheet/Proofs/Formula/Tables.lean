import Worksheet.Proofs.Formula.Searching
/-!
# The tables of a running formula

What a script has done once the lines about the row have run.

* `Datum.value`, **`Evals.datum`**: the value that is written out is the value of the expression;
* `Machine.declare`, `DoesAll.declarations`: declarations outside of all blocks, whatever comes after them;
* **`tabled_declared`**: after the lines about the row the constants hold the tables of the row.
-/

namespace Worksheet.Formula

open Interpreter

/-! ## Values that are written out -/

theorem put_of_keys_lt {key : String} {entries : List (String × Value)} (h : ∀ e ∈ entries, e.1 < key) (value : Value) :
    Entries.put key value entries = entries ++ [(key, value)] := by
  induction entries with
  | nil => rfl
  | cons e entries ih =>
    obtain ⟨hfirst, hrest⟩ := List.forall_mem_cons.mp h
    rw [Entries.put, if_neg (String.lt_asymm hfirst), if_neg fun heq => String.lt_irrefl _ (heq ▸ hfirst), ih hrest]
    rfl

theorem foldl_put_of_ascending (before : List (String × Value)) {entries : List (String × Value)}
    (h : Ascending (before ++ entries)) :
    entries.foldl (fun fields f => Entries.put f.1 f.2 fields) before = before ++ entries := by
  induction entries generalizing before with
  | nil => exact (List.append_nil before).symm
  | cons e entries ih =>
    have hbefore : ∀ b ∈ before, b.1 < e.1 := fun b hb => (List.pairwise_append.mp h).2.2 b hb e List.mem_cons_self
    rw [List.append_cons] at h
    rw [List.foldl_cons, put_of_keys_lt hbefore, ih _ h, ← List.append_cons]

mutual

/-- The value that is written out. -/
def Datum.value : Datum → Value
  | .literal l => .ofLiteral l
  | .array items => .array (Datum.values items)
  | .record fields => .record ((Datum.entries fields).foldl (fun fs f => Entries.put f.1 f.2 fs) [])

/-- The values that are written out. -/
def Datum.values : List Datum → List Value
  | [] => []
  | d :: ds => d.value :: Datum.values ds

/-- The fields that are written out. -/
def Datum.entries : List (String × Datum) → List (String × Value)
  | [] => []
  | (name, d) :: rest => (name, d.value) :: Datum.entries rest

end

theorem Datum.values_eq_map (ds : List Datum) : Datum.values ds = ds.map Datum.value := by
  induction ds with
  | nil => rfl
  | cons d ds ih => rw [Datum.values, List.map_cons, ih]

variable {env : Env} {m m₁ m' : Machine} {e : Expr} {d : Datum} {outcome : Except Signal Value}

mutual

theorem Evals.datum {e : Expr} {d : Datum} (h : e.datum? = some d) : Evals env m e (.ok d.value) m :=
  match e, h with
  | .literal l place, h => by
    cases h
    rw [Datum.value]
    exact .literal l place
  | .array items place, h => by
    obtain ⟨ds, hds, rfl⟩ := Option.map_eq_some_iff.mp h
    rw [Datum.value]
    exact .deeper (fun _ => rfl) ((Runs.spend 1 m).bind ((Evals.data hds).bind (.pure _ m)))
  | .record fields place, h => by
    obtain ⟨ds, hds, rfl⟩ := Option.map_eq_some_iff.mp h
    rw [Datum.value]
    exact .deeper (fun _ => rfl) ((Runs.spend 1 m).bind ((Evals.fields hds).bind (.pure _ m)))

theorem Evals.data {items : List Expr} {ds : List Datum} (h : exprsData? items = some ds) :
    Runs (fun n => evalList (interpreter n) env items) m (.ok (Datum.values ds)) m :=
  match items, h with
  | [], h => by
    cases h
    exact .pure _ m
  | e :: items, h => by
    obtain ⟨d, hd, hrest⟩ := Option.bind_eq_some_iff.mp h
    obtain ⟨ds, hds, hsome⟩ := Option.bind_eq_some_iff.mp hrest
    cases hsome
    exact Runs.bind (Evals.datum hd) ((Evals.data hds).bind (.pure _ m))

theorem Evals.fields {fields : List (String × Expr)} {ds : List (String × Datum)} (h : fieldsData? fields = some ds) :
    Runs (fun n => evalFields (interpreter n) env fields) m (.ok (Datum.entries ds)) m :=
  match fields, h with
  | [], h => by
    cases h
    exact .pure _ m
  | (name, e) :: fields, h => by
    obtain ⟨d, hd, hrest⟩ := Option.bind_eq_some_iff.mp h
    obtain ⟨ds, hds, hsome⟩ := Option.bind_eq_some_iff.mp hrest
    cases hsome
    exact Runs.bind (Evals.datum hd) ((Evals.fields hds).bind (.pure _ m))

end

/-! ## Declarations outside of all blocks -/

/-- The machine after a declaration outside of all blocks. -/
def Machine.declare (m : Machine) (d : Declaration) : Machine :=
  { m with
    scope := ⟨d.name, d.constant, .own d.value.value⟩ :: m.scope
    constants := if d.constant then (d.name, d.value.value) :: m.constants else m.constants }

theorem Does.declare_outermost (houter : env.outermost = true) {s : Stmt} {line : Nat} {d : Declaration}
    (h : s.declaration? = some (d, line)) (m : Machine) : Does env m s (.ok .unit) (m.declare d) := by
  obtain ⟨constant, name, place, e, value, rfl, hvalue, rfl⟩ : ∃ constant name place e value,
      s = .declare constant name (some e) place ∧ e.datum? = some value ∧ d = ⟨constant, name, value⟩ := by
    unfold Stmt.declaration? at h
    split at h
    · next constant name e place =>
      obtain ⟨value, hvalue, heq⟩ := Option.map_eq_some_iff.mp h
      exact ⟨constant, name, place, e, value, rfl, hvalue, (congrArg Prod.fst heq).symm⟩
    · cases h
  refine .deeper (fun _ => rfl) ((Runs.spend 1 m).bind (Runs.bind (Evals.datum hvalue) ?_))
  cases constant with
  | true =>
    simp only [houter, Bool.and_self, if_true]
    exact ⟨0, 0, fun _ _ _ _ => rfl⟩
  | false =>
    simp only [Bool.false_and, Bool.false_eq_true, if_false]
    exact (Runs.declare name false value.value m).bind (.pure _ _)

theorem DoesAll.next {s : Stmt} {rest : List Stmt} (h : Does env m s (.ok .unit) m₁)
    (hrest : DoesAll env m₁ rest outcome m') : DoesAll env m (s :: rest) outcome m' := by
  cases rest with
  | nil =>
    have hboth := Runs.bind (f := fun _ v => pure v) h hrest
    simp only [bind_pure] at hboth
    exact hboth
  | cons s' rest => exact Runs.bind h hrest

/-- **Declarations are run one after the other**, and what comes after them goes on from there. -/
theorem DoesAll.declarations (houter : env.outermost = true) {body : List Stmt} {ds : List Declaration} {k : Nat}
    (hbody : body.map Stmt.declaration? = (ds.zipIdx k).map some) {more : List Stmt} {m : Machine}
    (hmore : DoesAll env (ds.foldl Machine.declare m) more outcome m') :
    DoesAll env m (body ++ more) outcome m' := by
  induction ds generalizing body k m with
  | nil =>
    obtain rfl : body = [] := List.map_eq_nil_iff.mp hbody
    exact hmore
  | cons d ds ih =>
    obtain ⟨s, body, rfl, hs, hbody⟩ := List.map_eq_cons_iff.mp hbody
    exact .next (.declare_outermost houter hs m) (ih hbody hmore)

/-! ## The lines about the row -/

theorem ofTitle?_ne {title name : String} (h : Identifier.ofTitle? title = some name) :
    name ∉ preambleNames := by
  have hplain := Identifier.isReserved_of_ofTitle? h
  rw [isReserved, Bool.or_eq_false_iff, Bool.or_eq_false_iff] at hplain
  simpa using hplain.1.2

theorem value_countValue {n : Nat} (h : (n : Int) ≤ Word.greatest) : Value.ofLiteral (countValue n) = .int n := by
  rw [countValue, fits_of_le h]
  rfl

variable {mode : FormulaMode} {columns : List Column} {row : Row}

theorem value_cellsDatum (columns : List Column) (row : Row) : (cellsDatum columns row).value = cellsTable columns row := by
  rw [cellsDatum, Datum.value, Datum.values_eq_map, List.map_map]
  refine congrArg Value.array (List.map_congr_left fun c _ => ?_)
  have hkeys : "column_name" < "value" := by decide
  simp only [Function.comp_apply, cellDatum, Datum.value, Datum.entries]
  refine congrArg Value.record (foldl_put_of_ascending [] ?_)
  exact List.pairwise_pair.mpr hkeys

theorem value_dropdownsDatum (hlength : (columns.length : Int) ≤ Word.greatest) :
    (dropdownsDatum columns).value = .array (optionsTable columns 0) := by
  rw [dropdownsDatum, Datum.value, Datum.values_eq_map, List.map_filterMap]
  refine congrArg Value.array (List.filterMap_congr fun x hx => ?_)
  obtain ⟨c, index⟩ := x
  have hindex : index < columns.length := by simpa using (List.mem_zipIdx hx).2.1
  have hcount := value_countValue (n := index) (by omega)
  cases hoptions : c.options? with
  | none => simp [dropdownDatum?, hoptions]
  | some options =>
    have hvalues : (options.map fun o => Datum.literal (.text o)).map Datum.value = options.map .text := by
      rw [List.map_map]
      exact List.map_congr_left fun o _ => rfl
    simp only [dropdownDatum?, hoptions, Option.map_some, Datum.value, Datum.entries, Datum.values_eq_map, hvalues, hcount]
    have hkeys : ["column_name", "index", "values"].Pairwise (· < ·) := by decide
    refine congrArg (some ∘ Value.record) (foldl_put_of_ascending [] ?_)
    exact List.pairwise_map.mp hkeys

/-- The tables stay when other variables are declared. -/
theorem Tabled.declare (h : Tabled columns row m) {d : Declaration} (hname : d.name ∉ preambleNames) :
    Tabled columns row (m.declare d) := by
  have hcells : (d.name == "FORMULA_CELLS") = false := by
    rw [beq_eq_false_iff_ne]
    rintro heq
    exact hname (heq ▸ by decide)
  have hoptions : (d.name == "FORMULA_DROPDOWNS") = false := by
    rw [beq_eq_false_iff_ne]
    rintro heq
    exact hname (heq ▸ by decide)
  unfold Machine.declare
  cases d.constant with
  | false => exact ⟨h.cells, h.options⟩
  | true =>
    refine ⟨?_, ?_⟩
    · rw [if_pos rfl, List.find?_cons_of_neg (by simp [hcells])]
      exact h.cells
    · rw [if_pos rfl, List.find?_cons_of_neg (by simp [hoptions])]
      exact h.options

theorem Tabled.declareAll (h : Tabled columns row m) {ds : List Declaration} (hnames : ∀ d ∈ ds, d.name ∉ preambleNames) :
    Tabled columns row (ds.foldl Machine.declare m) := by
  induction ds generalizing m with
  | nil => exact h
  | cons d ds ih =>
    obtain ⟨hname, hnames⟩ := List.forall_mem_cons.mp hnames
    exact ih (h.declare hname) hnames

/-- The machine before a script. -/
def Machine.empty : Machine :=
  ⟨[], #[], [], 0⟩

/-- The machine when the lines about the row have run. -/
def rowMachine (mode : FormulaMode) (columns : List Column) (row : Row) : Machine :=
  (rowDeclarations mode columns row).foldl Machine.declare .empty

/-- **After the lines about the row the constants hold the tables of the row.** -/
theorem tabled_rowMachine (mode : FormulaMode) (row : Row) (hlength : (columns.length : Int) ≤ Word.greatest) :
    Tabled columns row (rowMachine mode columns row) := by
  have htables : Tabled columns row ((Machine.empty.declare ⟨true, "FORMULA_CELLS", cellsDatum columns row⟩).declare
      ⟨true, "FORMULA_DROPDOWNS", dropdownsDatum columns⟩) :=
    ⟨congrArg (fun v => some ("FORMULA_CELLS", v)) (value_cellsDatum columns row),
      congrArg (fun v => some ("FORMULA_DROPDOWNS", v)) (value_dropdownsDatum hlength)⟩
  exact htables.declareAll (List.forall_mem_map.mpr fun b hb => ofTitle?_ne (mem_boundColumns hb).2)

end Worksheet.Formula
