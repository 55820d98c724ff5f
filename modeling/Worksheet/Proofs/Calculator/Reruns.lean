import Mathlib.Data.List.ProdSigma
import Mathlib.Logic.Relation
import Worksheet.Proofs.Calculator.Transparent
/-!
# Which formulas a pass runs

A pass runs the formula of a cell exactly when the last pass was not over the same columns with the same inputs in
a row of the same id.

* `computeBy`: a pass with formulas run in any way, `noting` being the way that takes note of them;
* `Holds`: what the cache of a calculator is after a pass over a sheet;
* `Unchanged`: a cell has the columns and inputs that it had in another sheet;
* `Unseen`: edits of a sheet that no formula sees;
* **`computeBy_after`**: the formulas that a pass runs after any history, and how many results are then kept.
-/

namespace Worksheet

open Formula

namespace Sheet

variable {s t u : Sheet}

/-! ## Formula cells and inputs -/

theorem column_formulaCellsOf (s : Sheet) (r : Row) :
    (s.formulaCellsOf r).map (·.column) = s.formulaColumns.map (·.id) := by
  rw [formulaCellsOf, formulaColumns]
  induction s.columns with
  | nil => rfl
  | cons c rest ih =>
    rw [List.filterMap_cons, List.filter_cons]
    cases hkind : c.kind <;> simp [Column.isFormula, Column.type, ColumnKind.type, hkind, ih]

theorem key_formulaCells (s : Sheet) :
    s.formulaCells.map (·.key) = s.rowIds ×ˢ s.formulaColumns.map (·.id) := by
  have hrow : ∀ r : Row, (s.formulaCellsOf r).map (·.key) = (s.formulaColumns.map (·.id)).map (r.id, ·) := by
    intro r
    rw [← column_formulaCellsOf s r, List.map_map]
    refine List.map_congr_left fun c hc => ?_
    rw [FormulaCell.key, (mem_formulaCellsOf.mp hc).1]
    rfl
  rw [formulaCells, List.map_flatMap, funext hrow]
  exact (List.flatMap_map (fun r : Row => r.id) (fun id => (s.formulaColumns.map (·.id)).map (id, ·)) s.rows).symm

theorem nodup_key_formulaCells (hs : s.Distinct) : (s.formulaCells.map (·.key)).Nodup := by
  rw [key_formulaCells]
  exact hs.rows.product (hs.columns.sublist (List.filter_sublist.map _))

theorem length_formulaCells (s : Sheet) : s.formulaCells.length = s.rows.length * s.formulaColumns.length := by
  have h := congrArg List.length (key_formulaCells s)
  rwa [List.length_map, List.length_product, rowIds, List.length_map, List.length_map] at h

/-- Two rows of one id hold the same under the columns that formulas read. -/
def SameInputs (s : Sheet) (r r' : Row) : Prop :=
  r.id = r'.id ∧ ∀ i ∈ s.columns, i.isFormula = false → r.value? i.id = r'.value? i.id

instance (s : Sheet) (r r' : Row) : Decidable (s.SameInputs r r') :=
  inferInstanceAs (Decidable (_ ∧ _))

theorem inputsOf_eq_iff {r r' : Row} : s.inputsOf r = s.inputsOf r' ↔
    ∀ i ∈ s.columns, i.isFormula = false → r.value? i.id = r'.value? i.id := by
  have hmem : ∀ i, i ∈ s.inputColumns ↔ i ∈ s.columns ∧ i.isFormula = false := fun i => by
    simp [inputColumns]
  constructor
  · exact fun h i hi hformula => value?_of_inputsOf h i ((hmem i).mpr ⟨hi, hformula⟩)
  · intro h
    refine List.map_congr_left fun i hi => ?_
    obtain ⟨hi, hformula⟩ := (hmem i).mp hi
    rw [h i hi hformula]

theorem inputsOf_congr (h : s.columns = t.columns) (r : Row) : s.inputsOf r = t.inputsOf r := by
  rw [inputsOf, inputsOf, inputColumns_congr h]

end Sheet

namespace Calculator

variable {k : Calculator} {s t : Sheet} {c d : FormulaCell}

/-! ## Passes that run formulas in any way -/

section Run

variable {m : Type → Type} [Monad m] (run : FormulaCell → List Column → Nat → m CellResult)

/-- The result of a cell, a formula being run in the given way. -/
def resultBy (k : Calculator) (s : Sheet) (c : FormulaCell) : m (CellResult × Calculator) :=
  let fresh : Unit → m (CellResult × Calculator) := fun _ => do
    let r ← run c s.inputColumns k.timeout
    let k := k.keep c.key ⟨s.columns, s.inputsOf c.row, r⟩
    pure (r, { k with recomputed := k.recomputed + 1 })
  match k.cached? c.key with
  | some known =>
    if known.columns = s.columns ∧ known.inputs = s.inputsOf c.row then pure (known.result, k) else fresh ()
  | none => fresh ()

/-- The results of cells, one after the other. -/
def resultsBy (k : Calculator) (s : Sheet) : List FormulaCell → m (List (CellKey × CellResult) × Calculator)
  | [] => pure ([], k)
  | c :: rest => do
    let (r, k) ← k.resultBy run s c
    let (later, k) ← k.resultsBy s rest
    pure ((c.key, r) :: later, k)

/-- A pass over a sheet, the formulas being run in the given way. -/
def computeBy (k : Calculator) (s : Sheet) : m (Computed × Calculator) := do
  let (results, k) ← { k with recomputed := 0 }.resultsBy run s s.formulaCells
  pure (arrange s.rows results,
    { k with cache := k.cache.filter fun e => (results.map (·.1)).contains e.1 })

end Run

/-- Runs the formula of a cell, and takes note of the cell. -/
def noting (c : FormulaCell) (inputColumns : List Column) (timeout : Nat) : StateM (List FormulaCell) CellResult := do
  modify (· ++ [c])
  pure (c.evaluate inputColumns timeout)

instance : Decidable (k.Hit s c) :=
  decidable_of_iff
    ((k.cached? c.key).any (fun known => known.columns = s.columns ∧ known.inputs = s.inputsOf c.row) = true)
    (by simp [Hit, Option.any_eq_true])

/-- The cells that are run when the cells of a list have their turn. -/
def rerun (k : Calculator) (s : Sheet) : List FormulaCell → List FormulaCell
  | [] => []
  | c :: rest => (if k.Hit s c then [] else [c]) ++ (k.result s c).2.rerun s rest

theorem not_hit_of_cached? (h : k.cached? c.key = none) : ¬ k.Hit s c := by
  rintro ⟨known, hknown, -⟩
  rw [h] at hknown
  cases hknown

theorem hit_iff_of_cached? {known : CachedCell} (h : k.cached? c.key = some known) :
    k.Hit s c ↔ known.columns = s.columns ∧ known.inputs = s.inputsOf c.row := by
  simp [Hit, h]

theorem resultBy_noting (k : Calculator) (s : Sheet) (c : FormulaCell) (noted : List FormulaCell) :
    (k.resultBy noting s c).run noted = (k.result s c, noted ++ if k.Hit s c then [] else [c]) := by
  rw [resultBy, result]
  cases hcached : k.cached? c.key with
  | none =>
    rw [if_neg (not_hit_of_cached? hcached)]
    rfl
  | some known =>
    simp only [hit_iff_of_cached? hcached]
    split_ifs
    · rw [List.append_nil]
      rfl
    · rfl

theorem resultsBy_noting (k : Calculator) (s : Sheet) (cells noted : List FormulaCell) :
    (k.resultsBy noting s cells).run noted = (k.results s cells, noted ++ k.rerun s cells) := by
  induction cells generalizing k noted with
  | nil =>
    rw [rerun, List.append_nil]
    rfl
  | cons c rest ih =>
    rw [resultsBy, StateT.run_bind, resultBy_noting]
    change ((k.result s c).2.resultsBy noting s rest >>= _).run _ = _
    rw [StateT.run_bind, ih, rerun, List.append_assoc]
    rfl

theorem computeBy_noting (k : Calculator) (s : Sheet) :
    (k.computeBy noting s).run [] = (k.compute s, { k with recomputed := 0 }.rerun s s.formulaCells) := by
  rw [computeBy, StateT.run_bind, resultsBy_noting]
  rfl

/-! ## One pass -/

theorem result_cases (k : Calculator) (s : Sheet) (c : FormulaCell) :
    (k.Hit s c ∧ (k.result s c).2 = k) ∨ ¬ k.Hit s c ∧ ∃ r, (k.result s c).2 =
      { k.keep c.key ⟨s.columns, s.inputsOf c.row, r⟩ with recomputed := k.recomputed + 1 } := by
  rw [result]
  cases hcached : k.cached? c.key with
  | none => exact .inr ⟨not_hit_of_cached? hcached, _, rfl⟩
  | some known =>
    by_cases hit : k.Hit s c
    · exact .inl ⟨hit, by simp only [if_pos ((hit_iff_of_cached? hcached).mp hit)]⟩
    · exact .inr ⟨hit, _, by simp only [if_neg (mt (hit_iff_of_cached? hcached).mpr hit)]; rfl⟩

theorem hit_result_self (k : Calculator) (s : Sheet) (c : FormulaCell) : (k.result s c).2.Hit s c := by
  rcases result_cases k s c with ⟨hit, h⟩ | ⟨-, r, h⟩
  · rw [h]
    exact hit
  · rw [h]
    exact ⟨_, (cached?_keep c.key c.key _).trans (if_pos rfl), rfl, rfl⟩

theorem hit_result_of_ne (h : c.key ≠ d.key) : (k.result s c).2.Hit s d ↔ k.Hit s d := by
  rcases result_cases k s c with ⟨-, hresult⟩ | ⟨-, r, hresult⟩
  · rw [hresult]
  · rw [hresult]
    exact exists_congr fun known => and_congr_left' (iff_of_eq (congrArg (· = _)
      ((cached?_keep c.key d.key _).trans (if_neg h))))

theorem recomputed_result (k : Calculator) (s : Sheet) (c : FormulaCell) :
    (k.result s c).2.recomputed = k.recomputed + (if k.Hit s c then [] else [c]).length := by
  rcases result_cases k s c with ⟨hit, h⟩ | ⟨hit, r, h⟩
  · rw [h, if_pos hit]
    rfl
  · rw [h, if_neg hit]
    rfl

/-- The keys of the kept results. -/
def keys (k : Calculator) : List CellKey :=
  k.cache.map (·.1)

theorem nodup_keys_result (hk : k.keys.Nodup) : (k.result s c).2.keys.Nodup := by
  rcases result_cases k s c with ⟨-, h⟩ | ⟨-, r, h⟩
  · rwa [h]
  · rw [h]
    refine List.nodup_cons.mpr ⟨fun hmem => ?_, hk.sublist (List.filter_sublist.map _)⟩
    obtain ⟨e, he, hkey⟩ := List.mem_map.mp hmem
    exact absurd hkey (by simpa using (List.mem_filter.mp he).2)

section Cells

variable {cells : List FormulaCell}

theorem recomputed_results (k : Calculator) (s : Sheet) (cells : List FormulaCell) :
    (k.results s cells).2.recomputed = k.recomputed + (k.rerun s cells).length := by
  induction cells generalizing k with
  | nil => rfl
  | cons c rest ih =>
    have h := ih (k.result s c).2
    rw [recomputed_result, Nat.add_assoc, ← List.length_append] at h
    exact h

theorem key_results (k : Calculator) (s : Sheet) (cells : List FormulaCell) :
    (k.results s cells).1.map (·.1) = cells.map (·.key) := by
  induction cells generalizing k with
  | nil => rfl
  | cons c rest ih => exact congrArg (c.key :: ·) (ih _)

theorem nodup_keys_results (hk : k.keys.Nodup) : (k.results s cells).2.keys.Nodup := by
  induction cells generalizing k with
  | nil => exact hk
  | cons c rest ih => exact ih (nodup_keys_result hk)

/-- Cells of other keys have no say in whether the result of a cell is kept. -/
theorem hit_results_of_not_mem (h : d.key ∉ cells.map (·.key)) : (k.results s cells).2.Hit s d ↔ k.Hit s d := by
  induction cells generalizing k with
  | nil => rfl
  | cons c rest ih =>
    rw [List.map_cons, List.mem_cons, not_or] at h
    exact (ih h.2).trans (hit_result_of_ne (Ne.symm h.1))

/-- Cells of different keys are run if their results were not kept to begin with. -/
theorem rerun_eq (hcells : (cells.map (·.key)).Nodup) : k.rerun s cells = cells.filter fun c => ¬ k.Hit s c := by
  induction cells generalizing k with
  | nil => rfl
  | cons c rest ih =>
    rw [List.map_cons, List.nodup_cons] at hcells
    have hrest : rest.filter (fun d => ¬ (k.result s c).2.Hit s d) = rest.filter fun d => ¬ k.Hit s d := by
      refine List.filter_congr fun d hd => decide_eq_decide.mpr (not_congr (hit_result_of_ne fun hkey => ?_))
      exact hcells.1 (hkey ▸ List.mem_map_of_mem hd)
    rw [rerun, ih hcells.2, hrest, List.filter_cons]
    split_ifs <;> simp_all

theorem hit_results (hcells : (cells.map (·.key)).Nodup) (hc : c ∈ cells) : (k.results s cells).2.Hit s c := by
  induction cells generalizing k with
  | nil => exact absurd hc List.not_mem_nil
  | cons d rest ih =>
    rw [List.map_cons, List.nodup_cons] at hcells
    rcases List.mem_cons.mp hc with rfl | hc
    · exact (hit_results_of_not_mem hcells.1).mpr (hit_result_self k s c)
    · exact ih hcells.2 hc

end Cells

/-! ## What is kept after a pass -/

/-- The results of the formula cells of a sheet are kept, with its columns and inputs, and no others are. -/
structure Holds (k : Calculator) (t : Sheet) : Prop where
  keys : k.keys.Perm (t.formulaCells.map (·.key))
  cells : ∀ c ∈ t.formulaCells, k.Hit t c

theorem keys_compute (k : Calculator) (s : Sheet) : (k.compute s).2.keys =
    ({ k with recomputed := 0 }.results s s.formulaCells).2.keys.filter fun key =>
      (s.formulaCells.map FormulaCell.key).contains key := by
  rw [keys, keys, List.filter_map, ← key_results { k with recomputed := 0 } s s.formulaCells]
  rfl

theorem nodup_keys_compute (hk : k.keys.Nodup) (s : Sheet) : (k.compute s).2.keys.Nodup := by
  rw [keys_compute]
  exact (nodup_keys_results (k := { k with recomputed := 0 }) hk).filter _

theorem cached?_compute {key : CellKey} (hkey : key ∈ s.formulaCells.map (·.key)) :
    (k.compute s).2.cached? key = ({ k with recomputed := 0 }.results s s.formulaCells).2.cached? key := by
  rw [← key_results { k with recomputed := 0 } s] at hkey
  rw [cached?, compute, List.find?_filter, cached?]
  congr 2
  funext e
  by_cases he : e.1 = key
  · simp [he, hkey]
  · simp [he]

theorem hit_compute (hc : c ∈ s.formulaCells) (hs : (s.formulaCells.map (·.key)).Nodup) :
    (k.compute s).2.Hit s c := by
  rw [Hit, cached?_compute (List.mem_map_of_mem hc)]
  exact hit_results hs hc

theorem holds_compute (hk : k.keys.Nodup) (hs : s.Distinct) : (k.compute s).2.Holds s := by
  have hnodup := Sheet.nodup_key_formulaCells hs
  have hcells : ∀ c ∈ s.formulaCells, (k.compute s).2.Hit s c := fun c hc =>
    hit_compute hc hnodup
  refine ⟨(List.perm_ext_iff_of_nodup (nodup_keys_compute hk s) hnodup).mpr fun key => ⟨fun h => ?_, fun h => ?_⟩,
    hcells⟩
  · rw [keys_compute] at h
    simpa using (List.mem_filter.mp h).2
  · obtain ⟨c, hc, rfl⟩ := List.mem_map.mp h
    obtain ⟨known, hknown, -⟩ := hcells c hc
    exact List.mem_map.mpr ⟨_, mem_of_cached? hknown, rfl⟩

/-! ## Histories -/

/-- The sheet of the latest pass since the results were forgotten, or since there were none. -/
def latest? (history : List Request) : Option Sheet :=
  history.foldl (fun _ q => match q with
    | .compute t => some t
    | .invalidate => none) none

/-- The cell has the columns and inputs that a cell of its row id and column id had in the last sheet. -/
def Unchanged (last? : Option Sheet) (s : Sheet) (c : FormulaCell) : Prop :=
  ∃ t ∈ last?, t.columns = s.columns ∧ ∃ r ∈ t.rows, s.SameInputs r c.row

instance (last? : Option Sheet) (s : Sheet) (c : FormulaCell) : Decidable (Unchanged last? s c) :=
  inferInstanceAs (Decidable (∃ t ∈ last?, _))

/-- The formula cells that have to be run after a pass over the last sheet. -/
def toRun (last? : Option Sheet) (s : Sheet) : List FormulaCell :=
  s.formulaCells.filter fun c => ¬ Unchanged last? s c

/-- What the calculator keeps is what a pass over the last sheet leaves. -/
def Remembers (k : Calculator) : Option Sheet → Prop
  | some t => k.Holds t
  | none => k.cache = []

/-- **After a pass over a sheet the result of a cell is still kept if the cell is unchanged.** -/
theorem Holds.hit_iff (hk : k.Holds t) (hc : c ∈ s.formulaCells) : k.Hit s c ↔ Unchanged (some t) s c := by
  constructor
  · rintro ⟨known, hknown, hcolumns, hinputs⟩
    have hkey : c.key ∈ t.formulaCells.map (·.key) :=
      hk.keys.mem_iff.mp (List.mem_map_of_mem (mem_of_cached? hknown))
    obtain ⟨d, hd, hdc⟩ := List.mem_map.mp hkey
    obtain ⟨known', hknown', hcolumns', hinputs'⟩ := hk.cells d hd
    obtain rfl : known = known' := Option.some.inj (hknown.symm.trans (hdc ▸ hknown'))
    have hts : t.columns = s.columns := hcolumns'.symm.trans hcolumns
    refine ⟨t, rfl, hts, d.row, (Sheet.mem_formulaCells.mp hd).1, (Prod.mk.inj hdc).1, ?_⟩
    exact Sheet.inputsOf_eq_iff.mp ((Sheet.inputsOf_congr hts.symm d.row).trans (hinputs'.symm.trans hinputs))
  · rintro ⟨t', ht', hts, r, hr, hid, hvalues⟩
    obtain rfl : t = t' := Option.some.inj ht'
    obtain ⟨-, i, hi, hcolumn, hkind⟩ := Sheet.mem_formulaCellsOf.mp (Sheet.mem_formulaCells.mp hc).2
    have hd : { c with row := r } ∈ t.formulaCells :=
      Sheet.mem_formulaCells.mpr ⟨hr, Sheet.mem_formulaCellsOf.mpr ⟨rfl, i, hts ▸ hi, hcolumn, hkind⟩⟩
    obtain ⟨known, hknown, hcolumns, hinputs⟩ := hk.cells _ hd
    have hkey : FormulaCell.key { c with row := r } = c.key := Prod.ext hid rfl
    refine ⟨known, hkey ▸ hknown, hcolumns.trans hts, hinputs.trans ?_⟩
    exact (Sheet.inputsOf_congr hts r).trans (Sheet.inputsOf_eq_iff.mpr hvalues)

theorem Remembers.hit_iff {last? : Option Sheet} (hk : k.Remembers last?) (hc : c ∈ s.formulaCells) :
    k.Hit s c ↔ Unchanged last? s c := by
  cases last? with
  | some t => exact Holds.hit_iff hk hc
  | none =>
    have hcache : k.cache = [] := hk
    refine iff_of_false ?_ fun ⟨t, ht, _⟩ => Option.not_mem_none t ht
    rintro ⟨known, hknown, -⟩
    exact absurd (mem_of_cached? hknown) (by simp [hcache])

theorem nodup_keys_after (hk : k.keys.Nodup) (history : List Request) : (k.after history).keys.Nodup := by
  induction history generalizing k with
  | nil => exact hk
  | cons q rest ih =>
    refine ih ?_
    cases q with
    | compute t => exact nodup_keys_compute hk t
    | invalidate => exact List.nodup_nil

theorem remembers_after (timeout : Nat) {history : List Request}
    (hhistory : ∀ t, .compute t ∈ history → t.Distinct) :
    ((new timeout).after history).Remembers (latest? history) := by
  induction history using List.reverseRecOn with
  | nil => rfl
  | append_singleton before q ih =>
    rw [after, latest?, List.foldl_append, List.foldl_append]
    cases q with
    | compute t =>
      have hk : ((new timeout).after before).keys.Nodup := nodup_keys_after (k := new timeout) List.nodup_nil before
      exact holds_compute hk (hhistory t (by simp))
    | invalidate => rfl

/-! ## Edits that formulas do not see -/

/-- An edit that no formula sees: of the texts under the id of a formula column or under an id that no column has, of
the order of the rows, or of the id, the name, the stamps and the tag cache. -/
inductive Unseen (s : Sheet) : Sheet → Prop
  | value {row id : String} {f : Row → Row} (hformula : ∀ i ∈ s.columns, i.id = id → i.isFormula = true)
    (hid : ∀ r, (f r).id = r.id) (hvalues : ∀ r key, key ≠ id → (f r).value? key = r.value? key) :
    Unseen s (s.changeRow row f)
  | order {rows : List Row} (hrows : s.rows.Perm rows) : Unseen s { s with rows := rows }
  | header (id name : String) (created updated : Stamp) (tagCache : TagCache) :
    Unseen s ⟨id, name, created, updated, s.columns, s.rows, tagCache⟩

/-- For each row of the second sheet the first one has a row with the same inputs, under the same columns. -/
def Covers (t s : Sheet) : Prop :=
  t.columns = s.columns ∧ ∀ r' ∈ s.rows, ∃ r ∈ t.rows, s.SameInputs r r'

theorem covers_refl (s : Sheet) : Covers s s :=
  ⟨rfl, fun r hr => ⟨r, hr, rfl, fun _ _ _ => rfl⟩⟩

theorem Covers.trans {u : Sheet} (h : Covers t s) (h' : Covers s u) : Covers t u := by
  refine ⟨h.1.trans h'.1, fun r'' hr'' => ?_⟩
  obtain ⟨r', hr', hid', hvalues'⟩ := h'.2 r'' hr''
  obtain ⟨r, hr, hid, hvalues⟩ := h.2 r' hr'
  exact ⟨r, hr, hid.trans hid', fun i hi hformula =>
    (hvalues i (h'.1 ▸ hi) hformula).trans (hvalues' i hi hformula)⟩

theorem Unseen.covers (h : Unseen t s) : Covers t s := by
  cases h with
  | @value row id f hformula hid hvalues =>
    refine ⟨rfl, fun r' hr' => ?_⟩
    rcases mem_changeFirst hr' with hr' | ⟨r, hr, rfl⟩
    · exact (covers_refl t).2 r' hr'
    · refine ⟨r, hr, (hid r).symm, fun i hi hinput => (hvalues r i.id fun hkey => ?_).symm⟩
      rw [hformula i hi hkey] at hinput
      cases hinput
  | order hrows => exact ⟨rfl, fun r' hr' => ⟨r', hrows.mem_iff.mpr hr', rfl, fun _ _ _ => rfl⟩⟩
  | header => exact ⟨rfl, (covers_refl t).2⟩

theorem covers_of_unseen (h : Relation.ReflTransGen Unseen t s) : Covers t s := by
  induction h with
  | refl => exact covers_refl t
  | tail _ hedit ih => exact ih.trans hedit.covers

theorem toRun_of_covers (h : Covers t s) : toRun (some t) s = [] := by
  refine List.filter_eq_nil_iff.mpr fun c hc => ?_
  obtain ⟨r, hr, hinputs⟩ := h.2 c.row (Sheet.mem_formulaCells.mp hc).1
  simpa using show Unchanged (some t) s c from ⟨t, rfl, h.1, r, hr, hinputs⟩

/-! ## The formulas that are run -/

/-- **A pass runs the formulas of those cells that have changed since the last pass, and no others.** Whatever sheets
the passes before were over, and whenever the results were forgotten in between: the pass runs a formula exactly if
the latest pass since then was not over the same columns with a row of the same id and inputs, and `recomputed` is the
number of these cells. One result is kept for each row and formula column. After edits that formulas do not see,
none is run. -/
theorem computeBy_after (timeout : Nat) (history : List Request) (s : Sheet)
    (hhistory : ∀ t, .compute t ∈ history → t.Distinct) (hs : s.Distinct) :
    (((new timeout).after history).computeBy noting s).run [] =
        (((new timeout).after history).compute s, toRun (latest? history) s) ∧
      (((new timeout).after history).compute s).2.recomputed = (toRun (latest? history) s).length ∧
      (((new timeout).after history).compute s).2.cachedCells = s.rows.length * s.formulaColumns.length ∧
      ∀ t, latest? history = some t → Relation.ReflTransGen Unseen t s →
        (((new timeout).after history).compute s).2.recomputed = 0 := by
  have hremembers := remembers_after timeout hhistory
  have hnodup : ((new timeout).after history).keys.Nodup := nodup_keys_after (k := new timeout) List.nodup_nil history
  generalize (new timeout).after history = k at hremembers hnodup ⊢
  have hrerun : { k with recomputed := 0 }.rerun s s.formulaCells = toRun (latest? history) s := by
    rw [rerun_eq (Sheet.nodup_key_formulaCells hs)]
    exact List.filter_congr fun c hc => decide_eq_decide.mpr (not_congr (hremembers.hit_iff hc))
  have hrecomputed : (k.compute s).2.recomputed = (toRun (latest? history) s).length := by
    rw [← hrerun, ← Nat.zero_add (List.length _)]
    exact recomputed_results { k with recomputed := 0 } s s.formulaCells
  refine ⟨by rw [computeBy_noting, hrerun], hrecomputed, ?_, fun t ht hunseen => ?_⟩
  · have hlength := (holds_compute hnodup hs).keys.length_eq
    rwa [keys, List.length_map, List.length_map, Sheet.length_formulaCells] at hlength
  · rw [hrecomputed, ht, toRun_of_covers (covers_of_unseen hunseen)]
    rfl

/-- A sheet with a formula; one of its two rows has no score. -/
def scored : Sheet :=
  { Sheet.new "s" "Scores" default with
    columns := [⟨"n", "Score", .number⟩, ⟨"f", "Twice", .formula "Score * 2" .expression⟩]
    rows := [⟨"r", Dict.ofList [("n", "3")]⟩, ⟨"q", ∅⟩] }

/-- The sheet with a second score, its rows in another order and a text under the formula. -/
def rescored : Sheet :=
  { scored with rows := [⟨"q", Dict.ofList [("n", "5")]⟩, ⟨"r", Dict.ofList [("n", "3"), ("f", "6")]⟩] }

/-- A pass over a later state, then one over an earlier one, with the results of the first forgotten. -/
def scoring : List Request :=
  [.compute rescored, .invalidate, .compute scored]

theorem computeBy_after_scoring : (∀ t, .compute t ∈ scoring → t.Distinct) ∧ rescored.Distinct ∧
    toRun (latest? scoring) rescored = [⟨⟨"q", Dict.ofList [("n", "5")]⟩, "f", "Score * 2", .expression⟩] ∧
    (((new 1000).after scoring).compute rescored).2.recomputed = 1 ∧
    (((new 1000).after scoring).compute rescored).2.cachedCells = 2 := by
  have hscored : scored.Distinct := ⟨by decide, by decide⟩
  have hs : rescored.Distinct := ⟨by decide, by decide⟩
  have hhistory : ∀ t, .compute t ∈ scoring → t.Distinct := by
    intro t ht
    simp only [scoring, List.mem_cons, Request.compute.injEq, reduceCtorEq, List.not_mem_nil, or_false,
      false_or] at ht
    rcases ht with rfl | rfl
    · exact hs
    · exact hscored
  have hrun : toRun (latest? scoring) rescored =
      [⟨⟨"q", Dict.ofList [("n", "5")]⟩, "f", "Score * 2", .expression⟩] := by decide
  obtain ⟨-, hrecomputed, hcached, -⟩ := computeBy_after 1000 scoring rescored hhistory hs
  exact ⟨hhistory, hs, hrun, hrecomputed.trans (congrArg List.length hrun), hcached⟩

end Calculator

end Worksheet
