import Worksheet.Proofs.Calculator.Reruns
import Worksheet.Proofs.Sheet.EditOrder
/-!
# Results on display

For display the results of formulas are put into the cells of a sheet. What is put there is read by nobody: it is
neither an input of a formula nor a tag.

* `shown`, `value?_overlayRow`: what a cell shows;
* `Sheet.overlaid`, `Sheet.Shows`: a sheet with the results in its cells, and what its rows show;
* `KeepsAll`, `compute_keepsAll`: the results that a pass gives are those that it leaves in the cache;
* **`compute_overlaid`**: a pass over the sheet on display gives the same results, and runs no formula for them.
-/

namespace Worksheet

open Formula

/-! ## What a cell shows -/

namespace Calculator

/-- What a cell shows, with what may be known of its result and what it held before. -/
def shown : Option CellResult → Option String → Option String
  | some (.ok value), _ => some value
  | _, before => before

theorem shown_shown (result? : Option CellResult) (before : Option String) :
    shown result? (shown result? before) = shown result? before := by
  match result? with
  | some (.ok _) | some (.error _) | none => rfl

end Calculator

open Calculator

variable {computed : Computed} {r : Row}

theorem overlay_entries {entries : List (String × CellResult)} (h : (entries.map (·.1)).Nodup) (r : Row) :
    let r' := entries.foldl
      (fun r e => match e.2 with
        | .ok value => r.set e.1 value
        | .error _ => r)
      r
    r'.id = r.id ∧ ∀ id, r'.value? id = shown ((entries.find? (·.1 == id)).map (·.2)) (r.value? id) := by
  induction entries generalizing r with
  | nil => exact ⟨rfl, fun _ => rfl⟩
  | cons e rest ih =>
    obtain ⟨key, result⟩ := e
    rw [List.map_cons, List.nodup_cons] at h
    -- no later result has the key
    have hlater : ∀ id, key = id → rest.find? (·.1 == id) = none := by
      rintro _ rfl
      exact List.find?_eq_none.mpr fun e he heq => h.1 (List.mem_map.mpr ⟨e, he, beq_iff_eq.mp heq⟩)
    cases result with
    | ok value =>
      obtain ⟨hid, hvalue⟩ := ih h.2 (r.set key value)
      refine ⟨hid, fun id => (hvalue id).trans ?_⟩
      rw [Row.value?_set, List.find?_cons]
      by_cases hkey : key = id
      · rw [hlater id hkey, if_pos hkey, beq_iff_eq.mpr hkey]
        rfl
      · rw [if_neg hkey, beq_false_of_ne hkey]
    | error e =>
      obtain ⟨hid, hvalue⟩ := ih h.2 r
      refine ⟨hid, fun id => (hvalue id).trans ?_⟩
      rw [List.find?_cons]
      by_cases hkey : key = id
      · rw [hlater id hkey, beq_iff_eq.mpr hkey]
        rfl
      · rw [beq_false_of_ne hkey]

@[simp] theorem id_overlayRow (computed : Computed) (r : Row) : (overlayRow computed r).id = r.id := by
  rw [overlayRow]
  cases computed.find? r.id with
  | none => rfl
  | some results => exact (overlay_entries results.ascending.nodup_keys r).1

/-- **What a cell of an overlaid row shows.** -/
theorem value?_overlayRow (computed : Computed) (r : Row) (id : String) :
    (overlayRow computed r).value? id = shown (resultAt? computed (r.id, id)) (r.value? id) := by
  rw [overlayRow, resultAt?]
  cases computed.find? r.id with
  | none => rfl
  | some results => exact (overlay_entries results.ascending.nodup_keys r).2 id

theorem overlayRow_overlayRow (computed : Computed) (r : Row) :
    overlayRow computed (overlayRow computed r) = overlayRow computed r :=
  Row.ext_value? (id_overlayRow _ _) fun id => by
    rw [value?_overlayRow, value?_overlayRow, id_overlayRow, shown_shown]

/-! ## Sheets on display -/

namespace Sheet

variable {s : Sheet}

/-- The sheet with results in its cells. -/
def overlaid (s : Sheet) (computed : Computed) : Sheet :=
  { s with rows := overlay s.rows computed }

/-- The results stand under formula columns. -/
def UnderFormulas (s : Sheet) (computed : Computed) : Prop :=
  ∀ key, (resultAt? computed key).isSome = true → ∃ c ∈ s.formulaColumns, c.id = key.2

theorem value?_overlaid (h : s.UnderFormulas computed) {id : String} (hid : ∀ c ∈ s.formulaColumns, c.id ≠ id) :
    (overlayRow computed r).value? id = r.value? id := by
  have hnone : resultAt? computed (r.id, id) = none := by
    by_contra hsome
    obtain ⟨c, hc, heq⟩ := h (r.id, id) (Option.isSome_iff_ne_none.mpr hsome)
    exact hid c hc heq
  rw [value?_overlayRow, hnone]
  rfl

theorem formulaColumn_id_ne (hs : s.columnIds.Nodup) {c d : Column} (hc : c ∈ s.columns)
    (hformula : c.isFormula = false) (hd : d ∈ s.formulaColumns) : d.id ≠ c.id := fun heq => by
  obtain ⟨hd, hd'⟩ := List.mem_filter.mp hd
  obtain rfl := List.inj_on_of_nodup_map hs hd hc heq
  rw [hd'] at hformula
  cases hformula

theorem inputsOf_overlayRow (hs : s.columnIds.Nodup) (h : s.UnderFormulas computed) (r : Row) :
    s.inputsOf (overlayRow computed r) = s.inputsOf r :=
  inputsOf_eq_iff.mpr fun _ hi hinput => value?_overlaid h fun _ => formulaColumn_id_ne hs hi hinput

theorem formulaCells_overlaid (s : Sheet) (computed : Computed) :
    (s.overlaid computed).formulaCells =
      s.formulaCells.map fun c => { c with row := overlayRow computed c.row } := by
  rw [formulaCells, formulaCells, overlaid, overlay, List.flatMap_map, List.map_flatMap]
  refine List.flatMap_congr fun r _ => ?_
  refine (formulaCellsOf_row s r (overlayRow computed r)).trans (List.map_congr_left fun c hc => ?_)
  rw [(mem_formulaCellsOf.mp hc).1]

/-- Nothing that is put on display is a tag. -/
theorem tagsInUse_overlaid (hs : s.columnIds.Nodup) (h : s.UnderFormulas computed) :
    (s.overlaid computed).tagsInUse = s.tagsInUse := by
  refine tagsInUse_congr rfl fun id hid => ?_
  obtain ⟨c, hc, htags, rfl⟩ := mem_tagsColumnIds.mp hid
  have hinput : c.isFormula = false := by
    rw [Column.isTags, beq_iff_eq] at htags
    rw [Column.isFormula, htags]
    rfl
  rw [tagsUnder, overlaid, overlay, List.flatMap_map, tagsUnder]
  refine List.flatMap_congr fun r _ => ?_
  rw [value?_overlaid h fun _ => formulaColumn_id_ne hs hc hinput]

theorem overlaid_overlaid (s : Sheet) (computed : Computed) :
    (s.overlaid computed).overlaid computed = s.overlaid computed := by
  rw [overlaid, overlaid, overlay, overlay, List.map_map]
  exact congrArg (fun rows => { s with rows := rows })
    (List.map_congr_left fun r _ => overlayRow_overlayRow computed r)

/-- What a row shows on display. Each formula cell has a result: a value is shown, and an error leaves the cell as
it was. Everything else is left alone. -/
structure Shows (s : Sheet) (computed : Computed) (r r' : Row) : Prop where
  id : r'.id = r.id
  formula : ∀ c ∈ s.formulaColumns,
    (∃ value, resultAt? computed (r.id, c.id) = some (.ok value) ∧ r'.value? c.id = some value) ∨
      ∃ e, resultAt? computed (r.id, c.id) = some (.error e) ∧ r'.value? c.id = r.value? c.id
  other : ∀ id, (∀ c ∈ s.formulaColumns, c.id ≠ id) → r'.value? id = r.value? id

end Sheet

/-! ## What a pass leaves in the cache -/

namespace Calculator

variable {k k' : Calculator} {s t : Sheet} {c d : FormulaCell} {cells : List FormulaCell}
  {results : List (CellKey × CellResult)}

/-- The result of the cell is kept, with the columns and inputs of the sheet. -/
def KeepsAs (k : Calculator) (s : Sheet) (c : FormulaCell) (result : CellResult) : Prop :=
  k.cached? c.key = some ⟨s.columns, s.inputsOf c.row, result⟩

/-- The results are those of the cells, and all of them are kept. -/
def KeepsAll (k : Calculator) (s : Sheet) : List FormulaCell → List (CellKey × CellResult) → Prop :=
  List.Forall₂ fun c r => r.1 = c.key ∧ k.KeepsAs s c r.2

theorem keepsAs_result (k : Calculator) (s : Sheet) (c : FormulaCell) :
    (k.result s c).2.KeepsAs s c (k.result s c).1 := by
  rw [result]
  cases hcached : k.cached? c.key with
  | none => exact (cached?_keep c.key c.key _).trans (if_pos rfl)
  | some known =>
    simp only
    split_ifs with h
    · obtain ⟨hcolumns, hinputs⟩ := h
      rw [KeepsAs, hcached, ← hcolumns, ← hinputs]
    · exact (cached?_keep c.key c.key _).trans (if_pos rfl)

theorem cached?_result_of_ne (h : c.key ≠ d.key) : (k.result s c).2.cached? d.key = k.cached? d.key := by
  rcases result_cases k s c with ⟨-, hresult⟩ | ⟨-, r, hresult⟩
  · rw [hresult]
  · rw [hresult]
    exact (cached?_keep c.key d.key _).trans (if_neg h)

theorem cached?_results_of_not_mem (h : d.key ∉ cells.map (·.key)) :
    (k.results s cells).2.cached? d.key = k.cached? d.key := by
  induction cells generalizing k with
  | nil => rfl
  | cons c rest ih =>
    rw [List.map_cons, List.mem_cons, not_or] at h
    exact (ih h.2).trans (cached?_result_of_ne (Ne.symm h.1))

theorem keepsAll_results (k : Calculator) (s : Sheet) (h : (cells.map (·.key)).Nodup) :
    (k.results s cells).2.KeepsAll s cells (k.results s cells).1 := by
  induction cells generalizing k with
  | nil => exact .nil
  | cons c rest ih =>
    rw [List.map_cons, List.nodup_cons] at h
    refine .cons ⟨rfl, ?_⟩ (ih (k.result s c).2 h.2)
    exact (cached?_results_of_not_mem (k := (k.result s c).2) h.1).trans (keepsAs_result k s c)

/-- **The results that a pass gives are those that it leaves in the cache.** -/
theorem compute_keepsAll (hs : s.Distinct) (h : k.compute s = (computed, k')) :
    ∃ results, computed = arrange s.rows results ∧ k'.KeepsAll s s.formulaCells results ∧
      ∀ e ∈ k'.cache, (results.map (·.1)).contains e.1 = true := by
  obtain ⟨rfl, rfl⟩ := Prod.mk.inj h
  have hkeeps := keepsAll_results { k with recomputed := 0 } s (Sheet.nodup_key_formulaCells hs)
  refine ⟨_, rfl, ?_, fun e he => (List.mem_filter.mp he).2⟩
  -- the keys of formula cells are not dropped at the end of the pass
  refine ((List.forall₂_and_left _ _).mpr ⟨fun c hc => hc, hkeeps⟩).imp fun c r ⟨hc, hkey, hkept⟩ => ⟨hkey, ?_⟩
  exact (cached?_compute (List.mem_map_of_mem hc)).trans hkept

/-- If all results are kept, a pass hands them out and changes nothing. -/
theorem results_of_keepsAll (h : k.KeepsAll s cells results) : k.results s cells = (results, k) := by
  induction h with
  | nil => rfl
  | @cons c r rest results hcell _ ih =>
    obtain ⟨hkey, hkeeps⟩ := hcell
    have hresult : k.result s c = (r.2, k) := by
      rw [result, hkeeps]
      exact if_pos ⟨rfl, rfl⟩
    rw [Calculator.results, hresult]
    simp only [ih, ← hkey]

theorem compute_of_keepsAll (hs : k.KeepsAll s s.formulaCells results)
    (hcache : ∀ e ∈ k.cache, (results.map (·.1)).contains e.1 = true) :
    k.compute s = (arrange s.rows results, { k with recomputed := 0 }) := by
  have hresults : { k with recomputed := 0 }.results s s.formulaCells = (results, { k with recomputed := 0 }) :=
    results_of_keepsAll hs
  rw [compute, hresults]
  simp only [List.filter_eq_self.mpr hcache]

/-! ## Passes over a sheet on display -/

theorem results_compute (h : k.compute s = (computed, k')) : s.UnderFormulas computed := by
  obtain ⟨rfl, -⟩ := Prod.mk.inj h
  intro key hsome
  by_contra hnone
  rw [arrange, resultAt?_foldl_of_not_mem, resultAt?_places] at hsome
  · cases hsome
  · rintro r hr rfl
    have hmem : r.1 ∈ s.rowIds ×ˢ s.formulaColumns.map (·.id) := by
      rw [← Sheet.key_formulaCells, ← key_results { k with recomputed := 0 } s]
      exact List.mem_map_of_mem hr
    exact hnone (List.mem_map.mp (List.mem_product.mp hmem).2)

theorem keepsAll_overlaid (hs : s.columnIds.Nodup) (hresults : s.UnderFormulas computed)
    (h : k.KeepsAll s s.formulaCells results) :
    k.KeepsAll (s.overlaid computed) (s.overlaid computed).formulaCells results := by
  rw [KeepsAll, Sheet.formulaCells_overlaid, List.forall₂_map_left_iff]
  refine h.imp fun c r ⟨hkey, hkept⟩ => ?_
  have hkey' : FormulaCell.key { c with row := overlayRow computed c.row } = c.key :=
    Prod.ext (id_overlayRow computed c.row) rfl
  have hinputs : (s.overlaid computed).inputsOf (overlayRow computed c.row) = s.inputsOf c.row :=
    Sheet.inputsOf_overlayRow hs hresults c.row
  refine ⟨hkey.trans hkey'.symm, ?_⟩
  rw [KeepsAs, hkey', hinputs]
  exact hkept

theorem arrange_overlaid (s : Sheet) (computed : Computed) (results : List (CellKey × CellResult)) :
    arrange (s.overlaid computed).rows results = arrange s.rows results := by
  rw [arrange, arrange, Sheet.overlaid, overlay, List.map_map]
  refine congrArg (fun places => results.foldl place (Dict.ofList places)) (List.map_congr_left fun r _ => ?_)
  rw [Function.comp_apply, id_overlayRow]

theorem exists_resultAt?_compute (hs : s.Distinct) (h : k.compute s = (computed, k')) (hr : r ∈ s.rows) {c : Column}
    (hc : c ∈ s.formulaColumns) : ∃ result, resultAt? computed (r.id, c.id) = some result := by
  obtain ⟨rfl, -⟩ := Prod.mk.inj h
  have hkeys := key_results { k with recomputed := 0 } s s.formulaCells
  have hmem : (r.id, c.id) ∈ s.formulaCells.map (·.key) := by
    rw [Sheet.key_formulaCells]
    exact List.pair_mem_product.mpr ⟨List.mem_map_of_mem hr, List.mem_map_of_mem hc⟩
  obtain ⟨e, he, hkey⟩ := List.mem_map.mp (hkeys ▸ hmem)
  refine ⟨e.2, hkey ▸ resultAt?_foldl_of_mem he fun e' he' hkey' => ?_⟩
  rw [List.inj_on_of_nodup_map (hkeys ▸ Sheet.nodup_key_formulaCells hs) he' he hkey']

theorem shows_overlayRow (hs : s.Distinct) (h : k.compute s = (computed, k')) (hr : r ∈ s.rows) :
    s.Shows computed r (overlayRow computed r) where
  id := id_overlayRow computed r
  formula := by
    intro c hc
    obtain ⟨result, hresult⟩ := exists_resultAt?_compute hs h hr hc
    rw [value?_overlayRow, hresult]
    cases result with
    | ok value => exact .inl ⟨value, rfl, rfl⟩
    | error e => exact .inr ⟨e, rfl, rfl⟩
  other := fun _ hid => Sheet.value?_overlaid (results_compute h) hid

/-- **What is put on display is read by nobody.** Take any calculator and a sheet with distinct ids, and put the results
of a pass into its cells. The next pass over the sheet on display gives the same results, runs no formula and leaves
the calculator as it is. The tags in use are those of the sheet. Putting the results into the cells once more changes
nothing. The rows stay in order and keep their ids; each successful formula cell shows its result, and every other
cell what it held before. -/
theorem compute_overlaid (hs : s.Distinct) (h : k.compute s = (computed, k')) :
    k'.compute (s.overlaid computed) = (computed, { k' with recomputed := 0 }) ∧
      (s.overlaid computed).tagsInUse = s.tagsInUse ∧
      (s.overlaid computed).overlaid computed = s.overlaid computed ∧
      List.Forall₂ (s.Shows computed) s.rows (s.overlaid computed).rows := by
  obtain ⟨results, rfl, hkeeps, hcache⟩ := compute_keepsAll hs h
  have hresults := results_compute h
  refine ⟨?_, Sheet.tagsInUse_overlaid hs.columns hresults, Sheet.overlaid_overlaid s _, ?_⟩
  · rw [compute_of_keepsAll (keepsAll_overlaid hs.columns hresults hkeeps) hcache, arrange_overlaid]
  · exact List.forall₂_map_right_iff.mpr (List.forall₂_same.mpr fun r hr => shows_overlayRow hs h hr)

/-- A sheet with old texts under its formulas; the second one runs for too long. -/
def slow : Sheet :=
  { Sheet.new "s" "Scores" default with
    columns := [⟨"n", "Score", .number⟩, ⟨"f", "Twice", .formula "Score * 2" .expression⟩,
      ⟨"g", "Never", .formula "loop { }" .expression⟩, ⟨"t", "Labels", .tags⟩]
    rows := [⟨"r", Dict.ofList [("n", "3"), ("f", "4"), ("g", "old"), ("t", "a, b")]⟩] }

/-- A calculator that keeps the results of the sheet. -/
def knowing : Calculator :=
  { new 1000 with
    cache := [(("r", "f"), ⟨slow.columns, [("n", some "3"), ("t", some "a, b")], .ok "6"⟩),
      (("r", "g"), ⟨slow.columns, [("n", some "3"), ("t", some "a, b")], .error .timeout⟩)] }

theorem compute_overlaid_slow : slow.Distinct ∧ ∃ computed k, knowing.compute slow = (computed, k) ∧
    resultAt? computed ("r", "f") = some (.ok "6") ∧ resultAt? computed ("r", "g") = some (.error .timeout) ∧
    k.compute (slow.overlaid computed) = (computed, { k with recomputed := 0 }) ∧
    (slow.overlaid computed).rows =
      [⟨"r", Dict.ofList [("n", "3"), ("f", "6"), ("g", "old"), ("t", "a, b")]⟩] := by
  have hs : slow.Distinct := ⟨by decide, by decide⟩
  obtain ⟨hagain, -, -, -⟩ := compute_overlaid hs (k := knowing) rfl
  exact ⟨hs, _, _, rfl, by decide, by decide, hagain, by decide⟩

end Calculator

end Worksheet
