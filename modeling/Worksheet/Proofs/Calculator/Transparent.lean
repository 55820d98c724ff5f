import Mathlib.Data.List.Induction
import Worksheet.Proofs.Calculator.Cache
import Worksheet.Proofs.Sheet.TagCache
/-!
# Computing from the cache

What a calculator has computed before does not show in what it gives.

* `Calculator.Request`, `Calculator.after`: a history of passes over any sheets, with the cache emptied in between;
* `Direct`: one result for each row and formula column, the one of the formula run by itself;
* **`compute_after`**: after any history a pass gives what a new calculator gives; if the ids of the sheet
  are distinct, that is the direct result.
-/

namespace Worksheet

open Formula

namespace Sheet

/-- The columns that hold a formula. -/
def formulaColumns (s : Sheet) : List Column :=
  s.columns.filter Column.isFormula

/-- The results hold one for each row and formula column: the one that the compiled formula has when it is
run by itself, under a name made of the two ids. -/
structure Direct (s : Sheet) (timeout : Nat) (computed : Computed) : Prop where
  rows : computed.keys.Perm s.rowIds
  columns : ∀ id results, computed.find? id = some results →
    results.keys.Perm (s.formulaColumns.map (·.id))
  results : ∀ r ∈ s.rows, ∀ c ∈ s.columns, ∀ source mode, c.kind = .formula source mode →
    (computed.find? r.id).bind (·.find? c.id) = some (Formula.evaluate
      ((compile mode source s.inputColumns r).named ("formula_" ++ r.id ++ "_" ++ c.id)) timeout)

variable {s : Sheet} {timeout : Nat} {c d : FormulaCell}

theorem mem_formulaCells : c ∈ s.formulaCells ↔ c.row ∈ s.rows ∧ c ∈ s.formulaCellsOf c.row := by
  rw [formulaCells, List.mem_flatMap]
  constructor
  · rintro ⟨r, hr, hc⟩
    obtain rfl := (mem_formulaCellsOf.mp hc).1
    exact ⟨hr, hc⟩
  · rintro ⟨hr, hc⟩
    exact ⟨c.row, hr, hc⟩

theorem eq_of_column_eq (hs : s.Distinct) {r : Row} (hc : c ∈ s.formulaCellsOf r)
    (hd : d ∈ s.formulaCellsOf r) (h : c.column = d.column) : c = d := by
  obtain ⟨hrow, k, hk, hid, hkind⟩ := mem_formulaCellsOf.mp hc
  obtain ⟨hrow', k', hk', hid', hkind'⟩ := mem_formulaCellsOf.mp hd
  obtain rfl : k = k' :=
    List.inj_on_of_nodup_map hs.columns hk hk' (hid.trans (h.trans hid'.symm))
  obtain ⟨hsource, hmode⟩ := ColumnKind.formula.inj (hkind.symm.trans hkind')
  cases c
  cases d
  simp_all

theorem eq_of_key_eq (hs : s.Distinct) (hc : c ∈ s.formulaCells) (hd : d ∈ s.formulaCells)
    (h : c.key = d.key) : c = d := by
  obtain ⟨hid, hcolumn⟩ := Prod.mk.inj h
  obtain ⟨hcr, hc⟩ := mem_formulaCells.mp hc
  obtain ⟨hdr, hd⟩ := mem_formulaCells.mp hd
  have hrow : c.row = d.row := List.inj_on_of_nodup_map hs.rows hcr hdr hid
  exact eq_of_column_eq hs hc (hrow ▸ hd) hcolumn

/-- Under distinct ids a cell is settled by its own formula. -/
theorem settled_eq (hs : s.Distinct) (hc : c ∈ s.formulaCells) :
    s.settled timeout c = c.evaluate s.inputColumns timeout := by
  have hmem := (mem_formulaCells.mp hc).2
  obtain ⟨d, hd⟩ := Option.isSome_iff_exists.mp
    (List.find?_isSome (p := fun d : FormulaCell => d.column == c.column).mpr
      ⟨c, hmem, beq_self_eq_true _⟩)
  have hcolumn : d.column = c.column := by simpa using List.find?_some hd
  rw [settled, leader, hd, Option.getD_some,
    eq_of_column_eq hs (List.mem_of_find?_eq_some hd) hmem hcolumn]

end Sheet

namespace Calculator

variable {s : Sheet} {computed : Computed} {results : List (CellKey × CellResult)} {key : CellKey}

/-! ## Results by row and column -/

/-- The result that stands under a row and a column. -/
def resultAt? (computed : Computed) (key : CellKey) : Option CellResult :=
  (computed.find? key.1).bind (·.find? key.2)

theorem resultAt?_place (computed : Computed) (r : CellKey × CellResult) (key : CellKey) :
    resultAt? (place computed r) key = if r.1 = key then some r.2 else resultAt? computed key := by
  obtain ⟨⟨row, column⟩, result⟩ := r
  obtain ⟨row', column'⟩ := key
  rw [resultAt?, place, Dict.find?_insert]
  by_cases hrow : row = row'
  · subst hrow
    rw [if_pos rfl, Option.bind_some, Dict.find?_insert]
    by_cases hcolumn : column = column'
    · rw [if_pos hcolumn, if_pos (by rw [hcolumn])]
    · rw [if_neg hcolumn, if_neg (by simpa using hcolumn), resultAt?]
      cases computed.find? row <;> rfl
  · rw [if_neg hrow, if_neg fun h => hrow (Prod.mk.inj h).1]
    rfl

theorem contains_place (computed : Computed) (r : CellKey × CellResult) (id : String) :
    (place computed r).contains id = (decide (r.1.1 = id) || computed.contains id) := by
  rw [Dict.contains, place, Dict.find?_insert]
  by_cases h : r.1.1 = id <;> simp [h, Dict.contains]

/-- The results of a cell agree, so it does not matter which of them is placed last. -/
theorem resultAt?_foldl_of_mem {v : CellResult} (hmem : (key, v) ∈ results)
    (hagree : ∀ r ∈ results, r.1 = key → r.2 = v) :
    resultAt? (results.foldl place computed) key = some v := by
  induction results using List.reverseRecOn with
  | nil => exact absurd hmem List.not_mem_nil
  | append_singleton rest r ih =>
    rw [List.foldl_append, List.foldl_cons, List.foldl_nil, resultAt?_place]
    split_ifs with h
    · rw [hagree r (by simp) h]
    · refine ih ?_ fun r hr => hagree r (List.mem_append_left _ hr)
      rcases List.mem_append.mp hmem with hmem | hmem
      · exact hmem
      · obtain rfl := List.mem_singleton.mp hmem
        exact absurd rfl h

theorem resultAt?_foldl_of_not_mem (h : ∀ r ∈ results, r.1 ≠ key) :
    resultAt? (results.foldl place computed) key = resultAt? computed key := by
  induction results generalizing computed with
  | nil => rfl
  | cons r rest ih =>
    rw [List.foldl_cons, ih fun r hr => h r (List.mem_cons_of_mem _ hr), resultAt?_place,
      if_neg (h r List.mem_cons_self)]

theorem contains_foldl_place (results : List (CellKey × CellResult)) (computed : Computed) (id : String) :
    (results.foldl place computed).contains id = true ↔
      computed.contains id = true ∨ ∃ r ∈ results, r.1.1 = id := by
  induction results generalizing computed with
  | nil => simp
  | cons r rest ih =>
    rw [List.foldl_cons, ih, contains_place]
    simp only [Bool.or_eq_true, decide_eq_true_eq, List.mem_cons, exists_eq_or_imp]
    tauto

theorem find?_places (s : Sheet) (id : String) :
    (Dict.ofList (s.rows.map fun r => (r.id, (∅ : Dict CellResult)))).find? id =
      if id ∈ s.rowIds then some ∅ else none := by
  split_ifs with h
  · obtain ⟨r, hr, rfl⟩ := List.mem_map.mp h
    refine Dict.find?_ofList_of_agree (List.mem_map.mpr ⟨r, hr, rfl⟩) fun e he _ => ?_
    obtain ⟨r', -, rfl⟩ := List.mem_map.mp he
    rfl
  · refine Dict.find?_ofList_eq_none fun e he heq => h ?_
    obtain ⟨r, hr, rfl⟩ := List.mem_map.mp he
    exact List.mem_map.mpr ⟨r, hr, heq⟩

theorem resultAt?_places (s : Sheet) (key : CellKey) :
    resultAt? (Dict.ofList (s.rows.map fun r => (r.id, (∅ : Dict CellResult)))) key = none := by
  rw [resultAt?, find?_places]
  split_ifs <;> rfl

/-! ## The direct result -/

/-- The results of the formula cells, arranged by row and column. -/
def arranged (s : Sheet) (timeout : Nat) : Computed :=
  arrange s.rows (s.formulaCells.map fun c => (c.key, s.settled timeout c))

variable {timeout : Nat}

theorem resultAt?_arranged (hs : s.Distinct) {c : FormulaCell} (hc : c ∈ s.formulaCells) :
    resultAt? (arranged s timeout) c.key = some (c.evaluate s.inputColumns timeout) := by
  rw [arranged, arrange]
  refine resultAt?_foldl_of_mem (List.mem_map.mpr ⟨c, hc, by rw [Sheet.settled_eq hs hc]⟩) ?_
  intro r hr hkey
  obtain ⟨d, hd, rfl⟩ := List.mem_map.mp hr
  obtain rfl := Sheet.eq_of_key_eq hs hd hc hkey
  exact Sheet.settled_eq hs hd

theorem isSome_resultAt?_arranged (hs : s.Distinct) (key : CellKey) :
    (resultAt? (arranged s timeout) key).isSome = true ↔ ∃ c ∈ s.formulaCells, c.key = key := by
  constructor
  · intro h
    by_contra hnone
    rw [arranged, arrange, resultAt?_foldl_of_not_mem, resultAt?_places] at h
    · exact absurd h (by simp)
    · rintro r hr rfl
      obtain ⟨c, hc, rfl⟩ := List.mem_map.mp hr
      exact hnone ⟨c, hc, rfl⟩
  · rintro ⟨c, hc, rfl⟩
    rw [resultAt?_arranged hs hc]
    rfl

theorem mem_keys_arranged (s : Sheet) (timeout : Nat) (id : String) :
    id ∈ (arranged s timeout).keys ↔ id ∈ s.rowIds := by
  rw [Dict.mem_keys, ← Dict.contains_iff, arranged, arrange, contains_foldl_place, Dict.contains,
    find?_places]
  constructor
  · rintro (h | ⟨r, hr, rfl⟩)
    · by_contra hid
      rw [if_neg hid] at h
      cases h
    · obtain ⟨c, hc, rfl⟩ := List.mem_map.mp hr
      exact List.mem_map.mpr ⟨c.row, (Sheet.mem_formulaCells.mp hc).1, rfl⟩
  · intro h
    exact .inl (by rw [if_pos h]; rfl)

theorem direct_arranged (hs : s.Distinct) (timeout : Nat) : s.Direct timeout (arranged s timeout) := by
  refine ⟨?_, fun id results h => ?_, fun r hr c hc source mode hkind => ?_⟩
  · exact (List.perm_ext_iff_of_nodup (Dict.nodup_keys _) hs.rows).mpr (mem_keys_arranged s timeout)
  · have hrow : id ∈ s.rowIds := (mem_keys_arranged s timeout id).mp (Dict.mem_keys.mpr ⟨_, h⟩)
    obtain ⟨r, hr, rfl⟩ := List.mem_map.mp hrow
    have hnodup : (s.formulaColumns.map (·.id)).Nodup := hs.columns.sublist (List.filter_sublist.map _)
    refine (List.perm_ext_iff_of_nodup (Dict.nodup_keys _) hnodup).mpr fun column => ?_
    have hresult : resultAt? (arranged s timeout) (r.id, column) = results.find? column := by
      rw [resultAt?, h, Option.bind_some]
    rw [Dict.mem_keys, ← Option.isSome_iff_exists, ← hresult, isSome_resultAt?_arranged hs, List.mem_map]
    constructor
    · rintro ⟨c, hc, hkey⟩
      obtain ⟨-, k, hk, hid, hkind⟩ := Sheet.mem_formulaCellsOf.mp (Sheet.mem_formulaCells.mp hc).2
      refine ⟨k, List.mem_filter.mpr ⟨hk, ?_⟩, hid.trans (Prod.mk.inj hkey).2⟩
      simp [Column.isFormula, Column.type, hkind, ColumnKind.type]
    · rintro ⟨k, hk, rfl⟩
      obtain ⟨hk, hformula⟩ := List.mem_filter.mp hk
      obtain ⟨source, mode, hkind⟩ : ∃ source mode, k.kind = .formula source mode := by
        cases h : k.kind <;> simp [Column.isFormula, Column.type, h, ColumnKind.type] at hformula ⊢
      refine ⟨⟨r, k.id, source, mode⟩, Sheet.mem_formulaCells.mpr ⟨hr, ?_⟩, rfl⟩
      exact Sheet.mem_formulaCellsOf.mpr ⟨rfl, k, hk, rfl, hkind⟩
  · have hcell : (⟨r, c.id, source, mode⟩ : FormulaCell) ∈ s.formulaCells :=
      Sheet.mem_formulaCells.mpr ⟨hr, Sheet.mem_formulaCellsOf.mpr ⟨rfl, c, hc, rfl, hkind⟩⟩
    exact resultAt?_arranged hs hcell

/-! ## Histories -/

/-- What a calculator may be asked for. -/
inductive Request
  | compute (s : Sheet)
  | invalidate

/-- The calculator after a request. -/
def serve (k : Calculator) : Request → Calculator
  | .compute s => (k.compute s).2
  | .invalidate => k.invalidate

/-- The calculator after a history of requests. -/
def after (k : Calculator) (history : List Request) : Calculator :=
  history.foldl serve k

theorem sound_serve {k : Calculator} (hk : k.Sound) (q : Request) :
    (k.serve q).Sound ∧ (k.serve q).timeout = k.timeout := by
  cases q with
  | compute s => exact (compute_eq hk s).2
  | invalidate => exact ⟨sound_invalidate k, rfl⟩

theorem sound_after {k : Calculator} (hk : k.Sound) (history : List Request) :
    (k.after history).Sound ∧ (k.after history).timeout = k.timeout := by
  induction history generalizing k with
  | nil => exact ⟨hk, rfl⟩
  | cons q rest ih =>
    obtain ⟨hserve, htimeout⟩ := sound_serve hk q
    obtain ⟨hrest, hrest'⟩ := ih hserve
    exact ⟨hrest, hrest'.trans htimeout⟩

/-- **The cache does not show.** After any history of passes over any sheets a pass gives what a new
calculator gives. If the ids of the sheet are distinct, that is the direct result of each formula cell. -/
theorem compute_after (timeout : Nat) (history : List Request) (s : Sheet) :
    (((new timeout).after history).compute s).1 = ((new timeout).compute s).1 ∧
      (s.Distinct → s.Direct timeout (((new timeout).after history).compute s).1) := by
  obtain ⟨hsound, htimeout⟩ := sound_after (sound_new timeout) history
  have hafter : (((new timeout).after history).compute s).1 = arranged s timeout := by
    rw [(compute_eq hsound s).1, htimeout]
    rfl
  have hnew : ((new timeout).compute s).1 = arranged s timeout := (compute_eq (sound_new timeout) s).1
  rw [hafter, hnew]
  exact ⟨rfl, fun hs => direct_arranged hs timeout⟩

/-- A sheet with two formulas; the second one fails where there is no amount. -/
def priced : Sheet :=
  { Sheet.new "s" "Prices" default with
    columns := [⟨"n", "Amount", .number⟩, ⟨"f", "Twice", .formula "Amount * 2" .expression⟩,
      ⟨"g", "Share", .formula "12 / Amount" .expression⟩]
    rows := [⟨"r", Dict.ofList [("n", "3")]⟩, ⟨"q", ∅⟩] }

/-- An older state of the sheet, in which two rows and two columns share their ids. -/
def pricedBefore : Sheet :=
  { priced with
    columns := priced.columns ++ [⟨"f", "Half", .formula "Amount / 2" .expression⟩]
    rows := [⟨"r", Dict.ofList [("n", "3")]⟩, ⟨"r", Dict.ofList [("n", "4")]⟩] }

theorem compute_after_priced : priced.Distinct ∧
    (((new 1000).after [.compute priced, .compute pricedBefore]).compute priced).1 =
      ((new 1000).compute priced).1 ∧
    priced.Direct 1000 (((new 1000).after [.compute priced, .compute pricedBefore]).compute priced).1 := by
  have hs : priced.Distinct := ⟨by decide, by decide⟩
  obtain ⟨hnew, hdirect⟩ := compute_after 1000 [.compute priced, .compute pricedBefore] priced
  exact ⟨hs, hnew, hdirect hs⟩

end Calculator

end Worksheet
