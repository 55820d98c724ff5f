import Worksheet.Calculator
import Worksheet.Proofs.Formula.Preamble
/-!
# What the cache of a calculator holds

A kept result is the one that its columns and inputs lead to, whatever was computed in between. Columns
may share an id; then the first formula column of the id answers for all of them.

* `Sheet.leader`, `Sheet.settled`: the cell that answers for a cell, and the result;
* `Calculator.Sound`: every kept result is the settled one of the cells it may be handed out for;
* **`settles_formulaCells`**: from a sound cache every cell gets its settled result, and the cache stays sound.
-/

namespace Worksheet

open Formula

/-! ## The result of a cell -/

namespace Sheet

variable {s t : Sheet} {r r' : Row}

/-- The first formula cell of the row under the same column id. -/
def leader (s : Sheet) (c : FormulaCell) : FormulaCell :=
  ((s.formulaCellsOf c.row).find? (·.column == c.column)).getD c

/-- The result that a cell of the sheet has. -/
def settled (s : Sheet) (timeout : Nat) (c : FormulaCell) : CellResult :=
  (s.leader c).evaluate s.inputColumns timeout

theorem leader_eq {before after : List FormulaCell} {c : FormulaCell}
    (hrow : s.formulaCellsOf c.row = before ++ c :: after) (hbefore : ∀ d ∈ before, d.column ≠ c.column) :
    s.leader c = c := by
  have hnone : before.find? (·.column == c.column) = none :=
    List.find?_eq_none.mpr fun d hd hcolumn => hbefore d hd (beq_iff_eq.mp hcolumn)
  simp [leader, hrow, List.find?_append, hnone]

theorem mem_formulaCellsOf {c : FormulaCell} : c ∈ s.formulaCellsOf r ↔
    c.row = r ∧ ∃ k ∈ s.columns, k.id = c.column ∧ k.kind = .formula c.source c.mode := by
  rw [formulaCellsOf, List.mem_filterMap]
  constructor
  · rintro ⟨k, hk, h⟩
    split at h <;> cases h
    exact ⟨rfl, k, hk, rfl, ‹_›⟩
  · rintro ⟨rfl, k, hk, hid, hkind⟩
    refine ⟨k, hk, ?_⟩
    rw [hkind, hid]

theorem formulaCellsOf_row (s : Sheet) (r r' : Row) :
    s.formulaCellsOf r' = (s.formulaCellsOf r).map ({ · with row := r' }) := by
  rw [formulaCellsOf, formulaCellsOf, List.map_filterMap]
  refine List.filterMap_congr fun k _ => ?_
  cases k.kind <;> rfl

theorem formulaCellsOf_congr (h : s.columns = t.columns) (r : Row) :
    s.formulaCellsOf r = t.formulaCellsOf r := by
  rw [formulaCellsOf, formulaCellsOf, h]

theorem inputColumns_congr (h : s.columns = t.columns) : s.inputColumns = t.inputColumns := by
  rw [inputColumns, inputColumns, h]

theorem value?_of_inputsOf (h : s.inputsOf r = s.inputsOf r') :
    ∀ c ∈ s.inputColumns, r.value? c.id = r'.value? c.id := by
  intro c hc
  have := List.map_inj_left.mp h c hc
  exact (Prod.mk.inj this).2

/-- **Columns, inputs and ids settle the result.** -/
theorem settled_congr {timeout : Nat} {c c' : FormulaCell} (hcolumns : s.columns = t.columns)
    (hinputs : s.inputsOf c.row = t.inputsOf c'.row) (hkey : c.key = c'.key)
    (hc : c ∈ s.formulaCellsOf c.row) : s.settled timeout c = t.settled timeout c' := by
  obtain ⟨hid, hcolumn⟩ := Prod.mk.inj hkey
  obtain ⟨d, hd⟩ := Option.isSome_iff_exists.mp
    (List.find?_isSome (p := fun d : FormulaCell => d.column == c.column).mpr ⟨c, hc, beq_self_eq_true _⟩)
  have hd' : (t.formulaCellsOf c'.row).find? (·.column == c'.column) = some { d with row := c'.row } := by
    rw [← formulaCellsOf_congr hcolumns, formulaCellsOf_row s c.row, List.find?_map, ← hcolumn]
    have hcomp : (fun x : FormulaCell => x.column == c.column) ∘
        (fun x : FormulaCell => { x with row := c'.row }) = fun x => x.column == c.column := rfl
    rw [hcomp, hd, Option.map_some]
  have hrow : d.row = c.row := (mem_formulaCellsOf.mp (List.mem_of_find?_eq_some hd)).1
  have hvalues := value?_of_inputsOf
    (hinputs.trans (by rw [inputsOf, inputsOf, inputColumns_congr hcolumns]))
  rw [settled, settled, leader, leader, hd, hd', Option.getD_some, Option.getD_some,
    FormulaCell.evaluate, FormulaCell.evaluate, ← inputColumns_congr hcolumns, hrow, hid,
    compile_congr _ _ _ hvalues]

end Sheet

/-! ## A sound cache -/

namespace Calculator

variable {k : Calculator} {s : Sheet}

/-- Every kept result is the settled one of each cell that it may be handed out for. -/
def Sound (k : Calculator) : Prop :=
  ∀ e ∈ k.cache, ∀ (s : Sheet) (c : FormulaCell), c ∈ s.formulaCellsOf c.row → c.key = e.1 →
    s.columns = e.2.columns → s.inputsOf c.row = e.2.inputs → e.2.result = s.settled k.timeout c

/-- The result of the cell is kept, with the columns and inputs of the sheet. -/
def Keeps (k : Calculator) (s : Sheet) (c : FormulaCell) : Prop :=
  k.cached? c.key = some ⟨s.columns, s.inputsOf c.row, s.settled k.timeout c⟩

theorem sound_new (timeout : Nat) : (new timeout).Sound :=
  fun _ h => absurd h List.not_mem_nil

theorem sound_invalidate (k : Calculator) : k.invalidate.Sound :=
  fun _ h => absurd h List.not_mem_nil

theorem mem_of_cached? {key : CellKey} {cell : CachedCell} (h : k.cached? key = some cell) :
    (key, cell) ∈ k.cache := by
  obtain ⟨e, he, rfl⟩ := Option.map_eq_some_iff.mp h
  obtain rfl : e.1 = key := by simpa using List.find?_some he
  exact List.mem_of_find?_eq_some he

theorem cached?_keep (key key' : CellKey) (cell : CachedCell) :
    (k.keep key cell).cached? key' = if key = key' then some cell else k.cached? key' := by
  rw [cached?, keep, List.find?_cons, List.find?_filter]
  by_cases h : key = key'
  · simp [h]
  · have hp : ∀ e : CellKey × CachedCell, decide ((e.1 != key) = true ∧ (e.1 == key') = true) = (e.1 == key') := by
      intro e
      by_cases he : e.1 = key'
      · simp [he, Ne.symm h]
      · simp [he]
    rw [if_neg h, beq_false_of_ne h, funext hp, cached?]

/-! ## One cell -/

theorem Sound.keep (hk : k.Sound) {c : FormulaCell} (hc : c ∈ s.formulaCellsOf c.row) :
    (k.keep c.key ⟨s.columns, s.inputsOf c.row, s.settled k.timeout c⟩).Sound := by
  intro e he t d hd hkey hcolumns hinputs
  rcases List.mem_cons.mp he with rfl | he
  · exact Sheet.settled_congr hcolumns.symm hinputs.symm hkey.symm hc
  · exact hk e (List.mem_filter.mp he).1 t d hd hkey hcolumns hinputs

variable {r : Row} {before after : List FormulaCell} {c : FormulaCell}

/-- The cell is kept with the columns and inputs that the sheet has now. -/
def Hit (k : Calculator) (s : Sheet) (c : FormulaCell) : Prop :=
  ∃ known, k.cached? c.key = some known ∧ known.columns = s.columns ∧ known.inputs = s.inputsOf c.row

theorem result_of_hit (hk : k.Sound) (hc : c ∈ s.formulaCellsOf c.row) (hit : k.Hit s c) :
    k.result s c = (s.settled k.timeout c, k) ∧ k.Keeps s c := by
  obtain ⟨known, hknown, hcolumns, hinputs⟩ := hit
  have hresult := hk _ (mem_of_cached? hknown) s c hc rfl hcolumns.symm hinputs.symm
  constructor
  · rw [← hresult]
    simp only [result, hknown, hcolumns, hinputs, and_self, if_true]
  · rw [Keeps, hknown, ← hcolumns, ← hinputs, ← hresult]

theorem result_of_not_hit (hit : ¬ k.Hit s c) (hleader : s.leader c = c) :
    k.result s c = (s.settled k.timeout c,
      { k.keep c.key ⟨s.columns, s.inputsOf c.row, s.settled k.timeout c⟩ with
        recomputed := k.recomputed + 1 }) := by
  rw [Sheet.settled, hleader, result]
  split
  · rename_i known hknown
    rw [if_neg fun h => hit ⟨known, hknown, h⟩]
    rfl
  · rfl

/-- **A cell gets its settled result**, and the cache stays sound, as long as the results of the cells
before it in the row are kept. -/
theorem result_eq (hk : k.Sound) (hrow : s.formulaCellsOf r = before ++ c :: after)
    (hbefore : ∀ d ∈ before, k.Keeps s d) :
    (k.result s c).1 = s.settled k.timeout c ∧ (k.result s c).2.Sound ∧
      (k.result s c).2.timeout = k.timeout ∧ ∀ d ∈ before ++ [c], (k.result s c).2.Keeps s d := by
  have hrows : ∀ d ∈ before ++ c :: after, d.row = r := fun d hd =>
    (Sheet.mem_formulaCellsOf.mp (hrow ▸ hd)).1
  have hcr : c.row = r := hrows c (by simp)
  have hc : c ∈ s.formulaCellsOf c.row := by simp [hcr, hrow]
  by_cases hit : k.Hit s c
  · -- a kept result is handed out, and nothing changes
    obtain ⟨hres, hkept⟩ := result_of_hit hk hc hit
    rw [hres]
    refine ⟨rfl, hk, rfl, fun d hd => ?_⟩
    rcases List.mem_append.mp hd with hd | hd
    · exact hbefore d hd
    · obtain rfl := List.mem_singleton.mp hd
      exact hkept
  · -- no cell before it has its column id, so it answers for itself
    have hfirst : ∀ d ∈ before, d.key ≠ c.key := by
      intro d hd hkey
      have hdr : d.row = c.row := (hrows d (List.mem_append_left _ hd)).trans hcr.symm
      exact hit ⟨_, hkey.symm ▸ show k.cached? d.key = _ from hbefore d hd, rfl, by rw [hdr]⟩
    have hleader : s.leader c = c := by
      refine Sheet.leader_eq (hcr ▸ hrow) fun d hd hcolumn => ?_
      have hdr : d.row = c.row := (hrows d (List.mem_append_left _ hd)).trans hcr.symm
      exact hfirst d hd (Prod.ext (congrArg Row.id hdr) hcolumn)
    rw [result_of_not_hit hit hleader]
    refine ⟨rfl, hk.keep hc, rfl, fun d hd => ?_⟩
    have hkept := cached?_keep (k := k) c.key d.key ⟨s.columns, s.inputsOf c.row, s.settled k.timeout c⟩
    refine Eq.trans hkept ?_
    rcases List.mem_append.mp hd with hd | hd
    · rw [if_neg (Ne.symm (hfirst d hd))]
      exact hbefore d hd
    · obtain rfl := List.mem_singleton.mp hd
      exact if_pos rfl

/-! ## All cells -/

/-- Every one of the cells gets its settled result, and the cache stays sound. -/
structure Settles (k : Calculator) (s : Sheet) (cells : List FormulaCell) : Prop where
  results : (k.results s cells).1 = cells.map fun c => (c.key, s.settled k.timeout c)
  sound : (k.results s cells).2.Sound
  timeout : (k.results s cells).2.timeout = k.timeout

theorem results_append (k : Calculator) (s : Sheet) (cells later : List FormulaCell) :
    k.results s (cells ++ later) =
      ((k.results s cells).1 ++ ((k.results s cells).2.results s later).1,
        ((k.results s cells).2.results s later).2) := by
  induction cells generalizing k with
  | nil => rfl
  | cons c rest ih => simp only [List.cons_append, results, ih]

theorem Settles.append {cells later : List FormulaCell} (h : k.Settles s cells)
    (hlater : (k.results s cells).2.Settles s later) : k.Settles s (cells ++ later) := by
  refine ⟨?_, ?_, ?_⟩
  · rw [results_append, List.map_append, h.results, hlater.results, h.timeout]
  · rw [results_append]
    exact hlater.sound
  · rw [results_append]
    exact hlater.timeout.trans h.timeout

theorem settles_row (hk : k.Sound) (hrow : s.formulaCellsOf r = before ++ after)
    (hbefore : ∀ d ∈ before, k.Keeps s d) : k.Settles s after := by
  induction after generalizing k before with
  | nil => exact ⟨rfl, hk, rfl⟩
  | cons c rest ih =>
    obtain ⟨hresult, hsound, htimeout, hkeeps⟩ := result_eq hk hrow hbefore
    have hrest := ih hsound (by rw [hrow, List.append_assoc, List.singleton_append]) hkeeps
    refine ⟨?_, hrest.sound, hrest.timeout.trans htimeout⟩
    rw [results, List.map_cons]
    exact congrArg₂ List.cons (by rw [hresult]) (by rw [hrest.results, htimeout])

/-- **From a sound cache every formula cell of a sheet gets its settled result.** -/
theorem settles_formulaCells (hk : k.Sound) (s : Sheet) : k.Settles s s.formulaCells := by
  have key : ∀ (rows : List Row) (k : Calculator), k.Sound →
      k.Settles s (rows.flatMap s.formulaCellsOf) := by
    intro rows
    induction rows with
    | nil => exact fun k hk => ⟨rfl, hk, rfl⟩
    | cons r rest ih =>
      intro k hk
      have hrow : k.Settles s (s.formulaCellsOf r) :=
        settles_row hk (List.nil_append _).symm fun d hd => absurd hd List.not_mem_nil
      rw [List.flatMap_cons]
      exact hrow.append (ih _ hrow.sound)
  exact key s.rows k hk

/-- A pass over a sheet gives the settled results and leaves the cache sound. -/
theorem compute_eq (hk : k.Sound) (s : Sheet) :
    (k.compute s).1 = arrange s.rows (s.formulaCells.map fun c => (c.key, s.settled k.timeout c)) ∧
      (k.compute s).2.Sound ∧ (k.compute s).2.timeout = k.timeout := by
  have hpass := settles_formulaCells (k := { k with recomputed := 0 }) hk s
  refine ⟨congrArg (arrange s.rows) hpass.results, ?_, hpass.timeout⟩
  intro e he
  exact hpass.sound e (List.mem_filter.mp he).1

end Calculator

end Worksheet
