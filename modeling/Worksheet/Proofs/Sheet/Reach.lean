import Mathlib.Data.List.Forall2
import Worksheet.Proofs.Sheet.Frame
import Worksheet.Proofs.Sheet.TagCache
/-!
# How far an action reaches

An action changes the row, the column or the cell that it names. All others stay as they are, and in order.

* `Row.ChangedAt`: a row in which a text under one id may have become another one;
* `Sheet.Reaches`: for each kind of action, what it leaves alone and what it adds or takes away;
* `edits_rows`, `edits_columns`: a batch of edits sends the texts under its column through one function, and
  passes over the other columns;
* **`reduce_reaches`**: every accepted action keeps to that.
-/

namespace Worksheet

/-! ## Moving a member that a filter leaves out -/

section Moving

variable {α : Type} {p : α → Bool} {a : α}

theorem filter_insertIdx_of_neg (hp : p a = false) (l : List α) (j : Nat) :
    (l.insertIdx j a).filter p = l.filter p := by
  induction l generalizing j with
  | nil => cases j <;> simp [hp]
  | cons b l ih => cases j <;> simp [hp, List.filter_cons, ih]

theorem filter_eraseIdx_of_neg (hp : p a = false) {l : List α} {i : Nat} (ha : l[i]? = some a) :
    (l.eraseIdx i).filter p = l.filter p := by
  induction l generalizing i with
  | nil => simp
  | cons b l ih =>
    cases i with
    | zero =>
      obtain rfl : b = a := by simpa using ha
      simp [hp]
    | succ i => simp [List.filter_cons, ih (by simpa using ha)]

theorem filter_changeFirst {q : α → Bool} {f : α → α} (hq : ∀ a, q a = true → p a = false ∧ p (f a) = false)
    (l : List α) : (changeFirst q f l).filter p = l.filter p := by
  induction l with
  | nil => rfl
  | cons b l ih =>
    rw [changeFirst]
    split_ifs with h
    · simp [hq b h]
    · simp [List.filter_cons, ih]

end Moving

section DistinctKeys

variable {α : Type} {key : α → String} {id : String} {l : List α}

/-- Among members with keys of their own, the first one of a key is the only one. -/
theorem changeFirst_eq_map {f : α → α} (hl : (l.map key).Nodup) :
    changeFirst (key · == id) f l = l.map fun a => if key a = id then f a else a := by
  induction l with
  | nil => rfl
  | cons a l ih =>
    rw [List.map_cons, List.nodup_cons] at hl
    rw [changeFirst, List.map_cons]
    by_cases h : key a = id
    · have hrest : l.map (fun a => if key a = id then f a else a) = l := by
        refine (List.map_congr_left fun b hb => if_neg fun hid => ?_).trans (List.map_id l)
        exact hl.1 (h.trans hid.symm ▸ List.mem_map_of_mem hb)
      rw [if_pos (by simpa using h), if_pos h, hrest]
    · rw [if_neg (by simpa using h), if_neg h, ih hl.2]

theorem eraseP_eq_filter (hl : (l.map key).Nodup) : l.eraseP (key · == id) = l.filter (key · != id) := by
  induction l with
  | nil => rfl
  | cons a l ih =>
    rw [List.map_cons, List.nodup_cons] at hl
    by_cases h : key a = id
    · have hrest : l.filter (key · != id) = l := by
        refine List.filter_eq_self.mpr fun b hb => ?_
        simpa using fun hid : key b = id => hl.1 (h.trans hid.symm ▸ List.mem_map_of_mem hb)
      simp [h, hrest]
    · simp [h, ih hl.2]

end DistinctKeys

/-! ## Rows -/

namespace Row

variable {column : String}

/-- The second row is the first one, but that texts under an id may have become others. -/
structure ChangedAt (column : String) (r r' : Row) : Prop where
  id : r'.id = r.id
  keys : r'.values.keys = r.values.keys
  others : ∀ key, key ≠ column → r'.value? key = r.value? key

theorem changedAt_change (r : Row) (column : String) (f : String → String) :
    r.ChangedAt column (r.change column f) := by
  refine ⟨rfl, Dict.keys_adjust _ _ _, fun key hkey => ?_⟩
  rw [value?, change, Dict.find?_adjust, if_neg (Ne.symm hkey)]
  rfl

theorem change_change (r : Row) (column : String) (f g : String → String) :
    (r.change column f).change column g = r.change column (g ∘ f) := by
  have h : (r.values.adjust column f).adjust column g = r.values.adjust column (g ∘ f) := by
    refine Dict.ext_find? fun k => ?_
    simp only [Dict.find?_adjust]
    split_ifs
    · exact Option.map_map g f _
    · rfl
  simp only [change, h]

end Row

namespace Sheet

variable {s t : Sheet} {column : String}

/-! ## Batches of edits -/

/-- A batch sends the texts under its column through one function, the same for every row. -/
theorem edits_rows {batch : List ColumnEdit} (h : s.edits column batch = .ok t) :
    ∃ g : String → String, t.rows = s.rows.map (·.change column g) := by
  refine edits_induction (P := fun t => ∃ g : String → String, t.rows = s.rows.map (·.change column g)) ?_ h
    ⟨fun text => text, congrArg Sheet.rows (changeValues_id s column).symm⟩
  rintro u v e huv ⟨g, hg⟩
  rcases edit_cases huv with ⟨f, g', -, rfl⟩ | ⟨i, j, c, -, -, -, rfl⟩
  · refine ⟨g' ∘ g, ?_⟩
    change u.rows.map (·.change column g') = _
    rw [hg, List.map_map]
    exact List.map_congr_left fun r _ => r.change_change column g g'
  · exact ⟨g, hg⟩

theorem edits_columns {batch : List ColumnEdit} (h : s.edits column batch = .ok t) :
    t.columns.filter (·.id != column) = s.columns.filter (·.id != column) := by
  refine edits_induction (P := fun t => t.columns.filter (·.id != column) = s.columns.filter (·.id != column)) ?_
    h rfl
  intro u v e huv hu
  rcases edit_cases huv with ⟨f, g, hf, rfl⟩ | ⟨i, j, c, hc, rfl, -, rfl⟩
  · exact (filter_changeFirst (fun c hc => by simpa [hf c] using hc) u.columns).trans hu
  · have hself : (c.id != c.id) = false := bne_self_eq_false c.id
    exact ((filter_insertIdx_of_neg (p := fun k : Column => k.id != c.id) hself _ j).trans
      (filter_eraseIdx_of_neg (p := fun k : Column => k.id != c.id) hself hc)).trans hu

/-! ## Actions -/

/-- What an action leaves alone, and what it adds or takes away. -/
def Reaches (s t : Sheet) : Action → Prop
  | .updateCell row column value =>
    t.columns = s.columns ∧ row ∈ s.rowIds ∧
      List.Forall₂ (fun r r' => r'.id = r.id ∧ ∀ key,
        r'.value? key = if r.id = row ∧ key = column then some value else r.value? key) s.rows t.rows
  | .addRow row => t.columns = s.columns ∧ row ∉ s.rowIds ∧ t.rows = s.rows ++ [⟨row, ∅⟩]
  | .deleteRow row => t.columns = s.columns ∧ row ∈ s.rowIds ∧ t.rows = s.rows.filter (·.id != row)
  | .addColumn column title name =>
    t.rows = s.rows ∧ column ∉ s.columnIds ∧ ∃ type, ColumnType.ofName? name = some type ∧
      t.columns = s.columns ++ [⟨column, title, .ofType type⟩]
  | .deleteColumn column =>
    t.rows = s.rows ∧ column ∈ s.columnIds ∧ t.columns = s.columns.filter (·.id != column)
  | .editColumn column _ =>
    List.Forall₂ (Row.ChangedAt column) s.rows t.rows ∧
      column ∈ s.columnIds ∧ column ∈ t.columnIds ∧ t.columns.length = s.columns.length ∧
      t.columns.filter (·.id != column) = s.columns.filter (·.id != column)

theorem forall₂_set {row value : String} (hs : s.rowIds.Nodup) :
    List.Forall₂ (fun r r' : Row => r'.id = r.id ∧ ∀ key,
      r'.value? key = if r.id = row ∧ key = column then some value else r.value? key)
      s.rows (s.changeRow row (·.set column value)).rows := by
  rw [changeRow, changeFirst_eq_map hs, List.forall₂_map_right_iff, List.forall₂_same]
  intro r _
  by_cases hr : r.id = row
  · simp only [hr, if_true, true_and]
    refine ⟨hr, fun key => ?_⟩
    rw [Row.value?, Row.set, Dict.find?_insert]
    simp only [eq_comm]
    rfl
  · simp [hr]

theorem Acted.reaches {a : Action} (h : s.Acted a t) (hs : s.Distinct) : s.Reaches t a := by
  cases h with
  | updateCell hrow => split_ifs <;> exact ⟨rfl, hrow, forall₂_set hs.rows⟩
  | addRow hrow => exact ⟨rfl, hrow, rfl⟩
  | deleteRow hrow => exact ⟨rfl, hrow, eraseP_eq_filter hs.rows⟩
  | addColumn htype hcolumn => exact ⟨rfl, hcolumn, _, htype, rfl⟩
  | deleteColumn hcolumn => exact ⟨rfl, hcolumn, eraseP_eq_filter hs.columns⟩
  | editColumn hcolumn hedits =>
    rename_i u
    obtain ⟨g, hg⟩ := edits_rows hedits
    have hids := (edits_ids hedits).2
    have hlength : u.columns.length = s.columns.length := by simpa [columnIds] using hids.length_eq
    have hothers := edits_columns hedits
    refine ⟨?_, hcolumn, hids.mem_iff.mpr hcolumn, hlength, hothers⟩
    change List.Forall₂ _ s.rows u.rows
    rw [hg, List.forall₂_map_right_iff, List.forall₂_same]
    exact fun r _ => r.changedAt_change _ g

/-- **An accepted action changes what it names and nothing else.** The id, the name and the stamp of the creation
stay, and the stamp of the last change is the given one. An update of a cell leaves the columns and all other cells;
a new row or column comes last, a deleted one is the only one to go, and values under the id of a column stay when
the column comes or goes. A batch of edits leaves the other columns in their order, the keys of every row and the
values under other ids. -/
theorem reduce_reaches {a : Action} {now : Stamp} (hs : s.Distinct) (h : s.reduce a now = .ok t) :
    (t.id = s.id ∧ t.name = s.name ∧ t.created = s.created ∧ t.updated = now) ∧ s.Reaches t a := by
  obtain ⟨hid, hname, hcreated⟩ := reduce_header h
  obtain ⟨u, hu, rfl⟩ := reduce_ok.mp h
  refine ⟨⟨hid, hname, hcreated, rfl⟩, ?_⟩
  have hreaches := (act_acted hu).reaches hs
  cases a <;> exact hreaches

/-- Notes that become tags and come first. -/
theorem reduce_reaches_labelled : labelled.Distinct ∧ ∃ t,
    labelled.reduce (.editColumn "n" [.changeType "tags", .reorder 0]) default = .ok t ∧
      t.columnIds = ["n", "t"] ∧ t.name = "Labels" ∧
      labelled.Reaches t (.editColumn "n" [.changeType "tags", .reorder 0]) := by
  have hs : labelled.Distinct := ⟨by decide, by decide⟩
  obtain ⟨t, h, hids⟩ : ∃ t, labelled.reduce (.editColumn "n" [.changeType "tags", .reorder 0]) default = .ok t ∧
      t.columnIds = ["n", "t"] := ⟨_, rfl, rfl⟩
  obtain ⟨⟨-, hname, -⟩, hreaches⟩ := reduce_reaches hs h
  exact ⟨hs, t, h, hids, hname, hreaches⟩

end Sheet

end Worksheet
