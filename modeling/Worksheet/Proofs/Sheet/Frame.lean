import Worksheet.Proofs.Sheet.Step
/-!
# What actions read and change

An action reads and changes the columns, the rows and the tag cache. Id, name and stamps have no say in
what it does, and but for the stamp of the last change it leaves them alone.

* `Sheet.holding`: one sheet's content under the id, the name and the stamps of another;
* `Sheet.SameContent`: the same columns, rows and tag cache;
* **`act_holding`**: an action does the same whatever id, name and stamps the content is under;
* `reduce_sameContent`, `replay_sameContent`, `reduce_header`: what follows for stamped actions and runs.
-/

namespace Worksheet.Sheet

variable {s t u : Sheet} {a : Action} {actions : List Action}

/-- The content of `s` under the id, the name and the stamps of `h`. -/
def holding (h s : Sheet) : Sheet :=
  { h with columns := s.columns, rows := s.rows, tagCache := s.tagCache }

/-- Two sheets have the same columns, rows and tag cache. -/
structure SameContent (s t : Sheet) : Prop where
  columns : s.columns = t.columns
  rows : s.rows = t.rows
  tagCache : s.tagCache = t.tagCache

theorem SameContent.refl (s : Sheet) : s.SameContent s :=
  ⟨rfl, rfl, rfl⟩

theorem SameContent.symm (h : s.SameContent t) : t.SameContent s :=
  ⟨h.columns.symm, h.rows.symm, h.tagCache.symm⟩

theorem SameContent.trans (h : s.SameContent t) (h' : t.SameContent u) : s.SameContent u :=
  ⟨h.columns.trans h'.columns, h.rows.trans h'.rows, h.tagCache.trans h'.tagCache⟩

theorem SameContent.holding_eq (h : s.SameContent t) : s.holding t = s := by
  rw [holding, ← h.columns, ← h.rows, ← h.tagCache]

theorem unnoticed_holding (h : Sheet) (id : String) : Unnoticed id h.holding :=
  unnoticed_of (fun _ => rfl) (fun _ _ _ _ => rfl) (moveColumn_map (fun _ => rfl) fun _ _ => rfl)

/-! ## Actions -/

/-- **Id, name and stamps have no say in what an action does**, and it leaves them alone. -/
theorem act_holding (h s : Sheet) (a : Action) : (h.holding s).act a = (s.act a).map h.holding := by
  have hrow : ∀ id, (h.holding s).row? id = s.row? id := fun id => rfl
  have hcolumn? : ∀ id, (h.holding s).column? id = s.column? id := fun id => rfl
  have hcolumn : ∀ id, (h.holding s).column id = s.column id := fun id => rfl
  cases a with
  | updateCell row column value =>
    have htags : ((h.holding s).changeRow row (·.set column value)).column? column = s.column? column := rfl
    have htags' : (s.changeRow row (·.set column value)).column? column = s.column? column := rfl
    simp only [act, updateCell, hrow, htags, htags']
    split_ifs <;> rfl
  | addRow row =>
    simp only [act, addRow, hrow]
    split_ifs <;> rfl
  | deleteRow row =>
    simp only [act, deleteRow, hrow]
    split_ifs <;> rfl
  | addColumn column title name =>
    simp only [act, addColumn, hcolumn?]
    cases ColumnType.read name with
    | error e => rfl
    | ok type =>
      simp only [bind, Except.bind]
      split_ifs <;> rfl
  | deleteColumn column =>
    simp only [act, deleteColumn, hcolumn]
    cases s.column column <;> rfl
  | editColumn column batch =>
    simp only [act, editColumn, hcolumn, (unnoticed_holding h column).edits]
    cases s.column column with
    | error e => rfl
    | ok c =>
      simp only [bind, Except.bind]
      cases s.edits column batch <;> rfl

/-- An accepted action leaves the id, the name and the stamp of the creation alone. -/
theorem reduce_header {now : Stamp} (h : s.reduce a now = .ok t) :
    t.id = s.id ∧ t.name = s.name ∧ t.created = s.created := by
  obtain ⟨u, hu, rfl⟩ := reduce_ok.mp h
  have hact := act_holding s s a
  rw [(SameContent.refl s).holding_eq, hu, Except.map, Except.ok.injEq] at hact
  rw [hact]
  exact ⟨rfl, rfl, rfl⟩

/-- Whether an action is accepted, and what comes of it, depends on the content alone. -/
theorem reduce_sameContent {now : Stamp} (hst : s.SameContent t) (h : s.reduce a now = .ok u)
    (now' : Stamp) : ∃ v, t.reduce a now' = .ok v ∧ u.SameContent v := by
  obtain ⟨w, hw, rfl⟩ := reduce_ok.mp h
  have hact := act_holding t s a
  rw [hst.symm.holding_eq, hw, Except.map] at hact
  exact ⟨_, reduce_ok.mpr ⟨_, hact, rfl⟩, ⟨rfl, rfl, rfl⟩⟩

theorem reduce_restamped {now : Stamp} (hst : { s with updated := t.updated } = t) (h : s.reduce a now = .ok u)
    (now' : Stamp) : ∃ v, t.reduce a now' = .ok v ∧ { u with updated := v.updated } = v := by
  have hcontent : s.SameContent t :=
    ⟨congrArg (·.columns) hst, congrArg (·.rows) hst, congrArg (·.tagCache) hst⟩
  obtain ⟨v, hv, huv⟩ := reduce_sameContent hcontent h now'
  obtain ⟨hid, hname, hcreated⟩ := reduce_header h
  obtain ⟨hid', hname', hcreated'⟩ := reduce_header hv
  refine ⟨v, hv, ?_⟩
  have hholding := huv.symm.holding_eq
  rw [holding, hid', hname', hcreated', ← hst] at hholding
  rw [hid, hname, hcreated]
  exact hholding

/-! ## Runs -/

/-- A run depends on the content alone, and not on the time. -/
theorem replay_sameContent {now : Stamp} (hst : s.SameContent t) (h : s.replay actions now = .ok u)
    (now' : Stamp) : ∃ v, t.replay actions now' = .ok v ∧ u.SameContent v := by
  induction actions generalizing s t with
  | nil =>
    obtain rfl := replay_nil.mp h
    exact ⟨t, replay_nil.mpr rfl, hst⟩
  | cons a rest ih =>
    obtain ⟨s', hs', h⟩ := replay_cons.mp h
    obtain ⟨t', ht', hst'⟩ := reduce_sameContent hst hs' now'
    obtain ⟨v, hv, huv⟩ := ih hst' h
    exact ⟨v, replay_cons.mpr ⟨t', ht', hv⟩, huv⟩

theorem replay_append {now : Stamp} {later : List Action} :
    s.replay (actions ++ later) now = .ok t ↔
      ∃ u, s.replay actions now = .ok u ∧ u.replay later now = .ok t := by
  induction actions generalizing s with
  | nil => simp
  | cons a rest ih =>
    simp only [List.cons_append, replay_cons, ih]
    constructor
    · rintro ⟨v, hv, u, hu, h⟩
      exact ⟨u, ⟨v, hv, hu⟩, h⟩
    · rintro ⟨u, ⟨v, hv, hu⟩, h⟩
      exact ⟨v, hv, u, hu, h⟩

theorem replay_cons_header {now : Stamp} (h : s.replay (a :: actions) now = .ok t) :
    t = ⟨s.id, s.name, s.created, now, t.columns, t.rows, t.tagCache⟩ := by
  induction actions generalizing s a with
  | nil =>
    obtain ⟨u, hu, h⟩ := replay_cons.mp h
    obtain rfl := replay_nil.mp h
    obtain ⟨hid, hname, hcreated⟩ := reduce_header hu
    obtain ⟨v, -, rfl⟩ := reduce_ok.mp hu
    simp only at hid hname hcreated
    rw [← hid, ← hname, ← hcreated]
  | cons b rest ih =>
    obtain ⟨u, hu, h⟩ := replay_cons.mp h
    obtain ⟨hid, hname, hcreated⟩ := reduce_header hu
    rw [← hid, ← hname, ← hcreated]
    exact ih h

end Worksheet.Sheet
