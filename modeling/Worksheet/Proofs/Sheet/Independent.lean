import Worksheet.Proofs.Sheet.EditOrder
/-!
# Independent actions

Actions that meet in no cell do the same in either order, the tag cache included.

* `Row.put`, `Row.append`, `Row.drop`: what actions do to single rows, and which of it can be swapped;
* `Sheet.outcome`: the columns and rows that an action leads to, which depend on columns and rows alone;
* `Independent`: pairs of actions that do not meet;
* `outcome_comm`: they lead to the same columns and rows;
* **`replay_comm`**: both orders are accepted and give one sheet, or both are refused.
-/

namespace Worksheet

/-! ## Changes of single rows -/

namespace Row

variable {row row' column column' value value' : String} {rows : List Row}

/-- Puts a text into a cell of the first row of an id, which must be there. -/
def put (row column value : String) (rows : List Row) : Option (List Row) :=
  if row ∈ rows.map (·.id) then some (changeFirst (·.id == row) (·.set column value) rows) else none

/-- Adds a row without values under an id that no row has. -/
def append (row : String) (rows : List Row) : Option (List Row) :=
  if row ∈ rows.map (·.id) then none else some (rows ++ [new row])

/-- Takes the first row of an id away, which must be there. -/
def drop (row : String) (rows : List Row) : Option (List Row) :=
  if row ∈ rows.map (·.id) then some (rows.eraseP (·.id == row)) else none

@[simp] theorem ids_put (row column value : String) (rows : List Row) :
    (changeFirst (·.id == row) (·.set column value) rows).map (·.id) = rows.map (·.id) :=
  map_changeFirst _ (fun _ => by rfl) _

@[simp] theorem ids_change (column : String) (g : String → String) (rows : List Row) :
    (rows.map (·.change column g)).map (·.id) = rows.map (·.id) := by
  rw [List.map_map]
  rfl

theorem mem_ids_drop (h : row ≠ row') :
    row ∈ (rows.eraseP (·.id == row')).map (·.id) ↔ row ∈ rows.map (·.id) := by
  simp only [List.mem_map]
  refine exists_congr fun r => and_congr_left fun hr => List.mem_eraseP_of_neg ?_
  simpa [hr] using h

theorem put_comm (h : row ≠ row' ∨ column ≠ column') :
    (put row column value rows).bind (put row' column' value') =
      (put row' column' value' rows).bind (put row column value) := by
  have hswap := changeFirst_comm (p := fun r : Row => r.id == row) (q := fun r : Row => r.id == row')
    (f := (·.set column value)) (g := (·.set column' value')) (fun _ => rfl) (fun _ => rfl)
    (fun r hr hr' => r.set_comm (h.resolve_left fun hne => hne (by simp_all)) value value') rows
  by_cases hrow : row ∈ rows.map (·.id) <;> by_cases hrow' : row' ∈ rows.map (·.id) <;>
    simp only [put, hrow, hrow', if_true, if_false, Option.bind_some, Option.bind_none, ids_put, hswap]

theorem put_append (h : row ≠ row') :
    (put row column value rows).bind (append row') = (append row' rows).bind (put row column value) := by
  have hmem : row ∈ (rows ++ [new row']).map (·.id) ↔ row ∈ rows.map (·.id) := by simp [new, h]
  have hswap := changeFirst_concat (p := fun r : Row => r.id == row) (f := (·.set column value)) (a := new row')
    (by simpa [new] using h.symm) rows
  by_cases hrow : row ∈ rows.map (·.id) <;> by_cases hrow' : row' ∈ rows.map (·.id) <;>
    simp only [put, append, hrow, hrow', if_true, if_false, Option.bind_some, Option.bind_none, ids_put, hmem, hswap]

theorem put_drop (h : row ≠ row') :
    (put row column value rows).bind (drop row') = (drop row' rows).bind (put row column value) := by
  have hswap := changeFirst_eraseP (p := fun r : Row => r.id == row) (q := fun r : Row => r.id == row')
    (f := (·.set column value)) (fun _ => rfl) (fun r hr => by simpa [beq_iff_eq.mp hr] using h.symm) rows
  by_cases hrow : row ∈ rows.map (·.id) <;> by_cases hrow' : row' ∈ rows.map (·.id) <;>
    simp only [put, drop, hrow, hrow', if_true, if_false, Option.bind_some, Option.bind_none, ids_put,
      mem_ids_drop h, hswap]

/-! Changing the texts under a column passes over cells of other columns, new rows and deleted rows. -/

theorem put_change (h : column ≠ column') (g : String → String) (rows : List Row) :
    put row column value (rows.map (·.change column' g)) =
      (put row column value rows).map (·.map (·.change column' g)) := by
  have hswap := changeFirst_map (p := fun r : Row => r.id == row) (f := (·.set column value))
    (g := (·.change column' g)) (fun _ => rfl) (fun r => r.change_set h value g) rows
  rw [put, put, ids_change, hswap]
  split_ifs <;> rfl

theorem append_change (row column : String) (g : String → String) (rows : List Row) :
    append row (rows.map (·.change column g)) = (append row rows).map (·.map (·.change column g)) := by
  rw [append, append, ids_change]
  split_ifs
  · rfl
  · rw [Option.map_some, List.map_append, List.map_singleton, change_new]

theorem drop_change (row column : String) (g : String → String) (rows : List Row) :
    drop row (rows.map (·.change column g)) = (drop row rows).map (·.map (·.change column g)) := by
  rw [drop, drop, ids_change, List.eraseP_map]
  split_ifs <;> rfl

end Row

namespace Sheet

variable {s t u : Sheet} {a b : Action} {now : Stamp}

/-! ## What actions make of columns and rows -/

/-- The columns and rows that an action leads to. -/
def outcome (s : Sheet) (a : Action) : Option Sheet :=
  (s.act a).toOption.map bare

/-- The action changes the rows alone, in the given way. -/
def ActsOnRows (a : Action) (ρ : List Row → Option (List Row)) : Prop :=
  ∀ s : Sheet, s.outcome a = (ρ s.rows).map (plain s.columns)

theorem actsOnRows_updateCell (row column value : String) :
    ActsOnRows (.updateCell row column value) (Row.put row column value) := fun s => by
  have hrow : (s.row? row).isSome = true ↔ row ∈ s.rows.map (·.id) := isSome_row?_iff
  rw [outcome, act, updateCell, Row.put]
  by_cases h : row ∈ s.rows.map (·.id)
  · rw [if_pos (hrow.mpr h), if_pos h]
    dsimp only
    split_ifs <;> rfl
  · rw [if_neg (mt hrow.mp h), if_neg h]
    rfl

theorem actsOnRows_addRow (row : String) : ActsOnRows (.addRow row) (Row.append row) := fun s => by
  have hrow : (s.row? row).isSome = true ↔ row ∈ s.rows.map (·.id) := isSome_row?_iff
  rw [outcome, act, addRow, Row.append]
  by_cases h : row ∈ s.rows.map (·.id)
  · rw [if_pos (hrow.mpr h), if_pos h]
    rfl
  · rw [if_neg (mt hrow.mp h), if_neg h]
    rfl

theorem actsOnRows_deleteRow (row : String) : ActsOnRows (.deleteRow row) (Row.drop row) := fun s => by
  have hrow : (s.row? row).isSome = true ↔ row ∈ s.rows.map (·.id) := isSome_row?_iff
  rw [outcome, act, deleteRow, Row.drop]
  by_cases h : row ∈ s.rows.map (·.id)
  · rw [if_pos (hrow.mpr h), if_pos h]
    rfl
  · rw [if_neg (mt hrow.mp h), if_neg h]
    rfl

theorem outcome_editColumn (s : Sheet) (column : String) (batch : List ColumnEdit) :
    s.outcome (.editColumn column batch) = (s.edited column batch).map bare := by
  rw [outcome, act, editColumn]
  cases hcolumn : s.column column with
  | error e =>
    have hmem : column ∉ s.columnIds := by
      rw [← isSome_column?_iff]
      intro h
      obtain ⟨c, hc⟩ := Option.isSome_iff_exists.mp h
      rw [Sheet.column, hc] at hcolumn
      cases hcolumn
    rw [edited_of_not_mem hmem]
    rfl
  | ok c =>
    rw [edited_of_mem (mem_columnIds_of_column hcolumn)]
    simp only [bind, Except.bind]
    cases s.edits column batch <;> rfl

theorem ActsOnRows.bare {ρ : List Row → Option (List Row)} (h : ActsOnRows a ρ) (s : Sheet) :
    s.bare.outcome a = s.outcome a :=
  (h s.bare).trans (h s).symm

/-- **What an action makes of columns and rows depends on them alone.** -/
theorem outcome_bare (s : Sheet) (a : Action) : (bare s).outcome a = s.outcome a := by
  have hcolumn? : ∀ id, (bare s).column? id = s.column? id := fun _ => rfl
  have hcolumn : ∀ id, (bare s).column id = s.column id := fun _ => rfl
  cases a with
  | updateCell row column value => exact (actsOnRows_updateCell row column value).bare s
  | addRow row => exact (actsOnRows_addRow row).bare s
  | deleteRow row => exact (actsOnRows_deleteRow row).bare s
  | addColumn column title name =>
    simp only [outcome, act, addColumn, hcolumn?]
    cases ColumnType.read name with
    | error e => rfl
    | ok type =>
      simp only [bind, Except.bind]
      split_ifs <;> rfl
  | deleteColumn column =>
    simp only [outcome, act, deleteColumn, hcolumn]
    cases s.column column <;> rfl
  | editColumn column batch =>
    rw [outcome_editColumn, outcome_editColumn, (unnoticed_bare column).edited (fun _ => rfl), Option.map_map]
    rfl

/-! ## Pairs of actions -/

/-- Two actions that meet in no cell: they are for different cells, columns or rows, at most one of them moves a
column, and neither adds or deletes the row of the other. -/
inductive Independent : Action → Action → Prop
  | cells {row column value row' column' value' : String} (h : row ≠ row' ∨ column ≠ column') :
    Independent (.updateCell row column value) (.updateCell row' column' value')
  | cellEdits {row column value column' : String} {batch : List ColumnEdit} (h : column ≠ column') :
    Independent (.updateCell row column value) (.editColumn column' batch)
  | edits {column column' : String} {batch batch' : List ColumnEdit} (h : column ≠ column')
    (hmove : (∀ index, .reorder index ∉ batch) ∨ ∀ index, .reorder index ∉ batch') :
    Independent (.editColumn column batch) (.editColumn column' batch')
  | addRowEdits {row column : String} {batch : List ColumnEdit} :
    Independent (.addRow row) (.editColumn column batch)
  | deleteRowEdits {row column : String} {batch : List ColumnEdit} :
    Independent (.deleteRow row) (.editColumn column batch)
  | cellAddRow {row column value row' : String} (h : row ≠ row') :
    Independent (.updateCell row column value) (.addRow row')
  | cellDeleteRow {row column value row' : String} (h : row ≠ row') :
    Independent (.updateCell row column value) (.deleteRow row')

variable {ρ σ : List Row → Option (List Row)} {column column' : String} {batch batch' : List ColumnEdit}

theorem ActsOnRows.comm (ha : ActsOnRows a ρ) (hb : ActsOnRows b σ)
    (hswap : (ρ s.rows).bind σ = (σ s.rows).bind ρ) :
    (s.outcome a).bind (·.outcome b) = (s.outcome b).bind (·.outcome a) := by
  have hbind : ∀ {a b ρ σ}, ActsOnRows a ρ → ActsOnRows b σ →
      (s.outcome a).bind (·.outcome b) = ((ρ s.rows).bind σ).map (plain s.columns) := by
    intro a b ρ σ ha hb
    rw [ha s, Option.bind_map, Option.map_bind]
    exact Option.bind_congr fun rows _ => hb _
  rw [hbind ha hb, hbind hb ha, hswap]

/-- A change of rows that goes together with changing the texts under a column, and a batch of edits of it. -/
theorem ActsOnRows.comm_edits (ha : ActsOnRows a ρ) (hswap : ∀ (g : String → String) rows,
      ρ (rows.map (·.change column g)) = (ρ rows).map (·.map (·.change column g))) :
    (s.outcome a).bind (·.outcome (.editColumn column batch)) =
      (s.outcome (.editColumn column batch)).bind (·.outcome a) := by
  calc (s.outcome a).bind (·.outcome (.editColumn column batch))
      = ((ρ s.rows).map (plain s.columns)).bind fun t => (t.edited column batch).map Sheet.bare := by
        rw [ha s]
        exact Option.bind_congr fun t _ => outcome_editColumn t column batch
    _ = (s.edited column batch).bind fun t => (ρ t.rows).map (plain t.columns) := edited_rows hswap s
    _ = (s.outcome (.editColumn column batch)).bind (·.outcome a) := by
        rw [outcome_editColumn, Option.bind_map]
        exact Option.bind_congr fun t _ => (ha t.bare).symm

theorem outcome_edits_comm (h : column ≠ column') (hbatch : ∀ index, .reorder index ∉ batch) :
    (s.outcome (.editColumn column batch)).bind (·.outcome (.editColumn column' batch')) =
      (s.outcome (.editColumn column' batch')).bind (·.outcome (.editColumn column batch)) := by
  have hbind : ∀ c batch d batch', (s.outcome (.editColumn c batch)).bind (·.outcome (.editColumn d batch')) =
      ((s.edited c batch).bind (·.edited d batch')).map bare := by
    intro c batch d batch'
    rw [outcome_editColumn, Option.bind_map, Option.map_bind]
    refine Option.bind_congr fun t _ => ?_
    exact (outcome_bare t _).trans (outcome_editColumn t d batch')
  rw [hbind, hbind, edited_comm h hbatch]

/-- **Independent actions lead to the same columns and rows in either order**, or are refused in both. -/
theorem outcome_comm (h : Independent a b) (s : Sheet) :
    (s.outcome a).bind (·.outcome b) = (s.outcome b).bind (·.outcome a) := by
  cases h with
  | cells h => exact (actsOnRows_updateCell _ _ _).comm (actsOnRows_updateCell _ _ _) (Row.put_comm h)
  | cellEdits h => exact (actsOnRows_updateCell _ _ _).comm_edits (Row.put_change h)
  | edits h hmove =>
    rcases hmove with hbatch | hbatch
    · exact outcome_edits_comm h hbatch
    · exact (outcome_edits_comm h.symm hbatch).symm
  | addRowEdits => exact (actsOnRows_addRow _).comm_edits (Row.append_change _ _)
  | deleteRowEdits => exact (actsOnRows_deleteRow _).comm_edits (Row.drop_change _ _)
  | cellAddRow h => exact (actsOnRows_updateCell _ _ _).comm (actsOnRows_addRow _) (Row.put_append h)
  | cellDeleteRow h => exact (actsOnRows_updateCell _ _ _).comm (actsOnRows_deleteRow _) (Row.put_drop h)

/-! ## Header and tag cache -/

theorem replay_outcome (s : Sheet) (a b : Action) (now : Stamp) :
    (s.replay [a, b] now).toOption.map bare = (s.outcome a).bind (·.outcome b) := by
  have hreduce : ∀ u : Sheet, ∀ a, (u.reduce a now).toOption.map bare = u.outcome a := by
    intro u a
    rw [reduce, outcome]
    cases u.act a <;> rfl
  rw [← hreduce s a, Option.bind_map, replay, replayFrom]
  cases s.reduce a now with
  | error e => rfl
  | ok u =>
    change (u.replayFrom 1 now [b]).toOption.map bare = (bare u).outcome b
    rw [outcome_bare, ← hreduce, replayFrom]
    cases u.reduce b now <;> rfl

/-- An action that leaves the cache alone leaves the columns, and with them what other actions refresh. -/
theorem refreshes_of_reduce (h : s.reduce a now = .ok t) (ha : ¬ s.Refreshes a) :
    t.Refreshes b ↔ s.Refreshes b := by
  obtain ⟨u, hu, rfl⟩ := reduce_ok.mp h
  have hcolumns : u.columns = s.columns := by
    cases act_acted hu with
    | updateCell => split_ifs <;> rfl
    | addRow => rfl
    | deleteRow | addColumn | deleteColumn | editColumn => exact absurd trivial ha
  cases b <;> simp only [Refreshes, hcolumns]

/-- Whether one of two actions brings the cache up to date does not depend on their order. -/
theorem someRefreshes_pair (h : s.replay [a, b] now = .ok t) :
    s.SomeRefreshes now [a, b] ↔ s.Refreshes a ∨ s.Refreshes b := by
  obtain ⟨u, hu, -⟩ := replay_cons.mp h
  by_cases ha : s.Refreshes a
  · exact iff_of_true (.inl ha) (.inl ha)
  · rw [← refreshes_of_reduce (b := b) hu ha]
    simp [SomeRefreshes, ha, hu]

/-- Runs of two actions that lead to the same columns and rows lead to the same sheet. -/
theorem replay_pair_eq (hs : s.Distinct) (hab : s.replay [a, b] now = .ok t) (hba : s.replay [b, a] now = .ok u)
    (hbare : t.bare = u.bare) : t = u := by
  have hcolumns : t.columns = u.columns := congrArg (·.columns) hbare
  have hrows : t.rows = u.rows := congrArg (·.rows) hbare
  have hcache : t.tagCache = u.tagCache := by
    obtain ⟨-, hyes, hno⟩ := replay_invariant hs hab
    obtain ⟨-, hyes', hno'⟩ := replay_invariant hs hba
    rw [someRefreshes_pair hab] at hyes hno
    rw [someRefreshes_pair hba, or_comm (a := s.Refreshes b)] at hyes' hno'
    by_cases hsome : s.Refreshes a ∨ s.Refreshes b
    · rw [hyes (.inr hsome), hyes' (.inr hsome), tagsInUse, tagsInUse, hcolumns, hrows]
    · rw [(hno hsome).1, (hno' hsome).1]
  have hheader : t = ⟨s.id, s.name, s.created, now, t.columns, t.rows, t.tagCache⟩ := replay_cons_header hab
  rw [hheader, hcolumns, hrows, hcache]
  exact (replay_cons_header hba).symm

/-- **Independent actions can be taken in either order.** Both orders are refused, or both lead to one sheet: the
columns in their order, the rows and the tag cache are the same, and so is all else. -/
theorem replay_comm (hs : s.Distinct) (h : Independent a b) (now : Stamp) :
    (s.replay [a, b] now).toOption = (s.replay [b, a] now).toOption := by
  have hbare : (s.replay [a, b] now).toOption.map bare = (s.replay [b, a] now).toOption.map bare := by
    rw [replay_outcome, replay_outcome, outcome_comm h s]
  cases hab : s.replay [a, b] now with
  | error e =>
    cases hba : s.replay [b, a] now with
    | error e' => rfl
    | ok u => rw [hab, hba] at hbare; cases hbare
  | ok t =>
    cases hba : s.replay [b, a] now with
    | error e' => rw [hab, hba] at hbare; cases hbare
    | ok u =>
      rw [hab, hba] at hbare
      exact congrArg some (replay_pair_eq hs hab hba (Option.some.inj hbare))

/-- A tags cell, and notes that become tags and come first. -/
theorem replay_comm_labelled : labelled.Distinct ∧
    Independent (.updateCell "r" "t" "b, c") (.editColumn "n" [.changeType "tags", .reorder 0]) ∧
    ∃ t, (labelled.replay [.updateCell "r" "t" "b, c", .editColumn "n" [.changeType "tags", .reorder 0]]
        default).toOption = some t ∧
      (labelled.replay [.editColumn "n" [.changeType "tags", .reorder 0], .updateCell "r" "t" "b, c"]
        default).toOption = some t := by
  have hs : labelled.Distinct := ⟨by decide, by decide⟩
  have h : Independent (.updateCell "r" "t" "b, c") (.editColumn "n" [.changeType "tags", .reorder 0]) :=
    .cellEdits (by decide)
  exact ⟨hs, h, _, rfl, (replay_comm hs h default).symm.trans rfl⟩

end Sheet

end Worksheet
