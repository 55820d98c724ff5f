import Worksheet.Proofs.Sheet.EditOrder
/-!
# Texts without a column

A row may hold texts under ids that name no column: a column was deleted, or there never was one. Actions keep such
texts and do not look at them.

* `Sheet.without`: a sheet whose rows hold nothing under some ids; `Sheet.Loose`: none of the ids names a column;
* `unnoticed_without`, `without_refreshTags`: edits and the tag cache do not notice what stands under loose ids;
* `act_without`: an action does the same with and without it;
* **`replay_without`**: so does a run that gives no column a loose id.
-/

namespace Worksheet

/-! ## Leaving texts out -/

/-- The entries whose keys are not among the given ones. -/
def Dict.without {α : Type _} (ids : String → Bool) (d : Dict α) : Dict α :=
  ⟨d.entries.filter (!ids ·.1), d.ascending.sublist List.filter_sublist⟩

theorem Dict.find?_without {α : Type _} (ids : String → Bool) (d : Dict α) (k : String) :
    (d.without ids).find? k = if ids k then none else d.find? k := by
  rw [find?, without, List.find?_filter, find?]
  split_ifs with h
  · rw [Option.map_eq_none_iff, List.find?_eq_none]
    intro e _ he
    simp only [Bool.not_eq_true', beq_iff_eq, decide_eq_true_eq] at he
    rw [he.2, h] at he
    exact absurd he.1 (by decide)
  · congr 2
    funext e
    by_cases he : e.1 = k
    · simp [he, h]
    · simp [he]

namespace Row

variable {ids : String → Bool}

/-- The row without the texts under the given ids. -/
def without (ids : String → Bool) (r : Row) : Row :=
  { r with values := r.values.without ids }

theorem value?_without (ids : String → Bool) (r : Row) (key : String) :
    (r.without ids).value? key = if ids key then none else r.value? key :=
  Dict.find?_without _ _ _

theorem without_change (r : Row) (column : String) (f : String → String) :
    (r.change column f).without ids = (r.without ids).change column f := by
  refine ext_value? rfl fun key => ?_
  simp only [value?_without, value?_change]
  split_ifs <;> rfl

theorem without_without (r : Row) : (r.without ids).without ids = r.without ids := by
  refine ext_value? rfl fun key => ?_
  simp only [value?_without]
  split_ifs <;> rfl

theorem map_without_without (rows : List Row) :
    (rows.map (·.without ids)).map (·.without ids) = rows.map (·.without ids) := by
  rw [List.map_map]
  exact List.map_congr_left fun r _ => r.without_without

theorem without_set (r : Row) (column value : String) :
    ((r.without ids).set column value).without ids = (r.set column value).without ids := by
  refine ext_value? rfl fun key => ?_
  simp only [value?_without, value?_set]
  split_ifs <;> rfl

end Row

/-- The id of the column that an action adds. -/
def Action.newColumn? : Action → Option String
  | addColumn column _ _ => some column
  | _ => none

namespace Sheet

variable {s t : Sheet} {ids : String → Bool} {a : Action}

/-- The sheet without the texts under the given ids. -/
def without (ids : String → Bool) (s : Sheet) : Sheet :=
  { s with rows := s.rows.map (·.without ids) }

/-- None of the ids names a column. -/
def Loose (s : Sheet) (ids : String → Bool) : Prop :=
  ∀ id ∈ s.columnIds, ids id = false

instance : Decidable (s.Loose ids) :=
  inferInstanceAs (Decidable (∀ id ∈ s.columnIds, ids id = false))

@[simp] theorem rowIds_without (ids : String → Bool) (s : Sheet) : (s.without ids).rowIds = s.rowIds := by
  rw [rowIds, without, List.map_map]
  rfl

theorem without_without (s : Sheet) : (s.without ids).without ids = s.without ids :=
  congrArg (fun rows => { s with rows := rows }) (Row.map_without_without s.rows)

/-! ## What does not notice the texts -/

theorem unnoticed_without (ids : String → Bool) (id : String) : Unnoticed id (without ids) := by
  refine unnoticed_of (fun _ => rfl) (fun s f g _ => ?_) (moveColumn_map (fun _ => rfl) fun _ _ => rfl)
  have hrows : (s.rows.map (·.change id g)).map (·.without ids) =
      (s.rows.map (·.without ids)).map (·.change id g) := by
    rw [List.map_map, List.map_map]
    exact List.map_congr_left fun r _ => r.without_change id g
  simp only [retouch, changeColumn, changeValues, without, hrows]

theorem tagsUnder_without {id : String} (h : ids id = false) (rows : List Row) :
    tagsUnder (rows.map (·.without ids)) id = tagsUnder rows id := by
  have hvalue : ∀ r : Row, (r.without ids).value? id = r.value? id := fun r => by
    rw [Row.value?_without, h]
    rfl
  simp only [tagsUnder, List.flatMap_map, hvalue]

theorem without_refreshTags (hs : s.Loose ids) : s.refreshTags.without ids = (s.without ids).refreshTags := by
  have htags : (s.without ids).tagsInUse = s.tagsInUse := tagsInUse_congr rfl fun id hid => by
    obtain ⟨c, hc, -, rfl⟩ := mem_tagsColumnIds.mp hid
    exact tagsUnder_without (hs c.id (List.mem_map_of_mem hc)) s.rows
  rw [refreshTags, refreshTags, htags]
  rfl

theorem without_changeRow (ids : String → Bool) (s : Sheet) (row column value : String) :
    ((s.without ids).changeRow row (·.set column value)).without ids =
      (s.changeRow row (·.set column value)).without ids := by
  have hrows : ∀ rows : List Row,
      (changeFirst (·.id == row) (·.set column value) (rows.map (·.without ids))).map (·.without ids) =
        (changeFirst (·.id == row) (·.set column value) rows).map (·.without ids) := by
    intro rows
    induction rows with
    | nil => rfl
    | cons r rest ih =>
      have hid : (r.without ids).id = r.id := rfl
      rw [List.map_cons, changeFirst, changeFirst, hid]
      split_ifs
      · rw [List.map_cons, List.map_cons, r.without_set, Row.map_without_without]
      · rw [List.map_cons, List.map_cons, r.without_without, ih]
  exact congrArg (fun rows => { s with rows := rows }) (hrows s.rows)

/-! ## Actions -/

theorem Loose.congr (hs : s.Loose ids) (hst : s.without ids = t.without ids) : t.Loose ids := by
  have hcolumns : s.columns = t.columns := congrArg (·.columns) hst
  intro id hid
  rw [columnIds, ← hcolumns] at hid
  exact hs id hid

theorem Loose.columns {columns : List Column} (hs : s.Loose ids)
    (h : ∀ c ∈ columns, c ∈ s.columns ∨ ids c.id = false) : Loose { s with columns := columns } ids := by
  intro id hid
  obtain ⟨c, hc, rfl⟩ := List.mem_map.mp hid
  exact (h c hc).elim (fun hc => hs c.id (List.mem_map_of_mem hc)) fun hc => hc

theorem Loose.concat {c : Column} (hs : s.Loose ids) (hc : ids c.id = false) :
    Loose { s with columns := s.columns ++ [c] } ids :=
  hs.columns fun c' hc' => (List.mem_append.mp hc').imp_right fun hc' => by rwa [List.mem_singleton.mp hc']

theorem Loose.eraseP (hs : s.Loose ids) (p : Column → Bool) : Loose { s with columns := s.columns.eraseP p } ids :=
  hs.columns fun _ hc => .inl (List.mem_of_mem_eraseP hc)

theorem refreshTags_congr (hs : s.Loose ids) (hst : s.without ids = t.without ids) :
    s.refreshTags.without ids = t.refreshTags.without ids := by
  rw [without_refreshTags hs, without_refreshTags (hs.congr hst), hst]

/-- **Texts under loose ids have no say in what an action does.** -/
theorem act_without (hs : s.Loose ids) (ha : ∀ id ∈ a.newColumn?, ids id = false) :
    ((s.without ids).act a).map (without ids) = (s.act a).map (without ids) := by
  have hrow : ∀ id, ((s.without ids).row? id).isSome = (s.row? id).isSome := fun id => by
    rw [Bool.eq_iff_iff, isSome_row?_iff, isSome_row?_iff, rowIds_without]
  have hcolumn? : ∀ id, (s.without ids).column? id = s.column? id := fun _ => rfl
  have hcolumn : ∀ id, (s.without ids).column id = s.column id := fun _ => rfl
  cases a with
  | updateCell row column value =>
    have hcell := without_changeRow ids s row column value
    have htags : ((s.without ids).changeRow row (·.set column value)).column? column =
      (s.changeRow row (·.set column value)).column? column := rfl
    simp only [act, updateCell, hrow, htags]
    split_ifs
    · exact congrArg Except.ok (refreshTags_congr hs hcell)
    · exact congrArg Except.ok hcell
    · rfl
  | addRow row =>
    simp only [act, addRow, hrow]
    split_ifs
    · rfl
    · refine congrArg (fun rows => Except.ok { s with rows := rows }) ?_
      rw [List.map_append, List.map_append]
      exact congrArg (· ++ _) (Row.map_without_without s.rows)
  | deleteRow row =>
    simp only [act, deleteRow, hrow]
    split_ifs
    · refine congrArg Except.ok (refreshTags_congr hs ?_)
      refine congrArg (fun rows => { s with rows := rows }) ?_
      exact (congrArg _ List.eraseP_map).trans (Row.map_without_without _)
    · rfl
  | addColumn column title name =>
    simp only [act, addColumn, hcolumn?]
    cases ColumnType.read name with
    | error e => rfl
    | ok type =>
      simp only [bind, Except.bind]
      split_ifs
      · rfl
      · have hloose := hs.concat (c := Column.new column title type) (ha column rfl)
        exact congrArg Except.ok (refreshTags_congr hloose (without_without { s with columns := _ }))
  | deleteColumn column =>
    simp only [act, deleteColumn, hcolumn]
    cases s.column column with
    | error e => rfl
    | ok c =>
      have hloose := hs.eraseP (·.id == column)
      exact congrArg Except.ok (refreshTags_congr hloose (without_without { s with columns := _ }))
  | editColumn column batch =>
    simp only [act, editColumn, hcolumn, (unnoticed_without ids column).edits]
    cases s.column column with
    | error e => rfl
    | ok c =>
      simp only [bind, Except.bind]
      cases hedits : s.edits column batch with
      | error e => rfl
      | ok u =>
        have hu : u.Loose ids := fun id hid => hs id ((edits_ids hedits).2.mem_iff.mp hid)
        exact congrArg Except.ok (refreshTags_congr hu u.without_without)

theorem Acted.loose (h : s.Acted a t) (hs : s.Loose ids) (ha : ∀ id ∈ a.newColumn?, ids id = false) :
    t.Loose ids := by
  cases h with
  | updateCell => split_ifs <;> exact hs
  | addRow | deleteRow => exact hs
  | addColumn => exact hs.concat (ha _ rfl)
  | deleteColumn => exact hs.eraseP _
  | editColumn hcolumn hedits => exact fun id hid => hs id ((edits_ids hedits).2.mem_iff.mp hid)

/-! ## Runs -/

variable {now : Stamp} {actions : List Action}

theorem reduce_loose (hs : s.Loose ids) (ha : ∀ id ∈ a.newColumn?, ids id = false)
    (h : s.reduce a now = .ok t) : t.Loose ids := by
  obtain ⟨u, hu, rfl⟩ := reduce_ok.mp h
  exact (act_acted hu).loose hs ha

theorem reduce_without (hs : s.Loose ids) (hst : s.without ids = t.without ids)
    (ha : ∀ id ∈ a.newColumn?, ids id = false) (now : Stamp) :
    (s.reduce a now).map (without ids) = (t.reduce a now).map (without ids) := by
  have hreduce : ∀ u : Sheet, (u.reduce a now).map (without ids) =
      ((u.act a).map (without ids)).map ({ · with updated := now }) := fun u => by
    rw [reduce]
    cases u.act a <;> rfl
  rw [hreduce, hreduce, ← act_without hs ha, ← act_without (hs.congr hst) ha, hst]

theorem cases_of_map_eq {ε α β : Type} {f : α → β} {x y : Except ε α} (h : x.map f = y.map f) :
    (∃ a b, x = .ok a ∧ y = .ok b ∧ f a = f b) ∨ ∃ e, x = .error e ∧ y = .error e := by
  cases x with
  | ok a =>
    cases y with
    | ok b => exact .inl ⟨a, b, rfl, rfl, Except.ok.inj h⟩
    | error e => cases h
  | error e =>
    cases y with
    | ok b => cases h
    | error e' => cases h; exact .inr ⟨e, rfl, rfl⟩

theorem replayFrom_without (index : Nat) (hs : s.Loose ids) (hst : s.without ids = t.without ids)
    (hactions : ∀ a ∈ actions, ∀ id ∈ a.newColumn?, ids id = false) :
    (s.replayFrom index now actions).map (without ids) = (t.replayFrom index now actions).map (without ids) := by
  induction actions generalizing index s t with
  | nil => exact congrArg Except.ok hst
  | cons a rest ih =>
    rw [List.forall_mem_cons] at hactions
    rw [replayFrom, replayFrom]
    rcases cases_of_map_eq (reduce_without hs hst hactions.1 now) with ⟨s', t', hs', ht', hst'⟩ | ⟨e, hs', ht'⟩
    · rw [hs', ht']
      exact ih (index + 1) (reduce_loose hs hactions.1 hs') hst' hactions.2
    · rw [hs', ht']

/-- **A run does the same whatever stands under loose ids**: it is refused at the same action for the same reason,
or gives sheets that are equal but for such texts. -/
theorem replay_without (hs : s.Loose ids) (hst : s.without ids = t.without ids)
    (hactions : ∀ a ∈ actions, ∀ id ∈ a.newColumn?, ids id = false) (now : Stamp) :
    (s.replay actions now).map (without ids) = (t.replay actions now).map (without ids) :=
  replayFrom_without 0 hs hst hactions

theorem replay_loose (hs : s.Loose ids) (hactions : ∀ a ∈ actions, ∀ id ∈ a.newColumn?, ids id = false)
    (h : s.replay actions now = .ok t) : t.Loose ids := by
  induction actions generalizing s with
  | nil =>
    obtain rfl := replay_nil.mp h
    exact hs
  | cons a rest ih =>
    rw [List.forall_mem_cons] at hactions
    obtain ⟨u, hu, h⟩ := replay_cons.mp h
    exact ih (reduce_loose hs hactions.1 hu) hactions.2 h

end Sheet

end Worksheet
