import Worksheet.Proofs.Sheet.EditOrder
/-!
# Ids of deleted columns

When a column is deleted, the texts under it stay in the rows, and its id can be used again.

* `Sheet.attempt`, `Sheet.attemptAll`: actions that may be refused, one after the other;
* `Sheet.textsUnder`: the texts under an id, with the ids of their rows;
* `Acted.textsUnder`, `textsUnder_attempt`: what an action does to the texts under an id that names no column;
* `textsUnder_attemptAll`: what a history of actions leaves of them;
* **`addColumn_deleted`**: a column that is added under the id of a deleted one shows the texts of the deleted one.
-/

namespace Worksheet

/-- The action adds no column under the id, and puts no text under it. -/
def Action.Spares (column : String) : Action → Prop
  | addColumn column' _ _ => column' ≠ column
  | updateCell _ column' _ => column' ≠ column
  | _ => True

/-- The text of a row under an id, with the id of the row. -/
def Row.textUnder? (column : String) (r : Row) : Option (String × String) :=
  (r.value? column).map (r.id, ·)

namespace Sheet

variable {s t : Sheet} {column : String} {a : Action} {now : Stamp}

/-- The sheet after an action, or the old one if the action is refused. -/
def attempt (s : Sheet) (now : Stamp) (a : Action) : Sheet :=
  match s.reduce a now with
  | .ok t => t
  | .error _ => s

/-- The sheet after a history of actions, each with its time. -/
def attemptAll (s : Sheet) (history : List (Stamp × Action)) : Sheet :=
  history.foldl (fun s o => s.attempt o.1 o.2) s

/-- The texts under an id, with the ids of their rows. -/
def textsUnder (s : Sheet) (column : String) : List (String × String) :=
  s.rows.filterMap (Row.textUnder? column)

/-! ## One action -/

theorem textsUnder_congr (h : t.rows.map (Row.textUnder? column) = s.rows.map (Row.textUnder? column)) :
    t.textsUnder column = s.textsUnder column := by
  have hmap : ∀ u : Sheet, u.textsUnder column = (u.rows.map (Row.textUnder? column)).filterMap fun e => e := by
    intro u
    rw [List.filterMap_map]
    rfl
  rw [hmap, hmap, h]

theorem Acted.not_mem_columnIds (h : s.Acted a t) (hcolumn : column ∉ s.columnIds) (ha : a.Spares column) :
    column ∉ t.columnIds := by
  cases h with
  | updateCell => split_ifs <;> exact hcolumn
  | addRow | deleteRow => exact hcolumn
  | addColumn =>
    intro hmem
    rw [columnIds, refreshTags, List.map_append] at hmem
    rcases List.mem_append.mp hmem with hmem | hmem
    · exact hcolumn hmem
    · exact ha (List.mem_singleton.mp hmem).symm
  | deleteColumn => exact fun hmem => hcolumn ((List.eraseP_sublist.map _).mem hmem)
  | editColumn _ hedits => exact fun hmem => hcolumn ((edits_ids hedits).2.mem_iff.mp hmem)

theorem Acted.textsUnder (h : s.Acted a t) (hs : s.Distinct) (hcolumn : column ∉ s.columnIds)
    (ha : a.Spares column) : t.textsUnder column = (s.textsUnder column).filter (a != .deleteRow ·.1) := by
  have hkeep : ∀ {texts : List (String × String)}, (∀ row, a ≠ .deleteRow row) →
      texts.filter (a != .deleteRow ·.1) = texts := fun hne =>
    List.filter_eq_self.mpr fun e _ => bne_iff_ne.mpr (hne e.1)
  cases h with
  | @updateCell row column' value =>
    have hvalue : ∀ r : Row, (r.set column' value).value? column = r.value? column := fun r =>
      (Row.value?_set _ _ _ _).trans (if_neg ha)
    have hrows : (s.changeRow row (·.set column' value)).textsUnder column = s.textsUnder column :=
      textsUnder_congr (map_changeFirst _ (fun r => by rw [Row.textUnder?, hvalue]; rfl) _)
    rw [hkeep nofun]
    split_ifs <;> exact hrows
  | @addRow row =>
    rw [hkeep nofun]
    exact List.filterMap_append.trans (List.append_nil _)
  | @deleteRow row =>
    have hdelete : ∀ id, (Action.deleteRow row != .deleteRow id) = (id != row) := fun id => by
      simp [bne, eq_comm]
    have hrows : ∀ r : Row, (if r.id != row then r.textUnder? column else none) =
        (r.textUnder? column).filter (Action.deleteRow row != .deleteRow ·.1) := fun r => by
      rw [Row.textUnder?]
      cases r.value? column with
      | none => exact ite_self _
      | some text =>
        rw [Option.map_some, Option.filter, hdelete]
    change (s.rows.eraseP (·.id == row)).filterMap (Row.textUnder? column) = _
    rw [eraseP_eq_filter hs.rows, List.filterMap_filter, Sheet.textsUnder, List.filter_filterMap]
    exact List.filterMap_congr fun r _ => hrows r
  | addColumn | deleteColumn => exact (hkeep nofun).symm
  | @editColumn column' batch u hmem hedits =>
    obtain ⟨g, hg⟩ := edits_rows hedits
    have hne : column' ≠ column := fun heq => hcolumn (heq ▸ hmem)
    have hvalue : ∀ r : Row, (r.change column' g).value? column = r.value? column := fun r =>
      (Row.value?_change _ _ _ _).trans (if_neg hne)
    rw [hkeep nofun]
    refine textsUnder_congr ?_
    have hrows : u.refreshTags.rows = s.rows.map (·.change column' g) := hg
    rw [hrows, List.map_map]
    exact List.map_congr_left fun r _ => by rw [Function.comp_apply, Row.textUnder?, hvalue]; rfl

theorem mem_rowIds_of_textsUnder {e : String × String} (h : e ∈ s.textsUnder column) : e.1 ∈ s.rowIds := by
  obtain ⟨r, hr, he⟩ := List.mem_filterMap.mp h
  obtain ⟨_, _, rfl⟩ := Option.map_eq_some_iff.mp he
  exact List.mem_map_of_mem hr

/-- A refused action deletes no row whose text there would be to lose. -/
theorem textsUnder_refused {e : SheetError} (h : s.act a = .error e) :
    (s.textsUnder column).filter (a != .deleteRow ·.1) = s.textsUnder column := by
  refine List.filter_eq_self.mpr fun text htext => bne_iff_ne.mpr ?_
  rintro rfl
  rw [act, deleteRow, if_pos (isSome_row?_iff.mpr (mem_rowIds_of_textsUnder htext))] at h
  cases h

theorem textsUnder_attempt (hs : s.Distinct) (hcolumn : column ∉ s.columnIds) (ha : a.Spares column) (now : Stamp) :
    (s.attempt now a).Distinct ∧ column ∉ (s.attempt now a).columnIds ∧
      (s.attempt now a).textsUnder column = (s.textsUnder column).filter (a != .deleteRow ·.1) := by
  rw [attempt]
  split
  · rename_i t h
    obtain ⟨u, hu, rfl⟩ := reduce_ok.mp h
    have hacted := act_acted hu
    exact ⟨reduce_distinct h hs, hacted.not_mem_columnIds hcolumn ha, hacted.textsUnder hs hcolumn ha⟩
  · rename_i e h
    have hrefused : s.act a = .error e := by
      rw [reduce] at h
      cases hact : s.act a with
      | ok u => rw [hact] at h; cases h
      | error e' => rw [hact] at h; exact h
    exact ⟨hs, hcolumn, (textsUnder_refused hrefused).symm⟩

/-! ## Histories -/

theorem textsUnder_attemptAll {history : List (Stamp × Action)} (hs : s.Distinct) (hcolumn : column ∉ s.columnIds)
    (hhistory : ∀ o ∈ history, o.2.Spares column) :
    column ∉ (s.attemptAll history).columnIds ∧ (s.attemptAll history).textsUnder column =
      (s.textsUnder column).filter fun text => history.all (·.2 != .deleteRow text.1) := by
  induction history generalizing s with
  | nil => exact ⟨hcolumn, (List.filter_eq_self.mpr fun _ _ => rfl).symm⟩
  | cons o history ih =>
    obtain ⟨ht, hcolumn', htexts⟩ := textsUnder_attempt hs hcolumn (hhistory o List.mem_cons_self) o.1
    obtain ⟨hfresh, hrest⟩ := ih ht hcolumn' fun o' ho' => hhistory o' (List.mem_cons_of_mem _ ho')
    refine ⟨hfresh, hrest.trans ?_⟩
    rw [htexts, List.filter_filter]
    exact List.filter_congr fun text _ => Bool.and_comm _ _

theorem deleteColumn_ok (hs : s.Distinct) (h : s.reduce (.deleteColumn column) now = .ok t) :
    column ∉ t.columnIds ∧ t.textsUnder column = s.textsUnder column := by
  obtain ⟨u, hu, rfl⟩ := reduce_ok.mp h
  cases act_acted hu with
  | deleteColumn hcolumn =>
    refine ⟨fun hmem => ?_, rfl⟩
    obtain ⟨c, hc, hid⟩ := List.mem_map.mp hmem
    have hc' : c ∈ s.columns.filter (·.id != column) := eraseP_eq_filter hs.columns ▸ hc
    exact bne_iff_ne.mp (List.mem_filter.mp hc').2 hid

theorem addColumn_absent (hcolumn : column ∉ s.columnIds) (title : String) (type : ColumnType) (now : Stamp) :
    ∃ t, s.reduce (.addColumn column title type.name) now = .ok t ∧ column ∈ t.columnIds ∧
      t.textsUnder column = s.textsUnder column := by
  have htype : ColumnType.ofName? type.name = some type := ColumnType.ofName?_eq_some.mpr rfl
  exact ⟨_, reduce_ok.mpr ⟨_, act_of_acted (.addColumn htype hcolumn), rfl⟩,
    List.mem_map_of_mem (List.mem_append_right _ (List.mem_singleton_self _)), rfl⟩

/-- **Ids of deleted columns can be used again.** A column is deleted, and then a history of actions, some of them
refused, adds no column under its id and puts no text under it. A column of any type can now be added under this
id, and it shows the texts that were written for the deleted one, but for those of rows that the history deletes. -/
theorem addColumn_deleted {history : List (Stamp × Action)} (hs : s.Distinct)
    (h : s.reduce (.deleteColumn column) now = .ok t) (hhistory : ∀ o ∈ history, o.2.Spares column)
    (title : String) (type : ColumnType) (later : Stamp) :
    ∃ u, (t.attemptAll history).reduce (.addColumn column title type.name) later = .ok u ∧ column ∈ u.columnIds ∧
      u.textsUnder column =
        (s.textsUnder column).filter fun text => history.all (·.2 != .deleteRow text.1) := by
  obtain ⟨hcolumn, htexts⟩ := deleteColumn_ok hs h
  obtain ⟨hcolumn', hrest⟩ := textsUnder_attemptAll (reduce_distinct h hs) hcolumn hhistory
  obtain ⟨u, hu, hmem, hshown⟩ := addColumn_absent hcolumn' title type later
  exact ⟨u, hu, hmem, by rw [hshown, hrest, htexts]⟩

/-- What happens between two columns of notes: a row is added, and notes of a row that is not there are refused. -/
def betweenNotes : List (Stamp × Action) :=
  [(default, .addRow "q"), (default, .updateCell "p" "t" "c"), (default, .deleteRow "p")]

theorem addColumn_deleted_notes : labelled.Distinct ∧
    ∃ t u, labelled.reduce (.deleteColumn "n") default = .ok t ∧
      (t.attemptAll betweenNotes).reduce (.addColumn "n" "Remark" "text") default = .ok u ∧
      u.textsUnder "n" = [("r", "x")] := by
  have hs : labelled.Distinct := ⟨by decide, by decide⟩
  have hhistory : ∀ o ∈ betweenNotes, o.2.Spares "n" := by
    simp [betweenNotes, Action.Spares]
  obtain ⟨t, ht⟩ : ∃ t, labelled.reduce (.deleteColumn "n") default = .ok t := ⟨_, rfl⟩
  obtain ⟨u, hu, -, htexts⟩ := addColumn_deleted hs ht hhistory "Remark" .text default
  exact ⟨hs, t, u, ht, hu, htexts.trans (by decide)⟩

/-- A column id is taken once more, and the new column shows the text that was written for the old one. -/
theorem replay_labelled_twice : ∃ s, labelled.replay [.deleteColumn "n", .addColumn "n" "Remark" "text"] default =
    .ok s ∧ "n" ∈ s.columnIds ∧ s.textsUnder "n" = [("r", "x")] :=
  ⟨_, rfl, by decide, by decide⟩

end Sheet

end Worksheet
