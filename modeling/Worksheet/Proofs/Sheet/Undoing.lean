import Mathlib.Data.List.InsertIdx
import Worksheet.Proofs.Sheet.Splitting
/-!
# Taking actions back

A row or a column that was added can be deleted again, and a moved column can be moved back. The sheet is then what it
was, its tag cache included, but for the stamp of the last change.

* `Sheet.TakesBack`: what one action does, another one takes back;
* `moveColumn_eq`, `moveColumn_moved`: where a move puts a column, and that of several moves the last one counts;
* `Sheet.Moved`: what the move of a column comes to;
* **`reduce_takesBack`**: rows, columns and places of columns.
-/

namespace Worksheet.Sheet

variable {s t : Sheet} {c : Column} {i : Nat} {j : Int} {now : Stamp}

/-- The second action takes back what the first one does, but for the stamp of the last change. -/
def TakesBack (s : Sheet) (a b : Action) : Prop :=
  ∀ now later, ∃ t, s.reduce a now = .ok t ∧ t.reduce b later = .ok { s with updated := later }

theorem takesBack_of {a b : Action} {u : Sheet} (ha : s.act a = .ok u)
    (hb : ∀ now, Sheet.act { u with updated := now } b = .ok { s with updated := now }) : s.TakesBack a b :=
  fun now _ => ⟨_, reduce_ok.mpr ⟨u, ha, rfl⟩, reduce_ok.mpr ⟨_, hb now, rfl⟩⟩

theorem refreshTags_of_correct (hs : s.Distinct) (hcache : s.TagCacheCorrect) : s.refreshTags = s := by
  rw [refreshTags, ← (tagCacheCorrect_iff hs.columns).mp hcache]

theorem eraseP_concat {α : Type} {key : α → String} {l : List α} {a : α} {id : String} (ha : key a = id)
    (h : id ∉ l.map key) : (l ++ [a]).eraseP (key · == id) = l := by
  have hnone : ∀ b ∈ l, ¬ (key b == id) = true := fun b hb heq =>
    h (List.mem_map.mpr ⟨b, hb, beq_iff_eq.mp heq⟩)
  have hlast : (key a == id) = true := beq_iff_eq.mpr ha
  rw [List.eraseP_append_right _ hnone, List.eraseP_cons, hlast, cond_true, List.append_nil]

/-! ## Rows and columns -/

theorem takesBack_addRow (hs : s.Distinct) (hcache : s.TagCacheCorrect) {row : String} (hrow : row ∉ s.rowIds) :
    s.TakesBack (.addRow row) (.deleteRow row) := by
  refine takesBack_of (act_of_acted (.addRow hrow)) fun now => ?_
  have hthere : row ∈ rowIds { s with rows := s.rows ++ [Row.new row], updated := now } := by
    simp [rowIds, Row.new]
  have hrows : (s.rows ++ [Row.new row]).eraseP (·.id == row) = s.rows := eraseP_concat rfl hrow
  rw [act_of_acted (.deleteRow hthere), hrows]
  exact congrArg (fun t => Except.ok { t with updated := now }) (refreshTags_of_correct hs hcache)

/-- Texts that stand under the id in the rows are tags of the new column for as long as it is there. -/
theorem takesBack_addColumn (hs : s.Distinct) (hcache : s.TagCacheCorrect) {column : String}
    (hcolumn : column ∉ s.columnIds) (title : String) (type : ColumnType) :
    s.TakesBack (.addColumn column title type.name) (.deleteColumn column) := by
  let t : Sheet := { s with columns := s.columns ++ [Column.new column title type] }
  refine takesBack_of (u := t.refreshTags)
    (act_of_acted (.addColumn (ColumnType.ofName?_eq_some.mpr rfl) hcolumn)) fun now => ?_
  have hthere : column ∈ columnIds { t.refreshTags with updated := now } := by
    simp [t, refreshTags, columnIds, Column.new]
  have hcolumns : (s.columns ++ [Column.new column title type]).eraseP (·.id == column) = s.columns :=
    eraseP_concat rfl hcolumn
  refine (act_of_acted (.deleteColumn hthere)).trans ?_
  refine Eq.trans ?_ (congrArg (fun t => Except.ok { t with updated := now }) (refreshTags_of_correct hs hcache))
  exact congrArg (fun columns => Except.ok { ({ s with columns := columns } : Sheet).refreshTags with updated := now })
    hcolumns

/-! ## Moves -/

theorem columnIndex_eq (hs : s.columnIds.Nodup) (hc : s.columns[i]? = some c) : s.columnIndex c.id = .ok i := by
  obtain ⟨hlt, rfl⟩ := List.getElem?_eq_some_iff.mp hc
  have hfirst : s.columnIndex? s.columns[i].id = some i := by
    refine List.findIdx?_eq_some_iff_getElem.mpr ⟨hlt, beq_self_eq_true _, fun k hk heq => hk.ne ?_⟩
    have hids : s.columnIds[k]? = s.columnIds[i]? := by
      simpa [columnIds, hlt, hk.trans hlt] using heq
    have hlt' : k < s.columnIds.length := by
      rw [columnIds, List.length_map]
      omega
    exact (List.getElem?_inj hlt' hs).mp hids
  rw [columnIndex, hfirst]

/-- **Where a column goes.** It is taken out, and put in at its new position. -/
theorem moveColumn_eq (hs : s.columnIds.Nodup) (hc : s.columns[i]? = some c) (j : Int) :
    s.moveColumn c.id j = if 0 ≤ j ∧ j < s.columns.length then
      .ok { s with columns := (s.columns.eraseIdx i).insertIdx j.toNat c }
    else .error (.indexOutOfRange j s.columns.length) := by
  simp only [moveColumn, columnIndex_eq hs hc, bind, Except.bind, hc]

/-- The column stands at its new position, and the others have kept their order. -/
structure Moved (s : Sheet) (i : Nat) (c : Column) (j : Nat) (t : Sheet) : Prop where
  column : t.columns[j]? = some c
  others : t.columns.eraseIdx j = s.columns.eraseIdx i

theorem moveColumn_moved (hs : s.columnIds.Nodup) (hc : s.columns[i]? = some c) (h : s.moveColumn c.id j = .ok t) :
    s.Moved i c j.toNat t ∧ t = { s with columns := t.columns } := by
  rw [moveColumn_eq hs hc] at h
  split_ifs at h with hj
  cases h
  have hle : j.toNat ≤ (s.columns.eraseIdx i).length := by
    rw [List.length_eraseIdx_of_lt (List.getElem?_eq_some_iff.mp hc).1]
    omega
  exact ⟨⟨by rw [List.getElem?_insertIdx_self, if_pos hle], List.eraseIdx_insertIdx_self c⟩, rfl⟩

/-- **Of two moves the last one counts.** The column is taken out of where the first one has put it, so that the
others stand as they did before. -/
theorem moveColumn_moveColumn (hs : s.columnIds.Nodup) (hc : s.columns[i]? = some c) (h : s.moveColumn c.id j = .ok t)
    (k : Int) : t.moveColumn c.id k = s.moveColumn c.id k := by
  obtain ⟨hmoved, ht⟩ := moveColumn_moved hs hc h
  have hids : t.columnIds.Perm s.columnIds := (edit_ids (e := .reorder j) h).2
  have hlength : t.columns.length = s.columns.length := by
    simpa [columnIds] using hids.length_eq
  rw [moveColumn_eq hs hc, moveColumn_eq (hids.nodup_iff.mpr hs) hmoved.column, hmoved.others, hlength]
  split_ifs
  · rw [ht]
  · rfl

theorem moveColumn_self (hs : s.columnIds.Nodup) (hc : s.columns[i]? = some c) : s.moveColumn c.id i = .ok s := by
  obtain ⟨hlt, rfl⟩ := List.getElem?_eq_some_iff.mp hc
  rw [moveColumn_eq hs hc, if_pos (by omega), Int.toNat_natCast, List.insertIdx_eraseIdx_getElem hlt]

/-! ## Moves as actions -/

/-- The action that moves a column. -/
def moving (c : Column) (j : Int) : Action :=
  .editColumn c.id [.reorder j]

theorem reduce_moving (hc : s.columns[i]? = some c) (j : Int) (now : Stamp) :
    s.reduce (moving c j) now = (s.moveColumn c.id j).map fun t => { t.refreshTags with updated := now } := by
  obtain ⟨c', hc'⟩ := column_of_mem (List.mem_map_of_mem (List.mem_of_getElem? hc))
  simp only [reduce, act, moving, editColumn, edits, edit, bind, Except.bind, hc']
  cases s.moveColumn c.id j <;> rfl

theorem reduce_moving_ok (hs : s.columnIds.Nodup) (hc : s.columns[i]? = some c) (h : s.reduce (moving c j) now = .ok t) :
    s.Moved i c j.toNat t ∧ ∃ u, s.moveColumn c.id j = .ok u ∧ t = { u.refreshTags with updated := now } := by
  rw [reduce_moving hc] at h
  cases hmove : s.moveColumn c.id j with
  | error e =>
    rw [hmove] at h
    cases h
  | ok u =>
    rw [hmove] at h
    cases h
    obtain ⟨⟨hcolumn, hothers⟩, -⟩ := moveColumn_moved hs hc hmove
    exact ⟨⟨hcolumn, hothers⟩, u, rfl, rfl⟩

/-- **Of two actions that move a column the last one counts.** -/
theorem reduce_moving_moving (hs : s.columnIds.Nodup) (hc : s.columns[i]? = some c)
    (h : s.reduce (moving c j) now = .ok t) (k : Int) (later : Stamp) :
    t.reduce (moving c k) later = s.reduce (moving c k) later := by
  obtain ⟨hmoved, u, hmove, rfl⟩ := reduce_moving_ok hs hc h
  have hunnoticed := unnoticed_refreshed u.tagsInUse now c.id u (.reorder k)
  rw [reduce_moving hmoved.column, reduce_moving hc]
  refine (congrArg _ (hunnoticed.trans (congrArg _ (moveColumn_moveColumn hs hc hmove k)))).trans ?_
  cases s.moveColumn c.id k <;> rfl

/-- **Rows, columns and places of columns can be restored.** Take a sheet with distinct ids and a correct tag cache. A
row with a new id, and a column of any type with a new id, is added and deleted again, and the sheet is what it was but
for the stamp of the last change. A column can be moved to exactly those positions that the sheet has. It then stands
at this position among the others in their old order. Moving it again, by another action or in the same batch, comes
to the same as moving it there in the first place, and moving it back restores the sheet. -/
theorem reduce_takesBack (hs : s.Distinct) (hcache : s.TagCacheCorrect) :
    (∀ row, row ∉ s.rowIds → s.TakesBack (.addRow row) (.deleteRow row)) ∧
    (∀ column, column ∉ s.columnIds → ∀ title (type : ColumnType),
      s.TakesBack (.addColumn column title type.name) (.deleteColumn column)) ∧
    ∀ i c, s.columns[i]? = some c → ∀ (j : Int) (now : Stamp),
      ((∃ t, s.reduce (moving c j) now = .ok t) ↔ 0 ≤ j ∧ j < s.columns.length) ∧
      ∀ t, s.reduce (moving c j) now = .ok t → s.Moved i c j.toNat t ∧
        ∀ later, (∀ k, t.reduce (moving c k) later = s.reduce (moving c k) later ∧
            s.reduce (.editColumn c.id [.reorder j, .reorder k]) later = s.reduce (moving c k) later) ∧
          t.reduce (moving c i) later = .ok { s with updated := later } := by
  refine ⟨fun row hrow => takesBack_addRow hs hcache hrow,
    fun column hcolumn title type => takesBack_addColumn hs hcache hcolumn title type,
    fun i c hc j now => ⟨?_, fun t h => ⟨(reduce_moving_ok hs.columns hc h).1, fun later => ⟨fun k => ?_, ?_⟩⟩⟩⟩
  · rw [reduce_moving hc, moveColumn_eq hs.columns hc]
    split_ifs with hj
    · exact iff_of_true ⟨_, rfl⟩ hj
    · exact iff_of_false (fun ⟨_, h⟩ => nomatch h) hj
  · have hagain := reduce_moving_moving hs.columns hc h k later
    refine ⟨hagain, (reduce_editColumn_append s c.id [.reorder j] [.reorder k] now later).trans ?_⟩
    rw [show s.reduce (.editColumn c.id [.reorder j]) now = .ok t from h]
    exact hagain
  · rw [reduce_moving_moving hs.columns hc h, reduce_moving hc, moveColumn_self hs.columns hc, Except.map,
      refreshTags_of_correct hs hcache]

/-- A sheet with labels. Its row has texts that look like labels under an id without a column. -/
def filed : Sheet :=
  { new "s" "Files" default with
    columns := [⟨"t", "Labels", .tags⟩, ⟨"n", "Note", .text⟩, ⟨"m", "Size", .number⟩]
    rows := [⟨"r", Dict.ofList [("t", "a, b"), ("u", "x, y")]⟩] }.refreshTags

theorem reduce_takesBack_filed : filed.Distinct ∧ filed.TagCacheCorrect ∧
    "q" ∉ filed.rowIds ∧ filed.TakesBack (.addRow "q") (.deleteRow "q") ∧
    "u" ∉ filed.columnIds ∧ filed.TakesBack (.addColumn "u" "Kinds" "tags") (.deleteColumn "u") ∧
    ∃ t, filed.reduce (moving ⟨"t", "Labels", .tags⟩ 2) default = .ok t ∧ t.columnIds = ["n", "m", "t"] ∧
      t.reduce (moving ⟨"t", "Labels", .tags⟩ 0) default = .ok { filed with updated := default } := by
  have hs : filed.Distinct := ⟨by decide, by decide⟩
  have hcache : filed.TagCacheCorrect := (tagCacheCorrect_iff hs.columns).mpr rfl
  obtain ⟨hrows, hcolumns, hmoves⟩ := reduce_takesBack hs hcache
  obtain ⟨-, hmoved⟩ := hmoves 0 _ rfl 2 default
  obtain ⟨t, ht⟩ : ∃ t, filed.reduce (moving ⟨"t", "Labels", .tags⟩ 2) default = .ok t := ⟨_, rfl⟩
  refine ⟨hs, hcache, by decide, hrows "q" (by decide), by decide, hcolumns "u" (by decide) "Kinds" .tags, t, ht, ?_,
    ((hmoved t ht).2 default).2⟩
  cases ht
  decide

end Worksheet.Sheet
