import Mathlib.Data.List.Perm.Basic
import Worksheet.Action.Apply
import Worksheet.Proofs.Lookup
/-!
# What an edit and an action can do

Each accepted edit, action or replay is taken apart once, here; what holds of sheets along a run is then a
short case analysis.

* `edit_uniform`, `edit_cases`: an accepted edit changes one column and the texts under it, or moves the
  column; but for moves, the column alone decides;
* `edits_induction`, `Unnoticed`: what every edit keeps, and what every edit passes over, a batch does;
* `Sheet.Acted`, `act_acted`, `act_of_acted`: the sheets that an accepted action leads to, one constructor for
  each kind of action;
* `reduce_ok`, `replay_nil`, `replay_cons`: a replay is one action after the other.
-/

namespace Worksheet

theorem bind_ok {ε α β : Type} {x : Except ε α} {f : α → Except ε β} {b : β}
    (h : (x >>= f) = .ok b) : ∃ a, x = .ok a ∧ f a = .ok b := by
  cases x with
  | error e => cases h
  | ok a => exact ⟨a, rfl, h⟩

/-! ## Changing the first member -/

section ChangeFirst

variable {α β : Type} {p : α → Bool} {f : α → α}

@[simp] theorem changeFirst_id (l : List α) : changeFirst p (fun a => a) l = l := by
  induction l with
  | nil => rfl
  | cons a l ih => rw [changeFirst, ih, ite_self]

theorem map_changeFirst (g : α → β) (hg : ∀ a, g (f a) = g a) (l : List α) :
    (changeFirst p f l).map g = l.map g := by
  induction l with
  | nil => rfl
  | cons a l ih =>
    rw [changeFirst]
    split_ifs
    · rw [List.map_cons, List.map_cons, hg]
    · rw [List.map_cons, List.map_cons, ih]

theorem mem_changeFirst {a : α} {l : List α} (h : a ∈ changeFirst p f l) :
    a ∈ l ∨ ∃ b ∈ l, a = f b := by
  induction l with
  | nil => exact .inl h
  | cons b l ih =>
    rw [changeFirst] at h
    split_ifs at h
    · rcases List.mem_cons.mp h with rfl | h
      · exact .inr ⟨b, List.mem_cons_self, rfl⟩
      · exact .inl (List.mem_cons_of_mem _ h)
    · rcases List.mem_cons.mp h with rfl | h
      · exact .inl List.mem_cons_self
      · exact (ih h).imp (List.mem_cons_of_mem _) fun ⟨b, hb, hab⟩ => ⟨b, List.mem_cons_of_mem _ hb, hab⟩

end ChangeFirst

namespace Sheet

variable {s t : Sheet} {id : String}

/-- The ids of the rows, in order. -/
def rowIds (s : Sheet) : List String :=
  s.rows.map (·.id)

/-- The ids of the columns, in order. -/
def columnIds (s : Sheet) : List String :=
  s.columns.map (·.id)

theorem changeColumn_id (s : Sheet) (id : String) : s.changeColumn id (fun c => c) = s := by
  rw [changeColumn, changeFirst_id]

theorem changeValues_id (s : Sheet) (id : String) : s.changeValues id (fun text => text) = s := by
  have h : ∀ r : Row, r.change id (fun text => text) = r := fun r => by
    rw [Row.change, Dict.ext_find? (d := r.values.adjust id fun text => text) (e := r.values)]
    intro k
    rw [Dict.find?_adjust]
    split_ifs
    · exact Option.map_id'
    · rfl
  rw [changeValues, show (fun r : Row => r.change id fun text => text) = fun r => r from funext h,
    List.map_id']

@[simp] theorem columnIds_changeValues (s : Sheet) (f : String → String) :
    (s.changeValues id f).columnIds = s.columnIds := rfl

@[simp] theorem rowIds_changeColumn (s : Sheet) (f : Column → Column) :
    (s.changeColumn id f).rowIds = s.rowIds := rfl

@[simp] theorem rowIds_changeValues (s : Sheet) (f : String → String) :
    (s.changeValues id f).rowIds = s.rowIds := by
  rw [rowIds, changeValues, List.map_map]
  rfl

theorem columnIds_changeColumn (s : Sheet) {f : Column → Column} (hf : ∀ c, (f c).id = c.id) :
    (s.changeColumn id f).columnIds = s.columnIds :=
  map_changeFirst _ hf _

@[simp] theorem rowIds_set (s : Sheet) (row column value : String) :
    (s.changeRow row (·.set column value)).rowIds = s.rowIds :=
  map_changeFirst _ (fun _ => by rfl) _

theorem column_ok {c : Column} (h : s.column id = .ok c) : s.column? id = some c := by
  rw [column] at h
  split at h <;> cases h
  assumption

theorem column?_id {c : Column} (h : s.column? id = some c) : c.id = id := by
  simpa using List.find?_some h

theorem column?_eq_none_iff : s.column? id = none ↔ id ∉ s.columnIds := by
  simp [column?, columnIds, List.find?_eq_none]

theorem row?_eq_none_iff : s.row? id = none ↔ id ∉ s.rowIds := by
  simp [row?, rowIds, List.find?_eq_none]

theorem columnIndex_ok {i : Nat} (h : s.columnIndex id = .ok i) : ∃ c, s.columns[i]? = some c ∧ c.id = id := by
  rw [columnIndex] at h
  split at h <;> cases h
  rename_i hindex
  obtain ⟨hlt, hid, -⟩ := List.findIdx?_eq_some_iff_getElem.mp hindex
  exact ⟨_, List.getElem?_eq_getElem hlt, by simpa using hid⟩

/-! ## Edits -/

/-- Changes the first column of an id and the texts under the id. -/
def retouch (s : Sheet) (id : String) (f : Column → Column) (g : String → String) : Sheet :=
  (s.changeColumn id f).changeValues id g

theorem edit_of_absent {e : ColumnEdit} (he : ∀ index, e ≠ .reorder index) :
    ∃ x, ∀ t : Sheet, t.column? id = none → t.edit id e = .error x := by
  have hcolumn : ∀ t : Sheet, t.column? id = none → t.column id = .error (.columnNotFound id) := fun t ht => by
    rw [column, ht]
  cases e with
  | changeType name =>
    cases hname : ColumnType.read name with
    | error y => exact ⟨y, fun t _ => by rw [edit, hname]; rfl⟩
    | ok target =>
      refine ⟨.columnNotFound id, fun t ht => ?_⟩
      rw [edit, hname]
      simp only [bind, Except.bind, changeType, hcolumn t ht]
  | reorder index => exact absurd rfl (he index)
  | rename => exact ⟨_, fun t ht => by rw [edit, hcolumn t ht]; rfl⟩
  | enumUpdate => exact ⟨_, fun t ht => by rw [edit, updateOptions, hcolumn t ht]; rfl⟩
  | tagRename => exact ⟨_, fun t ht => by rw [edit, renameTags, hcolumn t ht]; rfl⟩
  | formula => exact ⟨_, fun t ht => by rw [edit, setFormula, hcolumn t ht]; rfl⟩

theorem edit_of_present {e : ColumnEdit} (he : ∀ index, e ≠ .reorder index) (c : Column) :
    (∃ x, ∀ t : Sheet, t.column? id = some c → t.edit id e = .error x) ∨
    ∃ (f : Column → Column) (g : String → String), (∀ c, (f c).id = c.id) ∧
      ∀ t : Sheet, t.column? id = some c → t.edit id e = .ok (t.retouch id f g) := by
  have hcolumn : ∀ t : Sheet, t.column? id = some c → t.column id = .ok c := fun t ht => by
    rw [column, ht]
  cases e with
  | rename title =>
    refine .inr ⟨fun c => { c with title := title }, fun text => text, fun _ => rfl, fun t ht => ?_⟩
    rw [edit, hcolumn t ht, retouch, changeValues_id]
    rfl
  | changeType name =>
    cases hname : ColumnType.read name with
    | error y => exact .inl ⟨y, fun t _ => by rw [edit, hname]; rfl⟩
    | ok target =>
      by_cases htype : c.type = target
      · refine .inr ⟨fun c => c, fun text => text, fun _ => rfl, fun t ht => ?_⟩
        rw [edit, hname, retouch, changeColumn_id, changeValues_id]
        simp only [bind, Except.bind, changeType, hcolumn t ht, if_pos htype]
      · refine .inr ⟨fun c => { c with kind := .ofType target }, converted target, fun _ => rfl, fun t ht => ?_⟩
        rw [edit, hname]
        simp only [bind, Except.bind, changeType, hcolumn t ht, if_neg htype, retouch]
  | enumUpdate order names =>
    cases hkind : c.kind with
    | enum options =>
      refine .inr ⟨fun c => { c with kind := .enum (updatedOptions order names) },
        fun text => (names.find? text).getD text, fun _ => rfl, fun t ht => ?_⟩
      simp only [edit, updateOptions, hcolumn t ht, bind, Except.bind, hkind, retouch]
    | _ =>
      refine .inl ⟨.notEnumColumn id, fun t ht => ?_⟩
      simp only [edit, updateOptions, hcolumn t ht, bind, Except.bind, hkind]
  | reorder index => exact absurd rfl (he index)
  | tagRename names =>
    by_cases htags : c.isTags = true
    · refine .inr ⟨fun c => c, Tags.replace names, fun _ => rfl, fun t ht => ?_⟩
      rw [retouch, changeColumn_id]
      simp only [edit, renameTags, hcolumn t ht, bind, Except.bind, if_pos htags]
    · refine .inl ⟨.notTagsColumn id, fun t ht => ?_⟩
      simp only [edit, renameTags, hcolumn t ht, bind, Except.bind, if_neg htags]
  | formula source mode =>
    by_cases hformula : c.isFormula = true
    · refine .inr ⟨fun c => { c with kind := .formula source mode }, fun text => text, fun _ => rfl, fun t ht => ?_⟩
      rw [retouch, changeValues_id]
      simp only [edit, setFormula, hcolumn t ht, bind, Except.bind, if_pos hformula]
    · refine .inl ⟨.notFormulaColumn id, fun t ht => ?_⟩
      simp only [edit, setFormula, hcolumn t ht, bind, Except.bind, if_neg hformula]

/-- **An edit that does not move its column is decided by the column alone.** All sheets that have this column
under the id refuse the edit for one reason, or take the same change of the column and of the texts under it. -/
theorem edit_uniform {e : ColumnEdit} (he : ∀ index, e ≠ .reorder index) (s : Sheet) :
    (∃ x, ∀ t : Sheet, t.column? id = s.column? id → t.edit id e = .error x) ∨
    ∃ (f : Column → Column) (g : String → String), (∀ c, (f c).id = c.id) ∧
      ∀ t : Sheet, t.column? id = s.column? id → t.edit id e = .ok (t.retouch id f g) := by
  cases s.column? id with
  | none => exact .inl (edit_of_absent he)
  | some c => exact edit_of_present he c

/-- **What an accepted edit does.** It changes the column and the texts under it, or moves the
column. -/
theorem edit_cases {e : ColumnEdit} (h : s.edit id e = .ok t) :
    (∃ (f : Column → Column) (g : String → String), (∀ c, (f c).id = c.id) ∧ t = s.retouch id f g) ∨
    ∃ (i j : Nat) (c : Column), s.columns[i]? = some c ∧ c.id = id ∧ j < s.columns.length ∧
      t = { s with columns := (s.columns.eraseIdx i).insertIdx j c } := by
  by_cases he : ∃ index, e = .reorder index
  · obtain ⟨index, rfl⟩ := he
    obtain ⟨start, hstart, h⟩ := bind_ok h
    obtain ⟨c, hc, hid⟩ := columnIndex_ok hstart
    split_ifs at h with hi
    rw [hc] at h
    cases h
    exact .inr ⟨start, index.toNat, c, hc, hid, by omega, rfl⟩
  · rcases edit_uniform (not_exists.mp he) s with ⟨x, hx⟩ | ⟨f, g, hf, hok⟩
    · rw [hx s rfl] at h
      cases h
    · rw [hok s rfl] at h
      cases h
      exact .inl ⟨f, g, hf, rfl⟩

/-- What every edit keeps, a batch of edits keeps. -/
theorem edits_induction {P : Sheet → Prop} (hP : ∀ {s t e}, s.edit id e = .ok t → P s → P t) :
    ∀ {batch : List ColumnEdit} {s t : Sheet}, s.edits id batch = .ok t → P s → P t
  | [], _, _, h, hs => by cases h; exact hs
  | _ :: _, _, _, h, hs => by
    obtain ⟨u, hu, h⟩ := bind_ok h
    exact edits_induction hP h (hP hu hs)

/-! ## Changes that edits pass over -/

/-- Edits of the column of an id do the same before and after the change of the sheet. -/
def Unnoticed (id : String) (φ : Sheet → Sheet) : Prop :=
  ∀ (s : Sheet) (e : ColumnEdit), (φ s).edit id e = (s.edit id e).map φ

section Unnoticed

variable {φ : Sheet → Sheet}

theorem unnoticed_of (hcolumn : ∀ s, (φ s).column? id = s.column? id)
    (hretouch : ∀ (s : Sheet) (f : Column → Column) (g : String → String), (∀ c, (f c).id = c.id) →
      φ (s.retouch id f g) = (φ s).retouch id f g)
    (hmove : ∀ s index, (φ s).moveColumn id index = (s.moveColumn id index).map φ) : Unnoticed id φ := by
  intro s e
  by_cases he : ∃ index, e = .reorder index
  · obtain ⟨index, rfl⟩ := he
    exact hmove s index
  · rcases edit_uniform (not_exists.mp he) s with ⟨x, hx⟩ | ⟨f, g, hf, hok⟩
    · rw [hx _ (hcolumn s), hx s rfl]
      rfl
    · rw [hok _ (hcolumn s), hok s rfl, ← hretouch s f g hf]
      rfl

theorem moveColumn_map (hcolumns : ∀ s, (φ s).columns = s.columns)
    (hput : ∀ (s : Sheet) columns, φ { s with columns := columns } = { φ s with columns := columns })
    (s : Sheet) (index : Int) : (φ s).moveColumn id index = (s.moveColumn id index).map φ := by
  have hindex : (φ s).columnIndex id = s.columnIndex id := by
    rw [columnIndex, columnIndex, columnIndex?, columnIndex?, hcolumns]
  simp only [moveColumn, hindex, hcolumns]
  cases s.columnIndex id with
  | error e => rfl
  | ok start =>
    simp only [bind, Except.bind]
    split_ifs
    · cases s.columns[start]? with
      | none => rfl
      | some c => exact congrArg Except.ok (hput s _).symm
    · rfl

theorem Unnoticed.edits (h : Unnoticed id φ) (s : Sheet) (batch : List ColumnEdit) :
    (φ s).edits id batch = (s.edits id batch).map φ := by
  induction batch generalizing s with
  | nil => rfl
  | cons e rest ih =>
    rw [Sheet.edits, Sheet.edits, h s e]
    cases s.edit id e with
    | error e => rfl
    | ok u => exact ih u

end Unnoticed

/-! ## Actions -/

/-- The sheets that an accepted action leads to, its stamp aside. -/
inductive Acted (s : Sheet) : Action → Sheet → Prop
  | updateCell {row column value : String} (hrow : row ∈ s.rowIds) :
    Acted s (.updateCell row column value)
      (if (s.column? column).any Column.isTags then
        (s.changeRow row (·.set column value)).refreshTags
      else s.changeRow row (·.set column value))
  | addRow {row : String} (hrow : row ∉ s.rowIds) :
    Acted s (.addRow row) { s with rows := s.rows ++ [Row.new row] }
  | deleteRow {row : String} (hrow : row ∈ s.rowIds) :
    Acted s (.deleteRow row) { s with rows := s.rows.eraseP (·.id == row) }.refreshTags
  | addColumn {column title name : String} {type : ColumnType} (htype : ColumnType.ofName? name = some type)
    (hcolumn : column ∉ s.columnIds) :
    Acted s (.addColumn column title name)
      { s with columns := s.columns ++ [Column.new column title type] }.refreshTags
  | deleteColumn {column : String} (hcolumn : column ∈ s.columnIds) :
    Acted s (.deleteColumn column) { s with columns := s.columns.eraseP (·.id == column) }.refreshTags
  | editColumn {column : String} {batch : List ColumnEdit} {t : Sheet} (hcolumn : column ∈ s.columnIds)
    (hedits : s.edits column batch = .ok t) : Acted s (.editColumn column batch) t.refreshTags

theorem isSome_row?_iff : (s.row? id).isSome = true ↔ id ∈ s.rowIds := by
  rw [← not_iff_not, ← row?_eq_none_iff, Bool.not_eq_true, Option.isSome_eq_false_iff,
    Option.isNone_iff_eq_none]

theorem isSome_column?_iff : (s.column? id).isSome = true ↔ id ∈ s.columnIds := by
  rw [← not_iff_not, ← column?_eq_none_iff, Bool.not_eq_true, Option.isSome_eq_false_iff,
    Option.isNone_iff_eq_none]

theorem mem_columnIds_of_column {c : Column} (h : s.column id = .ok c) : id ∈ s.columnIds := by
  rw [← isSome_column?_iff, column_ok h]
  rfl

theorem column_of_mem (h : id ∈ s.columnIds) : ∃ c, s.column id = .ok c := by
  obtain ⟨c, hc⟩ := Option.isSome_iff_exists.mp (isSome_column?_iff.mpr h)
  exact ⟨c, by rw [Sheet.column, hc]⟩

/-- **What an accepted action does.** -/
theorem act_acted {a : Action} (h : s.act a = .ok t) : s.Acted a t := by
  cases a with
  | updateCell row column value =>
    rw [act, updateCell] at h
    split_ifs at h with hrow
    cases h
    exact .updateCell (isSome_row?_iff.mp hrow)
  | addRow row =>
    rw [act, addRow] at h
    split_ifs at h with hrow
    cases h
    exact .addRow fun hmem => hrow (isSome_row?_iff.mpr hmem)
  | deleteRow row =>
    rw [act, deleteRow] at h
    split_ifs at h with hrow
    cases h
    exact .deleteRow (isSome_row?_iff.mp hrow)
  | addColumn column title name =>
    obtain ⟨type, htype, h⟩ := bind_ok h
    split_ifs at h with hcolumn
    cases h
    rw [ColumnType.read] at htype
    split at htype <;> cases htype
    exact .addColumn ‹_› fun hmem => hcolumn (isSome_column?_iff.mpr hmem)
  | deleteColumn column =>
    obtain ⟨c, hc, h⟩ := bind_ok h
    cases h
    exact .deleteColumn (mem_columnIds_of_column hc)
  | editColumn column batch =>
    obtain ⟨c, hc, h⟩ := bind_ok h
    obtain ⟨u, hu, h⟩ := bind_ok h
    cases h
    exact .editColumn (mem_columnIds_of_column hc) hu

/-- What can be done to a sheet is accepted. -/
theorem act_of_acted {a : Action} (h : s.Acted a t) : s.act a = .ok t := by
  cases h with
  | updateCell hrow => exact if_pos (isSome_row?_iff.mpr hrow)
  | addRow hrow => exact if_neg fun hthere => hrow (isSome_row?_iff.mp hthere)
  | deleteRow hrow => exact if_pos (isSome_row?_iff.mpr hrow)
  | addColumn htype hcolumn =>
    rw [act, addColumn, ColumnType.read, htype]
    exact if_neg fun hthere => hcolumn (isSome_column?_iff.mp hthere)
  | deleteColumn hcolumn =>
    obtain ⟨c, hc⟩ := column_of_mem hcolumn
    rw [act, deleteColumn, hc]
    rfl
  | editColumn hcolumn hedits =>
    obtain ⟨c, hc⟩ := column_of_mem hcolumn
    rw [act, editColumn, hc, hedits]
    rfl

/-! ## Runs -/

variable {now : Stamp} {a : Action}

theorem reduce_ok : s.reduce a now = .ok t ↔ ∃ u, s.act a = .ok u ∧ t = { u with updated := now } := by
  constructor
  · intro h
    obtain ⟨u, hu, h⟩ := bind_ok h
    cases h
    exact ⟨u, hu, rfl⟩
  · rintro ⟨u, hu, rfl⟩
    rw [reduce, hu]
    rfl

theorem reduce_edit {e : ColumnEdit} {c : Column} (hc : s.column? id = some c) (h : s.edit id e = .ok t) (now : Stamp) :
    s.reduce (.editColumn id [e]) now = .ok { t.refreshTags with updated := now } := by
  have hcolumn : s.column id = .ok c := by rw [column, hc]
  refine reduce_ok.mpr ⟨t.refreshTags, ?_, rfl⟩
  simp only [act, editColumn, hcolumn, edits, h, bind, Except.bind]

theorem replayFrom_ok_iff (i j : Nat) {actions : List Action} {s t : Sheet} :
    s.replayFrom i now actions = .ok t ↔ s.replayFrom j now actions = .ok t := by
  induction actions generalizing s i j with
  | nil => rfl
  | cons a rest ih =>
    rw [replayFrom, replayFrom]
    cases s.reduce a now with
    | ok u => exact ih _ _
    | error e => exact ⟨nofun, nofun⟩

@[simp] theorem replay_nil : s.replay [] now = .ok t ↔ s = t := by
  rw [replay, replayFrom, Except.ok.injEq]

theorem replay_cons {rest : List Action} :
    s.replay (a :: rest) now = .ok t ↔ ∃ u, s.reduce a now = .ok u ∧ u.replay rest now = .ok t := by
  rw [replay, replayFrom]
  cases s.reduce a now with
  | ok u => simpa [replay] using replayFrom_ok_iff 1 0
  | error e => simp

end Sheet

end Worksheet
