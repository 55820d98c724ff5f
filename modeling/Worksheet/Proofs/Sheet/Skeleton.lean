import Mathlib.Data.List.Basic
import Worksheet.Proofs.Sheet.Step
/-!
# What decides about acceptance

Whether an action is accepted depends on little of a sheet: the ids of its rows, and the ids and types of its
columns. This skeleton evolves on its own.

* `Skeleton`, with `Skeleton.edit`, `Skeleton.act` and `Skeleton.replay`: actions on skeletons alone;
* `skeleton_edit`, `skeleton_act`, `skeleton_replay`: what an action makes of the skeleton of a sheet;
* **`replay_skeleton_congr`**: sheets with the same skeleton accept the same actions and refuse the same ones
  for the same reason.
-/

namespace Worksheet

/-- The ids of the rows, and the ids and types of the columns. -/
structure Skeleton where
  rows : List String
  columns : List (String × ColumnType)
  deriving DecidableEq

namespace Skeleton

/-! ## Actions on skeletons -/

/-- The type of the first column of an id. -/
def type? (k : Skeleton) (id : String) : Option ColumnType :=
  (k.columns.find? (·.1 == id)).map (·.2)

/-- The type of the first column of an id, which must be there. -/
def type (k : Skeleton) (id : String) : Except SheetError ColumnType :=
  match k.type? id with
  | some t => .ok t
  | none => .error (.columnNotFound id)

/-- The skeleton itself, if the first column of an id has a type. -/
def ofType (k : Skeleton) (id : String) (type : ColumnType) (otherwise : SheetError) : Except SheetError Skeleton := do
  let t ← k.type id
  if t = type then .ok k else .error otherwise

/-- Gives a column another type. -/
def changeType (k : Skeleton) (id : String) (target : ColumnType) : Except SheetError Skeleton := do
  let t ← k.type id
  if t = target then .ok k
  else .ok { k with columns := changeFirst (·.1 == id) (fun c => (c.1, target)) k.columns }

/-- Moves a column to a position among all columns. -/
def moveColumn (k : Skeleton) (id : String) (index : Int) : Except SheetError Skeleton :=
  match k.columns.findIdx? (·.1 == id) with
  | none => .error (.columnNotFound id)
  | some start =>
    if 0 ≤ index ∧ index < k.columns.length then
      match k.columns[start]? with
      | some c => .ok { k with columns := (k.columns.eraseIdx start).insertIdx index.toNat c }
      | none => .error (.columnNotFound id)
    else .error (.indexOutOfRange index k.columns.length)

/-- One edit of a column. -/
def edit (k : Skeleton) (id : String) : ColumnEdit → Except SheetError Skeleton
  | .rename _ => do
    let _ ← k.type id
    .ok k
  | .changeType name => do
    let target ← ColumnType.read name
    k.changeType id target
  | .enumUpdate _ _ => k.ofType id .enum (.notEnumColumn id)
  | .reorder index => k.moveColumn id index
  | .tagRename _ => k.ofType id .tags (.notTagsColumn id)
  | .formula _ _ => k.ofType id .formula (.notFormulaColumn id)

/-- Edits of a column, one after the other. -/
def edits (k : Skeleton) (id : String) : List ColumnEdit → Except SheetError Skeleton
  | [] => .ok k
  | e :: rest => do
    let k ← k.edit id e
    k.edits id rest

/-- What an action makes of a skeleton. -/
def act (k : Skeleton) : Action → Except SheetError Skeleton
  | .updateCell row _ _ => if row ∈ k.rows then .ok k else .error (.rowNotFound row)
  | .addRow row => if row ∈ k.rows then .error (.duplicateRow row) else .ok { k with rows := k.rows ++ [row] }
  | .deleteRow row => if row ∈ k.rows then .ok { k with rows := k.rows.erase row } else .error (.rowNotFound row)
  | .addColumn column _ type => do
    let type ← ColumnType.read type
    if (k.type? column).isSome then .error (.duplicateColumn column)
    else .ok { k with columns := k.columns ++ [(column, type)] }
  | .deleteColumn column => do
    let _ ← k.type column
    .ok { k with columns := k.columns.eraseP (·.1 == column) }
  | .editColumn column batch => do
    let _ ← k.type column
    k.edits column batch

/-- Actions one after the other, the first one being number `index`. -/
def replayFrom (index : Nat) (k : Skeleton) : List Action → Except (Nat × SheetError) Skeleton
  | [] => .ok k
  | a :: rest =>
    match k.act a with
    | .ok k => k.replayFrom (index + 1) rest
    | .error e => .error (index, e)

/-- Actions one after the other. -/
def replay (k : Skeleton) (actions : List Action) : Except (Nat × SheetError) Skeleton :=
  k.replayFrom 0 actions

end Skeleton

namespace Sheet

variable {s t : Sheet} {id : String}

/-- What decides about the acceptance of actions. -/
def skeleton (s : Sheet) : Skeleton :=
  ⟨s.rowIds, s.columns.map fun c => (c.id, c.type)⟩

/-! ## What does not show in the skeleton -/

@[simp] theorem skeleton_refreshTags (s : Sheet) : s.refreshTags.skeleton = s.skeleton := rfl

@[simp] theorem skeleton_changeValues (s : Sheet) (f : String → String) :
    (s.changeValues id f).skeleton = s.skeleton := by
  rw [skeleton, rowIds_changeValues]
  rfl

@[simp] theorem skeleton_set (s : Sheet) (row column value : String) :
    (s.changeRow row (·.set column value)).skeleton = s.skeleton := by
  rw [skeleton, rowIds_set]
  rfl

/-! ## Columns and rows found by the skeleton -/

theorem type?_skeleton (s : Sheet) (id : String) : s.skeleton.type? id = (s.column? id).map Column.type := by
  rw [Skeleton.type?, skeleton, List.find?_map, column?, Option.map_map]
  rfl

theorem type_skeleton (s : Sheet) (id : String) : s.skeleton.type id = (s.column id).map Column.type := by
  rw [Skeleton.type, type?_skeleton, column]
  cases s.column? id <;> rfl

theorem findIdx?_skeleton (s : Sheet) (id : String) :
    s.skeleton.columns.findIdx? (·.1 == id) = s.columnIndex? id := by
  rw [skeleton, List.findIdx?_map]
  rfl

/-! ## Edits -/

section ChangeFirst

variable {α β : Type} {p : α → Bool} {f : α → α}

theorem map_changeFirst_of_find? {φ : α → β} {l : List α} (h : ∀ a ∈ l.find? p, φ (f a) = φ a) :
    (changeFirst p f l).map φ = l.map φ := by
  induction l with
  | nil => rfl
  | cons a l ih =>
    rw [changeFirst]
    split_ifs with ha
    · rw [List.find?_cons_of_pos ha] at h
      rw [List.map_cons, List.map_cons, h a rfl]
    · rw [List.find?_cons_of_neg ha] at h
      rw [List.map_cons, List.map_cons, ih h]

theorem map_changeFirst_comm {φ : α → β} {q : β → Bool} {g : β → β} (hp : ∀ a, q (φ a) = p a)
    (hf : ∀ a, φ (f a) = g (φ a)) (l : List α) : (changeFirst p f l).map φ = changeFirst q g (l.map φ) := by
  induction l with
  | nil => rfl
  | cons a l ih =>
    rw [List.map_cons, changeFirst, changeFirst, hp]
    split_ifs
    · rw [List.map_cons, hf]
    · rw [List.map_cons, ih]

end ChangeFirst

theorem skeleton_changeColumn {c : Column} {f : Column → Column} (hcolumn : s.column? id = some c)
    (hf : ((f c).id, (f c).type) = (c.id, c.type)) : (s.changeColumn id f).skeleton = s.skeleton := by
  have hmap : (s.changeColumn id f).columns.map (fun c => (c.id, c.type)) =
      s.columns.map fun c => (c.id, c.type) := by
    refine map_changeFirst_of_find? fun d hd => ?_
    obtain rfl : c = d := Option.some.inj (hcolumn.symm.trans hd)
    exact hf
  rw [skeleton, hmap, rowIds_changeColumn]
  rfl

theorem skeleton_changeType (s : Sheet) (id : String) (target : ColumnType) :
    (s.changeType id target).map skeleton = s.skeleton.changeType id target := by
  rw [changeType, Skeleton.changeType, type_skeleton]
  cases s.column id with
  | error e => rfl
  | ok c =>
    simp only [bind, Except.bind, Except.map]
    by_cases htype : c.type = target
    · rw [if_pos htype, if_pos htype]
    · rw [if_neg htype, if_neg htype]
      refine (congrArg Except.ok (skeleton_changeValues _ _)).trans ?_
      refine congrArg (fun columns => Except.ok (Skeleton.mk s.rowIds columns)) ?_
      have htarget : ∀ c : Column, (c.id, (ColumnKind.ofType target).type) = (c.id, target) := fun c => by
        rw [ColumnKind.type_ofType]
      exact map_changeFirst_comm (φ := fun c : Column => (c.id, c.type)) (q := fun c => c.1 == id)
        (g := fun c => (c.1, target)) (fun c => rfl) htarget s.columns

theorem skeleton_moveColumn (s : Sheet) (id : String) (index : Int) :
    (s.moveColumn id index).map skeleton = s.skeleton.moveColumn id index := by
  have hlength : s.skeleton.columns.length = s.columns.length := List.length_map _
  rw [moveColumn, Skeleton.moveColumn, findIdx?_skeleton, columnIndex, hlength]
  cases s.columnIndex? id with
  | none => rfl
  | some start =>
    simp only [bind, Except.bind]
    split_ifs
    · have hcolumns : s.skeleton.columns = s.columns.map fun c => (c.id, c.type) := rfl
      rw [hcolumns, List.getElem?_map]
      cases s.columns[start]? with
      | none => rfl
      | some c =>
        refine congrArg (fun columns => Except.ok (Skeleton.mk s.rowIds columns)) ?_
        rw [List.map_insertIdx, List.eraseIdx_map]
    · rfl

theorem skeleton_ofType {type : ColumnType} {otherwise : SheetError} {f : Column → Except SheetError Sheet}
    (haccepted : ∀ c, s.column? id = some c → c.type = type → (f c).map skeleton = .ok s.skeleton)
    (hrefused : ∀ c, c.type ≠ type → f c = .error otherwise) :
    (s.column id >>= f).map skeleton = s.skeleton.ofType id type otherwise := by
  rw [Skeleton.ofType, type_skeleton]
  cases hcolumn : s.column id with
  | error e => rfl
  | ok c =>
    by_cases htype : c.type = type
    · exact (haccepted c (column_ok hcolumn) htype).trans (if_pos htype).symm
    · exact (congrArg (Except.map skeleton) (hrefused c htype)).trans (if_neg htype).symm

/-- **An edit makes of the skeleton of a sheet what it makes of the skeleton alone.** -/
theorem skeleton_edit (s : Sheet) (id : String) (e : ColumnEdit) :
    (s.edit id e).map skeleton = s.skeleton.edit id e := by
  cases e with
  | rename title =>
    rw [edit, Skeleton.edit, type_skeleton]
    cases hcolumn : s.column id with
    | error e => rfl
    | ok c => exact congrArg Except.ok (skeleton_changeColumn (column_ok hcolumn) rfl)
  | changeType name =>
    rw [edit, Skeleton.edit]
    cases ColumnType.read name with
    | error e => rfl
    | ok target => exact skeleton_changeType s id target
  | enumUpdate order names =>
    refine skeleton_ofType (fun c hcolumn htype => ?_) (fun c htype => ?_)
    · obtain ⟨options, hkind⟩ : ∃ options, c.kind = .enum options := by
        cases hkind : c.kind <;> simp [Column.type, ColumnKind.type, hkind] at htype ⊢
      simp only [hkind, Except.map, skeleton_changeValues]
      refine congrArg Except.ok (skeleton_changeColumn hcolumn ?_)
      rw [htype]
      rfl
    · split
      · rename_i hkind
        exact absurd (congrArg ColumnKind.type hkind) htype
      · rfl
  | reorder index => exact skeleton_moveColumn s id index
  | tagRename names =>
    refine skeleton_ofType (fun c _ htype => ?_) (fun c htype => ?_)
    · rw [if_pos (by simpa [Column.isTags] using htype)]
      exact congrArg Except.ok (skeleton_changeValues s _)
    · exact if_neg (by simpa [Column.isTags] using htype)
  | formula source mode =>
    refine skeleton_ofType (fun c hcolumn htype => ?_) (fun c htype => ?_)
    · rw [if_pos (by simpa [Column.isFormula] using htype)]
      refine congrArg Except.ok (skeleton_changeColumn hcolumn ?_)
      rw [htype]
      rfl
    · exact if_neg (by simpa [Column.isFormula] using htype)

theorem skeleton_edits (s : Sheet) (id : String) (batch : List ColumnEdit) :
    (s.edits id batch).map skeleton = s.skeleton.edits id batch := by
  induction batch generalizing s with
  | nil => rfl
  | cons e rest ih =>
    rw [edits, Skeleton.edits, ← skeleton_edit]
    cases s.edit id e with
    | error e => rfl
    | ok t => exact ih t

/-! ## Actions -/

/-- **An action makes of the skeleton of a sheet what it makes of the skeleton alone.** -/
theorem skeleton_act (s : Sheet) (a : Action) : (s.act a).map skeleton = s.skeleton.act a := by
  have hrow : ∀ id, (s.row? id).isSome = true ↔ id ∈ s.skeleton.rows := fun id => isSome_row?_iff
  cases a with
  | updateCell row column value =>
    rw [act, updateCell, Skeleton.act]
    by_cases h : row ∈ s.skeleton.rows
    · rw [if_pos ((hrow row).mpr h), if_pos h]
      refine congrArg Except.ok ?_
      split_ifs
      · rw [skeleton_refreshTags, skeleton_set]
      · exact skeleton_set s row column value
    · rw [if_neg (mt (hrow row).mp h), if_neg h]
      rfl
  | addRow row =>
    rw [act, addRow, Skeleton.act]
    by_cases h : row ∈ s.skeleton.rows
    · rw [if_pos ((hrow row).mpr h), if_pos h]
      rfl
    · rw [if_neg (mt (hrow row).mp h), if_neg h]
      refine congrArg (fun rows => Except.ok (Skeleton.mk rows s.skeleton.columns)) ?_
      exact List.map_append
  | deleteRow row =>
    rw [act, deleteRow, Skeleton.act]
    by_cases h : row ∈ s.skeleton.rows
    · rw [if_pos ((hrow row).mpr h), if_pos h]
      refine congrArg (fun rows => Except.ok (Skeleton.mk rows s.skeleton.columns)) ?_
      exact List.eraseP_map.symm.trans (List.erase_eq_eraseP' row s.rowIds).symm
    · rw [if_neg (mt (hrow row).mp h), if_neg h]
      rfl
  | addColumn column title name =>
    rw [act, addColumn, Skeleton.act]
    cases ColumnType.read name with
    | error e => rfl
    | ok type =>
      have hsome : (s.skeleton.type? column).isSome = (s.column? column).isSome := by
        rw [type?_skeleton, Option.isSome_map]
      simp only [bind, Except.bind, hsome]
      split_ifs
      · rfl
      · refine congrArg (fun columns => Except.ok (Skeleton.mk s.rowIds columns)) ?_
        refine List.map_append.trans (congrArg (s.skeleton.columns ++ [·]) ?_)
        exact congrArg (column, ·) (ColumnKind.type_ofType type)
  | deleteColumn column =>
    rw [act, deleteColumn, Skeleton.act, type_skeleton]
    cases s.column column with
    | error e => rfl
    | ok c =>
      refine congrArg (fun columns => Except.ok (Skeleton.mk s.rowIds columns)) ?_
      exact (List.eraseP_map (p := fun c => c.1 == column) (f := fun c : Column => (c.id, c.type))).symm
  | editColumn column batch =>
    rw [act, editColumn, Skeleton.act, type_skeleton, ← skeleton_edits]
    cases s.column column with
    | error e => rfl
    | ok c =>
      simp only [bind, Except.bind]
      cases s.edits column batch <;> rfl

/-! ## Runs -/

theorem skeleton_reduce (s : Sheet) (a : Action) (now : Stamp) :
    (s.reduce a now).map skeleton = s.skeleton.act a := by
  rw [← skeleton_act, reduce]
  cases s.act a <;> rfl

theorem skeleton_replayFrom (index : Nat) (s : Sheet) (actions : List Action) (now : Stamp) :
    (s.replayFrom index now actions).map skeleton = s.skeleton.replayFrom index actions := by
  induction actions generalizing index s with
  | nil => rfl
  | cons a rest ih =>
    rw [replayFrom, Skeleton.replayFrom, ← skeleton_reduce s a now]
    cases s.reduce a now with
    | error e => rfl
    | ok t => exact ih (index + 1) t

/-- **A run makes of the skeleton of a sheet what it makes of the skeleton alone.** -/
theorem skeleton_replay (s : Sheet) (actions : List Action) (now : Stamp) :
    (s.replay actions now).map skeleton = s.skeleton.replay actions :=
  skeleton_replayFrom 0 s actions now

/-- **Acceptance depends on the skeleton alone.** Of two sheets with the same skeleton, whatever else is in them,
either both accept a list of actions, and the results again have the same skeleton, or both refuse the same
action of the list for the same reason. -/
theorem replay_skeleton_congr {s t : Sheet} (hst : s.skeleton = t.skeleton) (actions : List Action) (now now' : Stamp) :
    (∃ s' t', s.replay actions now = .ok s' ∧ t.replay actions now' = .ok t' ∧ s'.skeleton = t'.skeleton) ∨
      ∃ index error, s.replay actions now = .error (index, error) ∧ t.replay actions now' = .error (index, error) := by
  have hs := skeleton_replay s actions now
  have ht := skeleton_replay t actions now'
  rw [hst, ← ht] at hs
  cases hs' : s.replay actions now with
  | ok s' =>
    cases ht' : t.replay actions now' with
    | ok t' =>
      rw [hs', ht', Except.map, Except.map, Except.ok.injEq] at hs
      exact .inl ⟨s', t', rfl, rfl, hs⟩
    | error e => rw [hs', ht'] at hs; cases hs
  | error e =>
    cases ht' : t.replay actions now' with
    | ok t' => rw [hs', ht'] at hs; cases hs
    | error e' =>
      rw [hs', ht'] at hs
      cases hs
      exact .inr ⟨e.1, e.2, rfl, rfl⟩

/-- A sheet with tasks and their states. -/
def tasks : Sheet :=
  { new "s" "Tasks" default with
    columns := [⟨"c", "State", .enum ["Open", "Done"]⟩, ⟨"f", "Note", .formula "State + 1" .expression⟩]
    rows := [⟨"r", Dict.ofList [("c", "Open")]⟩, ⟨"r", ∅⟩] }

/-- The same skeleton under another name, with neither titles, options and formulas nor texts. -/
def bareTasks : Sheet :=
  { new "t" "" default with
    columns := [⟨"c", "", .enum []⟩, ⟨"f", "", .formula "" .module⟩]
    rows := [Row.new "r", Row.new "r"]
    tagCache := Dict.ofList [("x", ∅)] }

/-- Actions that give the states other names, make tags of them and move them, and then add a row. -/
def retagging : List Action :=
  [.editColumn "c" [.enumUpdate ["Done"] (Dict.ofList [("Done", "Closed")]), .changeType "tags", .reorder 1,
    .tagRename ∅], .updateCell "r" "f" "x", .deleteRow "r", .addRow "q"]

theorem replay_skeleton_congr_tasks : tasks ≠ bareTasks ∧ tasks.skeleton = bareTasks.skeleton ∧
    ∃ s t, tasks.replay retagging default = .ok s ∧ bareTasks.replay retagging default = .ok t ∧
      s.skeleton = t.skeleton := by
  have hsame : tasks.skeleton = bareTasks.skeleton := by decide
  refine ⟨by decide, hsame, ?_⟩
  obtain ⟨s, hs⟩ : ∃ s, tasks.replay retagging default = .ok s := ⟨_, rfl⟩
  rcases replay_skeleton_congr hsame retagging default default with h | ⟨index, error, herror, -⟩
  · exact h
  · rw [hs] at herror
    cases herror

end Sheet

end Worksheet
