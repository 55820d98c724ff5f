import Worksheet.Proofs.Decimal.Canonical
import Worksheet.Proofs.Sheet.EditOrder
/-!
# Number cells

A column that becomes a number column gets canonical texts in its cells, or empty ones, and no later change of its
type to one that keeps texts, or back, touches them again.

* `converted_canonical`: a conversion that keeps canonical texts;
* `NumberCells`: rows whose cells hold canonical texts;
* `reduce_changeType`: one change of type;
* `replay_changeType`: a chain of them;
* **`conversion_stable`**: the canonical text of a text, and the cells of a column.
-/

namespace Worksheet

variable {id : String}

/-! ## Conversions -/

/-- Reads as no number, or is the text that shows it. -/
def IsNumberCell (text : String) : Prop :=
  text = "" ∨ CellNumber.canonical? text = some text

theorem isNumberCell_converted (text : String) : IsNumberCell (Sheet.converted .number text) := by
  cases h : CellNumber.canonical? text with
  | none => exact .inl (by simp only [Sheet.converted, h, Option.getD_none])
  | some u => exact .inr (by simp only [Sheet.converted, h, Option.getD_some, CellNumber.canonical?_canonical h])

/-- The canonical text of a number is converted into itself, and so is the empty text. -/
theorem converted_canonical {type : ColumnType} (htype : type ≠ .tags) {text : String} (h : IsNumberCell text) :
    Sheet.converted type text = text := by
  have hempty : CellNumber.canonical? "" = none := by decide
  cases type with
  | number =>
    rcases h with rfl | h
    · simp only [Sheet.converted, hempty, Option.getD_none]
    · simp only [Sheet.converted, h, Option.getD_some]
  | tags => exact absurd rfl htype
  | text | enum | date | formula => rfl

/-- Every text under the id of a column is the cell of a number column. -/
def NumberCells (id : String) (rows : List Row) : Prop :=
  ∀ r ∈ rows, ∀ text, r.value? id = some text → IsNumberCell text

theorem numberCells_converted (rows : List Row) :
    NumberCells id (rows.map (·.change id (Sheet.converted .number))) := by
  intro r hr text htext
  obtain ⟨r, -, rfl⟩ := List.mem_map.mp hr
  rw [Row.value?_change, if_pos rfl] at htext
  obtain ⟨old, -, rfl⟩ := Option.map_eq_some_iff.mp htext
  exact isNumberCell_converted old

theorem NumberCells.map_change {rows : List Row} (h : NumberCells id rows) {type : ColumnType}
    (htype : type ≠ .tags) : rows.map (·.change id (Sheet.converted type)) = rows := by
  have hrow : ∀ r ∈ rows, r.change id (Sheet.converted type) = r := by
    refine fun r hr => Row.ext_value? rfl fun key => ?_
    rw [Row.value?_change]
    split_ifs with hkey
    · subst hkey
      cases hvalue : r.value? id with
      | none => rfl
      | some text => exact congrArg some (converted_canonical htype (h r hr text hvalue))
    · rfl
  rw [List.map_congr_left hrow, List.map_id']

namespace Sheet

variable {s : Sheet} {c : Column}

/-! ## Changes of type -/

/-- **A change of type** converts the texts under the column, unless the column has the type already. -/
theorem reduce_changeType (hc : s.column? id = some c) (type : ColumnType) (now : Stamp) :
    ∃ t, s.reduce (.editColumn id [.changeType type.name]) now = .ok t ∧
      t.rows = (if c.type = type then s.rows else s.rows.map (·.change id (converted type))) ∧
      ∃ c', t.column? id = some c' := by
  have hcolumn : s.column id = .ok c := by rw [column, hc]
  have hname : ColumnType.read type.name = .ok type := by
    rw [ColumnType.read, ColumnType.ofName?_eq_some.mpr rfl]
  by_cases htype : c.type = type
  · have hedit : s.edit id (.changeType type.name) = .ok s := by
      simp only [edit, hname, changeType, hcolumn, bind, Except.bind, if_pos htype]
    exact ⟨_, reduce_edit hc hedit now, (if_pos htype).symm, c, hc⟩
  · have hedit : s.edit id (.changeType type.name) =
        .ok (s.retouch id (fun c => { c with kind := .ofType type }) (converted type)) := by
      simp only [edit, hname, changeType, hcolumn, bind, Except.bind, if_neg htype, retouch]
    refine ⟨_, reduce_edit hc hedit now, (if_neg htype).symm, { c with kind := .ofType type }, ?_⟩
    have hthere := column?_retouch (s := s) (c := id) (g := converted type)
      (f := fun c => { c with kind := .ofType type }) fun _ => rfl
    rw [hc] at hthere
    exact hthere

/-- Changes of the type of one column, one action each. -/
def retypes (id : String) (types : List ColumnType) : List Action :=
  types.map fun type => .editColumn id [.changeType type.name]

/-- **A chain of changes of type leaves number cells alone**, as long as no type in it is that of tags. -/
theorem replay_changeType {types : List ColumnType} (htypes : .tags ∉ types) (now : Stamp) :
    ∀ {s : Sheet} {c : Column}, s.column? id = some c → NumberCells id s.rows →
      ∃ t, s.replay (retypes id types) now = .ok t ∧ t.rows = s.rows := by
  induction types with
  | nil => exact fun {s _} _ _ => ⟨s, replay_nil.mpr rfl, rfl⟩
  | cons type types ih =>
    intro s c hc hcells
    rw [List.mem_cons, not_or] at htypes
    obtain ⟨u, hu, hrows, c', hc'⟩ := reduce_changeType hc type now
    rw [hcells.map_change (Ne.symm htypes.1), ite_self] at hrows
    obtain ⟨t, ht, hkept⟩ := ih htypes.2 hc' (hrows ▸ hcells)
    exact ⟨t, replay_cons.mpr ⟨u, hu, ht⟩, hkept.trans hrows⟩

/-! ## Both -/

/-- **Conversion to numbers is stable.** The canonical text of every text that is read as a number is read as the same
number, and is its own canonical text. A column of another type that becomes a number column is left with canonical
texts and empty ones in its cells, and no chain of later changes of its type, to types that keep texts or back to
numbers, changes a cell of the sheet. -/
theorem conversion_stable :
    (∀ text x, CellNumber.read? text = some x → ∃ shown, CellNumber.canonical? text = some shown ∧
      CellNumber.read? shown = some x ∧ CellNumber.canonical? shown = some shown) ∧
    ∀ (s : Sheet) (c : Column) (now : Stamp), s.columnIds.Nodup → c ∈ s.columns → c.type ≠ .number →
      ∃ t, s.reduce (.editColumn c.id [.changeType ColumnType.number.name]) now = .ok t ∧
        (∀ r ∈ t.rows, ∀ text, r.value? c.id = some text →
          text = "" ∨ CellNumber.canonical? text = some text) ∧
        ∀ (types : List ColumnType) (later : Stamp), .tags ∉ types →
          ∃ u, t.replay (retypes c.id types) later = .ok u ∧ u.rows = t.rows := by
  constructor
  · intro text x hx
    have hfin := CellNumber.isFinite_of_read? hx
    exact ⟨CellNumber.text x, CellNumber.canonical?_of_read? hx, CellNumber.read?_text hfin,
      CellNumber.canonical?_text hfin⟩
  · intro s c now hids hc htype
    obtain ⟨t, ht, hrows, c', hc'⟩ := reduce_changeType (column?_of_mem hids hc) .number now
    rw [if_neg htype] at hrows
    have hcells : NumberCells c.id t.rows := hrows ▸ numberCells_converted s.rows
    exact ⟨t, ht, hcells, fun types later htypes => replay_changeType htypes later hc' hcells⟩

/-- A text column with numbers in many notations, and with texts that are no numbers. -/
def measured : Sheet :=
  { new "s" "Measures" default with
    columns := [⟨"m", "Measure", .text⟩]
    rows := [" 1.50 ", "-0", "1e3", "1e400", "tall", ""].map fun text => ⟨text, Dict.ofList [("m", text)]⟩ }

/-- The texts become numbers or empty, and stay so when the column becomes a text column and a number column again. -/
theorem conversion_stable_measured : (∃ x, CellNumber.read? " 1.50 " = some x ∧ CellNumber.read? "1.5" = some x) ∧
    measured.columnIds.Nodup ∧ ∃ t,
      measured.reduce (.editColumn "m" [.changeType ColumnType.number.name]) default = .ok t ∧
        t.rows.map (·.value? "m") = [some "1.5", some "-0", some "1000", some "", some "", some ""] ∧
        ∃ u, t.replay (retypes "m" [.text, .number]) default = .ok u ∧ u.rows = t.rows := by
  obtain ⟨hread, hcells⟩ := conversion_stable
  obtain ⟨x, hx⟩ : ∃ x, CellNumber.read? " 1.50 " = some x := ⟨_, rfl⟩
  obtain ⟨shown, hshown, hagain, -⟩ := hread _ _ hx
  have hcanonical : CellNumber.canonical? " 1.50 " = some "1.5" := by decide +kernel
  obtain rfl := Option.some.inj (hcanonical.symm.trans hshown)
  have hids : measured.columnIds.Nodup := by decide
  have hc : ⟨"m", "Measure", .text⟩ ∈ measured.columns := by decide
  obtain ⟨t, ht, -, hchain⟩ := hcells measured _ default hids hc (by decide)
  refine ⟨⟨x, hx, hagain⟩, hids, t, ht, ?_, hchain [.text, .number] default (by decide)⟩
  obtain ⟨t', ht', hrows, -⟩ := reduce_changeType (column?_of_mem hids hc) .number default
  obtain rfl := Except.ok.inj (ht.symm.trans ht')
  rw [hrows]
  decide +kernel

end Sheet

end Worksheet
