import Worksheet.Proofs.Formula.Encoding
import Worksheet.Proofs.Formula.Preamble
/-!
# The row as a formula sees it

The lines about the row, which come before every formula, say exactly what is in the row, whatever texts
its titles, options and cells are.

* `cellValue`: the value of a cell for formulas;
* `cellsDatum`, `dropdownsDatum`, `rowDeclarations`: what the lines are to say;
* `encodes_cells`, `encodes_dropdowns`: the lines with the cells and with the options;
* **`parse_dataLines`**: each line is one statement, and together they declare the row.
-/

namespace Worksheet.Formula

open Worksheet.Text

/-! ## What the lines say -/

/-- The value of a cell for formulas: for a number column the number that is read, or else the empty
text; for any other column the text itself, or the empty text if there is none. -/
def cellValue (type : ColumnType) (value : Option String) : Literal :=
  match type with
  | .number =>
    match value.bind CellNumber.read? with
    | some x => numberValue x
    | none => .text ""
  | _ => .text (value.getD "")

/-- The value of a row in a column. -/
def cellDatum (row : Row) (c : Column) : Datum :=
  .literal (cellValue c.type (row.value? c.id))

/-- The titles and the values of the columns, in their order. -/
def cellsDatum (columns : List Column) (row : Row) : Datum :=
  .array (columns.map fun c => .record [("column_name", .literal (.text c.title)), ("value", cellDatum row c)])

/-- An enum column: its title, its position and its options. -/
def dropdownDatum? (c : Column) (index : Nat) : Option Datum :=
  c.options?.map fun options => .record [("column_name", .literal (.text c.title)),
    ("index", .literal (countValue index)), ("values", .array (options.map fun o => .literal (.text o)))]

/-- The enum columns, in their order. -/
def dropdownsDatum (columns : List Column) : Datum :=
  .array (columns.zipIdx.filterMap fun (c, index) => dropdownDatum? c index)

/-- The variables that a formula finds: the cells, the options, and the columns that have a variable. -/
def rowDeclarations (mode : FormulaMode) (columns : List Column) (row : Row) : List Declaration :=
  ⟨true, "FORMULA_CELLS", cellsDatum columns row⟩ :: ⟨true, "FORMULA_DROPDOWNS", dropdownsDatum columns⟩ ::
    (boundColumns columns).map fun b => ⟨mode == .module, b.1, cellDatum row b.2⟩

/-! ## Lists of texts -/

theorem toList_comma : ", ".toList = [',', ' '] := by decide

theorem forall₂_map {α β γ : Type} {p : β → γ → Prop} {f : α → β} {g : α → γ} {l : List α}
    (h : ∀ a ∈ l, p (f a) (g a)) : List.Forall₂ p (l.map f) (l.map g) := by
  rw [List.forall₂_map_left_iff, List.forall₂_map_right_iff, List.forall₂_same]
  exact h

theorem encodes_arrayLine {start name : String} {texts : List String} {ds : List Datum}
    (hstart : start.toList = "const".toList ++ [' '] ++ name.toList ++ [' ', '=', ' ', '['])
    (hname : IsVariableName name.toList) (h : List.Forall₂ Encodes (texts.map String.toList) ds) :
    EncodesLine (start ++ ", ".intercalate texts ++ "];").toList ⟨true, name, .array ds⟩ := by
  have hline := (Encodes.array h).line hname true
  have hend : "];".toList = [']', ';'] := by decide
  simp only [String.toList_append, String.toList_intercalate]
  rw [hstart, hend, toList_comma]
  simpa only [declarationText, if_true, List.append_assoc, List.cons_append, List.nil_append] using hline

/-! ## Cells -/

theorem encodes_valueLiteral (type : ColumnType) (value : Option String) :
    Encodes (valueLiteral type value).toList (.literal (cellValue type value)) := by
  cases type with
  | number =>
    have hliteral : value.bind CellNumber.literal? = (value.bind CellNumber.read?).map CellNumber.literalOf :=
      Option.map_bind.symm
    rw [valueLiteral, cellValue, hliteral]
    cases hread : value.bind CellNumber.read? with
    | none => exact encodes_text ""
    | some x =>
      refine encodes_number ?_
      obtain ⟨s, -, hs⟩ := Option.bind_eq_some_iff.mp hread
      exact (Option.filter_eq_some_iff.mp hs).2
  | _ => exact encodes_text _

theorem isVariableName_fields : ∀ name ∈ ["column_name", "value", "index", "values"], IsVariableName name.toList := by
  have hform : ∀ name ∈ ["column_name", "value", "index", "values"], isNameForm name.toList = true := by decide
  have hplain : ∀ name ∈ ["column_name", "value", "index", "values"], languageWords.contains name = false := by
    decide
  intro name hname
  refine ⟨hform name hname, ?_⟩
  rw [String.ofList_toList]
  exact hplain name hname

theorem entry_start : "#\x7b column_name: ".toList = ['#', '\x7b', ' '] ++ "column_name".toList ++ [':', ' '] := by
  decide

theorem encodes_cellEntry (row : Row) (c : Column) :
    Encodes (cellEntry row c).toList
      (.record [("column_name", .literal (.text c.title)), ("value", cellDatum row c)]) := by
  have hcell : Encodes (valueLiteral c.type (row.value? c.id)).toList (cellDatum row c) := encodes_valueLiteral _ _
  have htitle := (encodes_text c.title).field (isVariableName_fields "column_name" (by decide))
  have hvalue := hcell.field (isVariableName_fields "value" (by decide))
  have hrecord := Encodes.record htitle (.cons hvalue .nil) (show ["column_name", "value"].Nodup by decide)
  have hmiddle : ", value: ".toList = [',', ' '] ++ "value".toList ++ [':', ' '] := by decide
  have hend : " \x7d".toList = [' ', '\x7d'] := by decide
  unfold cellEntry
  simp only [String.toList_append]
  rw [entry_start, hmiddle, hend]
  simpa only [fieldText, List.intercalate_cons_cons, List.intercalate_singleton, List.append_assoc,
    List.cons_append, List.nil_append] using hrecord

theorem encodes_cells (columns : List Column) (row : Row) :
    EncodesLine (cellsLine columns row).toList ⟨true, "FORMULA_CELLS", cellsDatum columns row⟩ := by
  have hentries : List.Forall₂ Encodes ((columns.map (cellEntry row)).map String.toList) (columns.map fun c =>
      .record [("column_name", .literal (.text c.title)), ("value", cellDatum row c)]) := by
    rw [List.map_map]
    exact forall₂_map fun c _ => encodes_cellEntry row c
  have hname : IsVariableName "FORMULA_CELLS".toList := ⟨by decide, by decide⟩
  exact encodes_arrayLine (by decide) hname hentries

/-! ## Options -/

theorem encodes_options (options : List String) :
    Encodes ('[' :: ([',', ' '].intercalate ((options.map textLiteral).map String.toList) ++ [']']))
      (.array (options.map fun o => .literal (.text o))) := by
  refine Encodes.array ?_
  rw [List.map_map]
  exact forall₂_map fun o _ => encodes_text o

theorem encodes_dropdown (index : Nat) {c : Column} {options : List String} (h : c.options? = some options) :
    ∃ text d, dropdownRecord? index c = some text ∧ dropdownDatum? c index = some d ∧ Encodes text.toList d := by
  have htitle := (encodes_text c.title).field (isVariableName_fields "column_name" (by decide))
  have hindex := (encodes_count index).field (isVariableName_fields "index" (by decide))
  have hvalues := (encodes_options options).field (isVariableName_fields "values" (by decide))
  have hrecord := Encodes.record htitle (.cons hindex (.cons hvalues .nil))
    (show ["column_name", "index", "values"].Nodup by decide)
  refine ⟨_, _, by rw [dropdownRecord?, h]; rfl, by rw [dropdownDatum?, h]; rfl, ?_⟩
  have hmiddle : ", index: ".toList = [',', ' '] ++ "index".toList ++ [':', ' '] := by decide
  have hvalue : ", values: [".toList = [',', ' '] ++ "values".toList ++ [':', ' ', '['] := by decide
  have hend : "] \x7d".toList = [']', ' ', '\x7d'] := by decide
  simp only [String.toList_append, String.toList_intercalate]
  rw [entry_start, hmiddle, hvalue, hend, toList_comma]
  simpa only [fieldText, List.intercalate_cons_cons, List.intercalate_singleton, List.append_assoc,
    List.cons_append, List.nil_append] using hrecord

theorem encodes_dropdownEntries (columns : List Column) (index : Nat) :
    List.Forall₂ Encodes ((dropdownEntries index columns).map String.toList)
      ((columns.zipIdx index).filterMap fun (c, index) => dropdownDatum? c index) := by
  induction columns generalizing index with
  | nil => exact .nil
  | cons c columns ih =>
    rw [dropdownEntries, List.map_append, List.zipIdx_cons, List.filterMap_cons]
    cases hoptions : c.options? with
    | none =>
      have hrecord : dropdownRecord? index c = none := by rw [dropdownRecord?, hoptions]; rfl
      have hdatum : dropdownDatum? c index = none := by rw [dropdownDatum?, hoptions]; rfl
      simp only [hrecord, hdatum]
      exact ih (index + 1)
    | some options =>
      obtain ⟨text, d, hrecord, hdatum, hencodes⟩ := encodes_dropdown index hoptions
      simp only [hrecord, hdatum]
      exact .cons hencodes (ih (index + 1))

theorem encodes_dropdowns (columns : List Column) :
    EncodesLine (dropdownsLine columns).toList ⟨true, "FORMULA_DROPDOWNS", dropdownsDatum columns⟩ := by
  have hname : IsVariableName "FORMULA_DROPDOWNS".toList := ⟨by decide, by decide⟩
  exact encodes_arrayLine (by decide) hname (encodes_dropdownEntries columns 0)

/-! ## Variables -/

theorem encodes_binding (mode : FormulaMode) (row : Row) (b : String × Column) (hname : IsVariableName b.1.toList) :
    EncodesLine (bindingLine mode row b).toList ⟨mode == .module, b.1, cellDatum row b.2⟩ := by
  have hcell : Encodes (valueLiteral b.2.type (row.value? b.2.id)).toList (cellDatum row b.2) :=
    encodes_valueLiteral _ _
  have hline := hcell.line hname (mode == .module)
  have hlet : "let ".toList = "let".toList ++ [' '] := by decide
  have hconst : "const ".toList = "const".toList ++ [' '] := by decide
  have hequals : " = ".toList = [' ', '=', ' '] := by decide
  have hend : ";".toList = [';'] := by decide
  unfold bindingLine
  cases mode with
  | expression =>
    have hnot : (FormulaMode.expression == .module) = false := rfl
    simp only [String.toList_append]
    rw [hlet, hequals, hend]
    simpa only [declarationText, hnot, Bool.false_eq_true, if_false, List.append_assoc, List.cons_append,
      List.nil_append] using hline
  | module =>
    have hsame : (FormulaMode.module == .module) = true := rfl
    simp only [String.toList_append]
    rw [hconst, hequals, hend]
    simpa only [declarationText, hsame, if_true, List.append_assoc, List.cons_append, List.nil_append] using hline

theorem encodes_dataLines (mode : FormulaMode) (columns : List Column) (row : Row) :
    List.Forall₂ EncodesLine ((dataLines mode columns row).map String.toList) (rowDeclarations mode columns row) := by
  refine .cons (encodes_cells columns row) (.cons (encodes_dropdowns columns) ?_)
  rw [List.map_map]
  exact forall₂_map fun b hb =>
    encodes_binding mode row b (Identifier.ofTitle?_variableName (mem_boundColumns hb).2)

/-! ## The lines as a whole -/

theorem compile_script (mode : FormulaMode) (source : String) (columns : List Column) (row : Row) :
    ∃ rest, (compile mode source columns row).script =
        unlines ((dataLines mode columns row).map String.toList) ++ rest ∧
      ∀ c ∈ rest.head?, isBlank c = false := by
  have hhead : unlines ((preamble mode columns row).map String.toList) =
      unlines ((dataLines mode columns row).map String.toList) ++ unlines (Builtin.source.map String.toList) := by
    rw [preamble, List.map_append, unlines, List.flatMap_append]
    rfl
  have hsource : ∀ more, ∀ c ∈ (unlines (Builtin.source.map String.toList) ++ more).head?, isBlank c = false := by
    intro more c hc
    obtain rfl : 'f' = c := Option.some.inj hc
    decide
  unfold compile
  cases mode with
  | expression => exact ⟨_, by dsimp only; rw [hhead, List.append_assoc, List.append_assoc, List.append_assoc], hsource _⟩
  | module => exact ⟨_, by dsimp only; rw [hhead, List.append_assoc, List.append_assoc], hsource _⟩

/-- **The lines about the row say what is in the row, and nothing else.** Each of them is one line of the script
and is parsed as one declaration, in the order of the lines; parsed by themselves they are a script without
functions and without any other statement, and every formula starts with the same declarations, whatever
its author wrote. A variable is the one of a column with its title, so its value stands among the cells. -/
theorem parse_dataLines (mode : FormulaMode) (columns : List Column) (row : Row) :
    (∀ line ∈ dataLines mode columns row, '\n' ∉ line.toList) ∧
    (∀ b ∈ boundColumns columns, b.2 ∈ columns ∧ Identifier.ofTitle? b.2.title = some b.1) ∧
    (∃ body, parse (unlines ((dataLines mode columns row).map String.toList)) = .ok ⟨[], body⟩ ∧
      body.map Stmt.declaration? = ((rowDeclarations mode columns row).zipIdx 1).map some) ∧
    ∀ source script, parse (compile mode source columns row).script = .ok script →
      ((rowDeclarations mode columns row).zipIdx 1).map some <+: script.body.map Stmt.declaration? := by
  have hlines := encodes_dataLines mode columns row
  refine ⟨fun line hline => ?_, fun b hb => mem_boundColumns hb, ?_, ?_⟩
  · have hone := (List.forall₂_and_left _ _).mp (hlines.imp fun w d h => ⟨h.oneLine, h⟩)
    exact hone.1 _ (List.mem_map_of_mem hline)
  · have hnil : ∀ c ∈ ([] : List Char).head?, isBlank c = false := fun c hc => nomatch hc
    obtain ⟨body, hbody, -, hends⟩ := parse_lines hlines hnil
    rw [List.append_nil] at hends
    exact ⟨body, hends rfl, hbody⟩
  · intro source script hscript
    obtain ⟨rest, hrest, hblank⟩ := compile_script mode source columns row
    obtain ⟨body, hbody, hstarts, -⟩ := parse_lines hlines hblank
    rw [hrest] at hscript
    obtain ⟨more, hmore⟩ := hstarts script hscript
    rw [hmore, List.map_append, hbody]
    exact List.prefix_append _ _

end Worksheet.Formula
