import Worksheet.Program
import Worksheet.Proofs.Calculator.Reruns
import Worksheet.Proofs.Formula.Header
import Worksheet.Proofs.Sheet.Json
import Worksheet.Proofs.Text.Lines
/-!
# Reading a report

What a reader gets who cuts the printed results at line feeds, and each line at its first two tabs. Texts are printed
as they are, so a text of several lines takes up several lines of the report.

* `Record`, `Record.read?`: a line as a record;
* `Record.IsWritten`, `Record.isWritten_all`: the lines that records take up;
* `Record.map_read?_iff`: when each line is a record;
* `Sheet.records`, `toList_report`: the records of a sheet, and its report;
* **`eval_records`**: the lines that are printed about a sheet.
-/

namespace Worksheet

open Formula Text

/-! ## Records -/

/-- What a report tells about a formula cell. -/
structure Record where
  row : String
  column : String
  text : String
  deriving DecidableEq

namespace Record

/-- The record as it is printed, up to the line feed at its end. -/
def chars (r : Record) : List Char :=
  r.row.toList ++ '\t' :: (r.column.toList ++ '\t' :: (r.text.toList ++ ['\n']))

/-- Cuts a line at its first tab. -/
def cutAtTab? : List Char → Option (List Char × List Char)
  | [] => none
  | c :: rest => if c = '\t' then some ([], rest) else (cutAtTab? rest).map fun (field, rest) => (c :: field, rest)

/-- Reads a line: the two fields before its first tabs, and what is left. -/
def read? (line : List Char) : Option Record := do
  let (row, rest) ← cutAtTab? line
  let (column, text) ← cutAtTab? rest
  some ⟨String.ofList row, String.ofList column, String.ofList text⟩

/-- The ids of the record fit on a line and into a field. -/
def IsPlain (r : Record) : Prop :=
  ('\t' ∉ r.row.toList ∧ '\n' ∉ r.row.toList) ∧ '\t' ∉ r.column.toList ∧ '\n' ∉ r.column.toList

/-- The lines that the record takes up. The first one is read as the ids with the first line of the text, and the
others are the further lines of the text. -/
def IsWritten (r : Record) (lines : List (List Char)) : Prop :=
  ∃ first line others, lines = line :: others ∧ read? line = some { r with text := String.ofList first } ∧
    splitAtFeeds r.text.toList = first :: others

variable {r : Record} {rs : List Record} {field rest : List Char} {lines : List (List Char)}
  {groups : List (List (List Char))}

theorem cutAtTab?_append (h : '\t' ∉ field) (rest : List Char) :
    cutAtTab? (field ++ '\t' :: rest) = some (field, rest) := by
  induction field with
  | nil => rfl
  | cons c field ih =>
    rw [List.mem_cons, not_or] at h
    rw [List.cons_append, cutAtTab?, if_neg (Ne.symm h.1), ih h.2]
    rfl

theorem read?_fields (hr : r.IsPlain) (text : List Char) :
    read? (r.row.toList ++ '\t' :: (r.column.toList ++ '\t' :: text)) = some { r with text := String.ofList text } := by
  rw [read?, cutAtTab?_append hr.1.1, Option.bind_eq_bind, Option.bind_some]
  simp only [cutAtTab?_append hr.2.1, Option.bind_some, String.ofList_toList]

theorem isWritten_chars (hr : r.IsPlain) (rest : List Char) :
    ∃ lines, r.IsWritten lines ∧ splitAtFeeds (r.chars ++ rest) = lines ++ splitAtFeeds rest := by
  obtain ⟨first, others, hsplit⟩ := List.exists_cons_of_ne_nil (splitAtFeeds_ne_nil r.text.toList)
  let ids := r.row.toList ++ '\t' :: (r.column.toList ++ ['\t'])
  have hids : '\n' ∉ ids := by simp [ids, hr.1.2, hr.2.2]
  have hshape : r.chars ++ rest = ids ++ (r.text.toList ++ '\n' :: rest) := by simp [chars, ids]
  have hpieces : splitAtFeeds (r.text.toList ++ '\n' :: rest) = first :: (others ++ splitAtFeeds rest) := by
    rw [splitAtFeeds_append_feed, hsplit, List.cons_append]
  refine ⟨(ids ++ first) :: others, ⟨first, ids ++ first, others, rfl, ?_, hsplit⟩, ?_⟩
  · rw [← read?_fields hr first]
    simp [ids]
  · rw [hshape, splitAtFeeds_append hids hpieces, List.cons_append]

/-- **A report is cut into the lines of its records**, one record after the other. -/
theorem isWritten_all (h : ∀ r ∈ rs, r.IsPlain) :
    ∃ groups, List.Forall₂ IsWritten rs groups ∧ splitAtFeeds (rs.flatMap chars) = groups.flatten ++ [[]] := by
  induction rs with
  | nil => exact ⟨[], .nil, rfl⟩
  | cons r rs ih =>
    obtain ⟨hr, hrs⟩ := List.forall_mem_cons.mp h
    obtain ⟨groups, hgroups, hrest⟩ := ih hrs
    obtain ⟨lines, hlines, hsplit⟩ := isWritten_chars hr (rs.flatMap chars)
    refine ⟨lines :: groups, .cons hlines hgroups, ?_⟩
    rw [List.flatMap_cons, hsplit, hrest, List.flatten_cons, List.append_assoc]

/-! ## One line for each record -/

theorem IsWritten.length (h : r.IsWritten lines) : lines.length = r.text.toList.count '\n' + 1 := by
  obtain ⟨first, line, others, rfl, -, hsplit⟩ := h
  rw [← length_splitAtFeeds, hsplit, List.length_cons, List.length_cons]

theorem IsWritten.map_read? (h : r.IsWritten lines) (hfeed : '\n' ∉ r.text.toList) : lines.map read? = [some r] := by
  obtain ⟨first, line, others, rfl, hread, hsplit⟩ := h
  rw [splitAtFeeds_of_not_mem hfeed] at hsplit
  obtain ⟨rfl, rfl⟩ := List.cons.inj hsplit
  rw [List.map_singleton, hread, String.ofList_toList]

theorem length_flatten (h : List.Forall₂ IsWritten rs groups) :
    groups.flatten.length = rs.length + (rs.map fun r => r.text.toList.count '\n').sum := by
  induction h with
  | nil => rfl
  | cons hr _ ih =>
    rw [List.flatten_cons, List.length_append, hr.length, ih, List.length_cons, List.map_cons, List.sum_cons]
    omega

/-- **The lines are the records if and only if no text breaks its line.** -/
theorem map_read?_iff (h : List.Forall₂ IsWritten rs groups) :
    groups.flatten.map read? = rs.map some ↔ ∀ r ∈ rs, '\n' ∉ r.text.toList := by
  constructor
  · intro hlines r hr
    have hlength := congrArg List.length hlines
    rw [List.length_map, List.length_map, length_flatten h] at hlength
    have hnone : (rs.map fun r => r.text.toList.count '\n').sum = 0 := by omega
    exact List.count_eq_zero.mp (List.sum_eq_zero_iff.mp hnone _ (List.mem_map_of_mem hr))
  · intro hfeeds
    induction h with
    | nil => rfl
    | cons hr _ ih =>
      obtain ⟨hfeed, hfeeds⟩ := List.forall_mem_cons.mp hfeeds
      rw [List.flatten_cons, List.map_append, hr.map_read? hfeed, ih hfeeds]
      rfl

end Record

/-! ## The report about a sheet -/

/-- The text of a result in a report. -/
def resultText : CellResult → String
  | .ok value => value
  | .error e => "#ERR: " ++ e.message

/-- The record of a formula cell. -/
def FormulaCell.record (c : FormulaCell) (inputColumns : List Column) (timeout : Nat) : Record :=
  ⟨c.row.id, c.column, resultText (c.evaluate inputColumns timeout)⟩

namespace Sheet

/-- The records of the formula cells, each formula being run by itself. -/
def records (s : Sheet) (timeout : Nat) : List Record :=
  s.formulaCells.map (·.record s.inputColumns timeout)

theorem ids_records (s : Sheet) (timeout : Nat) :
    (s.records timeout).map (fun r => (r.row, r.column)) = s.rowIds ×ˢ s.formulaColumns.map (·.id) := by
  rw [records, List.map_map, ← key_formulaCells]
  rfl

end Sheet

namespace Program

open Calculator

variable {s : Sheet} {r : Row}

theorem toList_cellLine (row column : String) (result : CellResult) :
    (cellLine row column result).toList = Record.chars ⟨row, column, resultText result⟩ := by
  cases result <;> simp [cellLine, Record.chars, resultText]

theorem rowLines_arranged (hs : s.Distinct) (hr : r ∈ s.rows) (timeout : Nat) :
    rowLines s (arranged s timeout) r =
      (s.formulaCellsOf r).map fun c => cellLine c.row.id c.column (c.evaluate s.inputColumns timeout) := by
  rw [rowLines, List.filterMap_filter, Sheet.formulaCellsOf, List.map_filterMap]
  refine List.filterMap_congr fun c hc => ?_
  cases hkind : c.kind with
  | formula source mode =>
    have hcell : ⟨r, c.id, source, mode⟩ ∈ s.formulaCells :=
      Sheet.mem_formulaCells.mpr ⟨hr, Sheet.mem_formulaCellsOf.mpr ⟨rfl, c, hc, rfl, hkind⟩⟩
    have hformula : c.isFormula = true := by rw [Column.isFormula, Column.type, hkind]; rfl
    have hresult : ((arranged s timeout).find? r.id).bind (·.find? c.id) = _ := resultAt?_arranged hs hcell
    rw [if_pos hformula, hresult]
    rfl
  | _ =>
    have hformula : c.isFormula = false := by rw [Column.isFormula, Column.type, hkind]; rfl
    rw [hformula]
    rfl

theorem toList_report (hs : s.Distinct) (timeout : Nat) :
    (report s timeout).toList = (s.records timeout).flatMap Record.chars := by
  have hcomputed : ((Calculator.new timeout).compute s).1 = arranged s timeout := (compute_eq (sound_new timeout) s).1
  have hlines : sheetLines s (arranged s timeout) =
      s.formulaCells.map fun c => cellLine c.row.id c.column (c.evaluate s.inputColumns timeout) := by
    rw [sheetLines, Sheet.formulaCells, List.map_flatMap]
    exact List.flatMap_congr fun r hr => rowLines_arranged hs hr timeout
  rw [report, hcomputed, String.toList_join, hlines, Sheet.records, List.flatMap_map, List.flatMap_map]
  exact List.flatMap_congr fun c _ => toList_cellLine _ _ _

theorem valueIn_sheet {env : Surroundings} {path : String} (hs : s.StampsInRange)
    (h : env.read path = some s.toJson.compact) : valueIn env Sheet.ofJson? path = .ok s := by
  have hread : (Json.read? s.toJson.compact).bind Sheet.ofJson? = some s := by
    rw [Json.compact, Json.read?_print _ (s.plain_toJson 123), Option.bind_some, Sheet.recovers hs _ (.same _)]
  simp only [valueIn, h, hread]

theorem run_eval {env : Surroundings} {settings : Settings} {path : String}
    (hread : valueIn env Sheet.ofJson? path = .ok s) :
    (Command.eval path).run env settings = .ok (.print (report s settings.formulaTimeout)) := by
  rw [Command.run, hread]
  rfl

/-- **What is printed about a sheet.** Take any sheet with distinct ids in which there is no tab and no line feed. The
lines that are printed are those of its records, one record after the other: there is one for each formula column of
each row, in the order of the sheet, with the result that the formula has by itself. A record takes up one line, on
which its ids and its text are read, and one more for each line feed in its text. So each line is a record if and only
if there is no line feed in any text. -/
theorem eval_records {env : Surroundings} {path : String} (settings : Settings)
    (hread : valueIn env Sheet.ofJson? path = .ok s) (hs : s.Distinct)
    (hids : ∀ id ∈ s.rowIds ++ s.columnIds, '\t' ∉ id.toList ∧ '\n' ∉ id.toList) :
    ∃ text groups, (Command.eval path).run env settings = .ok (.print text) ∧
      splitAtFeeds text.toList = groups.flatten ++ [[]] ∧
      (s.records settings.formulaTimeout).map (fun r => (r.row, r.column)) =
        s.rowIds ×ˢ s.formulaColumns.map (·.id) ∧
      List.Forall₂ Record.IsWritten (s.records settings.formulaTimeout) groups ∧
      (groups.flatten.map Record.read? = (s.records settings.formulaTimeout).map some ↔
        ∀ r ∈ s.records settings.formulaTimeout, '\n' ∉ r.text.toList) := by
  have hplain : ∀ r ∈ s.records settings.formulaTimeout, r.IsPlain := by
    intro r hr
    have hkey : (r.row, r.column) ∈ s.rowIds ×ˢ s.formulaColumns.map (·.id) :=
      s.ids_records settings.formulaTimeout ▸ List.mem_map_of_mem hr
    obtain ⟨hrow, hcolumn⟩ := List.pair_mem_product.mp hkey
    have hcolumn := (List.filter_sublist.map _).subset hcolumn
    exact ⟨hids _ (List.mem_append_left _ hrow), hids _ (List.mem_append_right _ hcolumn)⟩
  obtain ⟨groups, hgroups, hsplit⟩ := Record.isWritten_all hplain
  refine ⟨_, groups, run_eval hread, ?_, s.ids_records _, hgroups, Record.map_read?_iff hgroups⟩
  rw [toList_report hs, hsplit]

/-! ## A text of two lines -/

/-- A formula whose text has two lines. -/
def verseFormula : String := "\"a\\nb\""

/-- A sheet with this formula alone. -/
def verse : Sheet :=
  { Sheet.new "s" "Poem" .epoch with
    columns := [⟨"f", "Verse", .formula verseFormula .expression⟩]
    rows := [⟨"r", ∅⟩] }

/-- The formula as it is run. -/
def verseScript : Compiled :=
  (compile .expression verseFormula [] ⟨"r", ∅⟩).named "formula_r_f"

theorem evaluate_verse : evaluate verseScript 1000 = .ok "a\nb" := by
  have hscript : verseScript.script = _ := script_expression verseFormula [] ⟨"r", ∅⟩
  rw [preamble, List.map_append, libraryCharacters.2] at hscript
  refine (congrArg (fun script => evaluate { verseScript with script := script } 1000) hscript).trans ?_
  decide +kernel

theorem records_verse : verse.records Settings.default.formulaTimeout = [⟨"r", "f", "a\nb"⟩] := by
  have hrun : verse.records Settings.default.formulaTimeout = [⟨"r", "f", resultText (evaluate verseScript 1000)⟩] := rfl
  rw [hrun, evaluate_verse]
  rfl

/-- A place where every file holds the sheet. -/
def verseFiles : Surroundings where
  read _ := some verse.toJson.compact
  home := "/"
  now := .epoch
  fresh := ("a", "b")

theorem verse_fits : valueIn verseFiles Sheet.ofJson? "verse.json" = .ok verse ∧ verse.Distinct ∧
    ∀ id ∈ verse.rowIds ++ verse.columnIds, '\t' ∉ id.toList ∧ '\n' ∉ id.toList :=
  ⟨valueIn_sheet ⟨by decide, by decide⟩ rfl, ⟨by decide, by decide⟩, by decide⟩

/-- The second line of the text is a line of the report that is no record. -/
theorem eval_records_verse :
    (valueIn verseFiles Sheet.ofJson? "verse.json" = .ok verse ∧ verse.Distinct ∧
      ∀ id ∈ verse.rowIds ++ verse.columnIds, '\t' ∉ id.toList ∧ '\n' ∉ id.toList) ∧
    ∃ text line, (Command.eval "verse.json").run verseFiles .default = .ok (.print text) ∧
      splitAtFeeds text.toList = [line, ['b'], []] ∧ Record.read? line = some ⟨"r", "f", "a"⟩ ∧
      Record.read? ['b'] = none := by
  obtain ⟨hread, hs, hids⟩ := verse_fits
  obtain ⟨text, groups, hrun, hsplit, -, hgroups, -⟩ := eval_records .default hread hs hids
  rw [records_verse] at hgroups
  obtain ⟨lines, _, ⟨first, line, others, rfl, hline, htext⟩, ⟨⟩, rfl⟩ := List.forall₂_cons_left_iff.mp hgroups
  have hpieces : splitAtFeeds "a\nb".toList = [['a'], ['b']] := by decide
  obtain ⟨rfl, rfl⟩ := List.cons.inj (hpieces.symm.trans htext)
  exact ⟨⟨hread, hs, hids⟩, text, line, hrun, hsplit, hline, rfl⟩

/-- Lines and formula cells do not match one by one. -/
theorem eval_line_broken : ¬ ∀ (env : Surroundings) (settings : Settings) (path : String) (s : Sheet),
    valueIn env Sheet.ofJson? path = .ok s → s.Distinct →
    (∀ id ∈ s.rowIds ++ s.columnIds, '\t' ∉ id.toList ∧ '\n' ∉ id.toList) →
    ∃ text lines, (Command.eval path).run env settings = .ok (.print text) ∧
      splitAtFeeds text.toList = lines ++ [[]] ∧
      lines.map Record.read? = (s.records settings.formulaTimeout).map some := by
  intro h
  obtain ⟨hread, hs, hids⟩ := verse_fits
  obtain ⟨text, lines, hrun, hsplit, hlines⟩ := h verseFiles .default "verse.json" verse hread hs hids
  -- the report has two line feeds, and there is one record
  obtain rfl : report verse Settings.default.formulaTimeout = text := by
    rw [run_eval hread] at hrun
    exact Result.print.inj (Except.ok.inj hrun)
  have htwo : lines.length + 1 = 2 + 1 := by
    have hlength := congrArg List.length hsplit
    rw [toList_report hs, records_verse, length_splitAtFeeds, List.length_append] at hlength
    exact hlength.symm
  have hone : lines.length = 1 := by
    rw [records_verse] at hlines
    simpa using congrArg List.length hlines
  omega

end Program

end Worksheet
