import Worksheet.Proofs.Json.Reordered
import Worksheet.Proofs.Stamp.Notation
import Worksheet.Sheet.Json
/-!
# Sheets read back

A sheet is read back from its text in both layouts, also when the members of objects stand in another order.

* `Column.recovers`, `Row.recovers`, `Sheet.recovers`: each record from its parts;
* `Sheet.plain_toJson`: sheets are written with texts, arrays and objects alone;
* **`Sheet.read?_sheet_reordered`**: the whole way through the text.
-/

namespace Worksheet

open Json

/-! ## Parts of a sheet -/

theorem FormulaMode.recovers (m : FormulaMode) : Recovers FormulaMode.ofJson? m.toJson m := by
  rintro _ ⟨⟩
  cases m <;> rfl

theorem Stamp.recovers {s : Stamp} (hfirst : 0 ≤ s.day.year) (hlast : s.day.year ≤ 9999) :
    Recovers Stamp.ofJson? s.toJson s := by
  intro k hk
  have htext : k.text? = some s.text := recovers_text s.text k hk
  rw [Stamp.ofJson?, htext, Option.bind_some, Stamp.read?_text hfirst hlast]

theorem Row.recovers (r : Row) : Recovers Row.ofJson? r.toJson r := by
  intro k hk
  have hfields : r.toJson.record? ["id", "values"] = some [some (text r.id), some (ofDict text r.values)] := rfl
  obtain ⟨_, hrecord, _ | ⟨hid, _ | ⟨hvalues, ⟨⟩⟩⟩⟩ := record?_reordered _ hk hfields
  simp [Row.ofJson?, hrecord, (recovers_text r.id).required hid,
    (recovers_textDict r.values).orElse ∅ hvalues]

/-! ## Columns -/

theorem ColumnKind.plain_members (kind : ColumnKind) (depth : Nat) : ∀ m ∈ kind.members, m.2.Plain (depth + 1) := by
  cases kind with
  | enum options => simp [ColumnKind.members, plain_texts]
  | formula source mode => simp [ColumnKind.members, FormulaMode.toJson]
  | _ => simp [ColumnKind.members]

theorem Column.plain_toJson (c : Column) (depth : Nat) : c.toJson.Plain (depth + 2) := by
  rw [Column.toJson, plain_object, List.forall_mem_cons, List.forall_mem_cons]
  exact ⟨plain_text _ _, plain_text _ _, c.kind.plain_members depth⟩

theorem ColumnType.recovers (t : ColumnType) :
    Recovers (tagAmong? (ColumnType.all.map ColumnType.name) true) (Json.text t.name) t.name := by
  intro k hk
  cases hk
  cases t <;> decide

theorem ColumnKind.ofFields?_reordered {c : Column} {k : Json} (hk : Reordered c.toJson k) :
    ofFields? c.type k = some c.kind := by
  obtain ⟨id, title, kind⟩ := c
  cases kind with
  | enum options =>
    have hfields : (Column.toJson ⟨id, title, .enum options⟩).record? ["options"] =
        some [some (ofList Json.text options)] := rfl
    obtain ⟨_, hrecord, _ | ⟨hoptions, ⟨⟩⟩⟩ := record?_reordered _ hk hfields
    simp [Column.type, ColumnKind.type, ofFields?, hrecord, (recovers_texts options).orElse [] hoptions]
  | formula source mode =>
    have hfields : (Column.toJson ⟨id, title, .formula source mode⟩).record? ["formula", "formulaType"] =
        some [some (Json.text source), some mode.toJson] := rfl
    obtain ⟨_, hrecord, _ | ⟨hsource, _ | ⟨hmode, ⟨⟩⟩⟩⟩ := record?_reordered _ hk hfields
    simp [Column.type, ColumnKind.type, ofFields?, hrecord, (recovers_text source).orElse "" hsource,
      mode.recovers.orElse .expression hmode]
  | _ => rfl

theorem Column.recovers (c : Column) : Recovers Column.ofJson? c.toJson c := by
  intro k hk
  have hkind := ColumnKind.ofFields?_reordered hk
  obtain ⟨middle, members, rfl, -⟩ := members_of_reordered hk
  have hsound : (object members).isSound = true := (hk.plain (c.plain_toJson 0)).isSound
  have hfields : c.toJson.record? ["id", "title", "type"] =
      some [some (text c.id), some (text c.title), some (text c.type.name)] := by
    obtain ⟨id, title, kind⟩ := c
    cases kind <;> rfl
  obtain ⟨_, hrecord, _ | ⟨hid, _ | ⟨htitle, _ | ⟨htype, ⟨⟩⟩⟩⟩⟩ := record?_reordered _ hk hfields
  have hname : ColumnType.ofName? c.type.name = some c.type := ColumnType.ofName?_eq_some.mpr rfl
  simp [Column.ofJson?, hsound, hrecord, (recovers_text c.id).required hid, (recovers_text c.title).required htitle,
    c.type.recovers.required htype, hname, hkind]

/-! ## Sheets -/

namespace Sheet

theorem plain_tagCache (cache : TagCache) (depth : Nat) : (tagCacheJson cache).Plain (depth + 2) :=
  plain_ofDict fun e _ => plain_texts e.2.keys depth

theorem plain_toJson (s : Sheet) (depth : Nat) : s.toJson.Plain (depth + 4) := by
  have hcolumns : (ofList Column.toJson s.columns).Plain (depth + 3) := plain_ofList fun c _ => c.plain_toJson depth
  have hrows : (ofList Row.toJson s.rows).Plain (depth + 3) := plain_ofList fun r _ => by
    simp [Row.toJson, plain_object, plain_textDict]
  simp [toJson, plain_object, Stamp.toJson, hcolumns, hrows, plain_tagCache s.tagCache (depth + 1)]

/-- The stamps of the sheet are of years that are written without a sign. -/
def StampsInRange (s : Sheet) : Prop :=
  (0 ≤ s.created.day.year ∧ s.created.day.year ≤ 9999) ∧ 0 ≤ s.updated.day.year ∧ s.updated.day.year ≤ 9999

theorem recovers {s : Sheet} (hs : s.StampsInRange) : Recovers ofJson? s.toJson s := by
  intro k hk
  obtain ⟨hcreated, hupdated⟩ := hs
  have hfields : s.toJson.record? fieldNames = some [some (text s.id), some (text s.name), some s.created.toJson,
      some s.updated.toJson, some (ofList Column.toJson s.columns), some (ofList Row.toJson s.rows),
      some (tagCacheJson s.tagCache)] := rfl
  obtain ⟨_, hrecord, _ | ⟨hid, _ | ⟨hname, _ | ⟨hbegun, _ | ⟨hlast, _ | ⟨hcolumns, _ | ⟨hrows, _ | ⟨hcache, ⟨⟩⟩⟩⟩⟩⟩⟩⟩⟩ :=
    record?_reordered _ hk hfields
  have hcolumns := (recovers_list fun c _ => Column.recovers c).orElse [] hcolumns
  have hrows := (recovers_list fun r _ => Row.recovers r).orElse [] hrows
  have hcache := (recovers_dict fun e _ => recovers_textSet e.2).orElse ∅ hcache
  simp [ofJson?, hrecord, (recovers_text s.id).required hid, (recovers_text s.name).required hname,
    (Stamp.recovers hcreated.1 hcreated.2).required hbegun, (Stamp.recovers hupdated.1 hupdated.2).required hlast,
    hcolumns, hrows, hcache]

/-- **A sheet is read back from its text, on one line or indented, whatever the order in which the members of each
object are written.** -/
theorem read?_sheet_reordered (s : Sheet) (hs : s.StampsInRange) {j : Json} (hj : Reordered s.toJson j) :
    (Json.read? j.compact).bind ofJson? = some s ∧ (Json.read? j.pretty).bind ofJson? = some s := by
  have hread : ∀ l, (Json.read? (j.print l)).bind ofJson? = some s := by
    intro l
    rw [read?_print l (hj.plain (s.plain_toJson 123)), Option.bind_some, recovers hs j hj]
  exact ⟨hread .compact, hread .pretty⟩

/-- A sheet that was changed in a leap second. -/
def leapSheet : Sheet where
  id := "s-1"
  name := "Größen \"A\"\n"
  created := Stamp.epoch
  updated := ⟨⟨2016, 12, 31⟩, 23, 59, 60, 123456000, by decide⟩
  columns := [⟨"c1", "Status", .enum ["open", "done"]⟩, ⟨"c2", "Sum", .formula "1 + 1" .module⟩]
  rows := [⟨"r1", Dict.ofList [("c2", "\t"), ("c1", "open")]⟩]
  tagCache := Dict.ofList [("c3", Dict.ofList [("b", ()), ("a", ())])]

theorem read?_leapSheet : leapSheet.StampsInRange ∧ ∃ members, leapSheet.toJson = object members ∧
    (Json.read? (object members.reverse).compact).bind ofJson? = some leapSheet ∧
    (Json.read? (object members.reverse).pretty).bind ofJson? = some leapSheet :=
  have hs : leapSheet.StampsInRange := ⟨by decide, by decide⟩
  ⟨hs, _, rfl, read?_sheet_reordered leapSheet hs (reordered_reverse _)⟩

end Sheet

end Worksheet
