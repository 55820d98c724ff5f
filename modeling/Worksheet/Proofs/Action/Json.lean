import Worksheet.Action.Json
import Worksheet.Proofs.Sheet.Json
/-!
# Actions read back

An action is read back from its text, also when the members of objects stand in another order: the fields before the
name of the action, the name of an edit after its fields. The text does not depend on how a dictionary was built.

* `Action.Fits`: positions are integers of 64 bits;
* `Action.Agrees`: equal but for their dictionaries, which have the same lookups;
* `ColumnEdit.recovers`, `Action.recovers`: edits and actions from their parts;
* **`Action.read?_action_reordered`**: the whole way through the text.
-/

namespace Worksheet

open Json

/-! ## Edits -/

namespace ColumnEdit

/-- The position fits into 64 bits. -/
def Fits : ColumnEdit → Prop
  | reorder index => Word.fits index = true
  | _ => True

/-- The name under which an edit is known outside. -/
def name : ColumnEdit → String
  | rename _ => "rename"
  | changeType _ => "change_type"
  | enumUpdate _ _ => "enum_update"
  | reorder _ => "reorder"
  | tagRename _ => "tag_rename"
  | formula _ _ => "formula"

/-- The same edits, if dictionaries count by their lookups. -/
def Agrees : ColumnEdit → ColumnEdit → Prop
  | enumUpdate order names, enumUpdate order' names' => order = order' ∧ ∀ k, names.find? k = names'.find? k
  | tagRename names, tagRename names' => ∀ k, names.find? k = names'.find? k
  | e, e' => e = e'

theorem Agrees.eq {e e' : ColumnEdit} (h : e.Agrees e') : e = e' := by
  unfold Agrees at h
  split at h
  · rw [h.1, Dict.ext_find? h.2]
  · rw [Dict.ext_find? h]
  · exact h

variable {e : ColumnEdit}

theorem plain_toJson (he : e.Fits) (depth : Nat) : e.toJson.Plain (depth + 2) := by
  cases e with
  | enumUpdate order names => simp [toJson, plain_object, plain_texts, plain_textDict]
  | reorder index => simp [toJson, plain_object, plain_integer he]
  | tagRename names => simp [toJson, plain_object, plain_textDict]
  | formula source mode => simp [toJson, plain_object, FormulaMode.toJson]
  | _ => simp [toJson, plain_object]

theorem recovers_int64 {n : Int} (hn : Word.fits n = true) : Recovers int64? (integer n) n := by
  rintro _ ⟨⟩
  rw [int64?, if_pos hn]

theorem ofFields?_filter_ne (name : String) (members : List (String × Json)) :
    ofFields? name (object (members.filter (·.1 != "editType"))) = ofFields? name (object members) := by
  unfold ofFields?
  split
  all_goals first
    | rw [record?_filter_ne (by decide)]
    | rfl

theorem ofFields?_reordered (he : e.Fits) {k : Json} (hk : Reordered e.toJson k) : ofFields? e.name k = some e := by
  cases e with
  | rename title =>
    have hfields : (toJson (rename title)).record? ["title"] = some [some (text title)] := rfl
    obtain ⟨_, hrecord, _ | ⟨htitle, ⟨⟩⟩⟩ := record?_reordered _ hk hfields
    simp [ofFields?, name, hrecord, (recovers_text title).required htitle]
  | changeType type =>
    have hfields : (toJson (changeType type)).record? ["toType"] = some [some (text type)] := rfl
    obtain ⟨_, hrecord, _ | ⟨htype, ⟨⟩⟩⟩ := record?_reordered _ hk hfields
    simp [ofFields?, name, hrecord, (recovers_text type).required htype]
  | enumUpdate order names =>
    have hfields : (toJson (enumUpdate order names)).record? ["idOrder", "idToNames"] =
        some [some (ofList text order), some (ofDict text names)] := rfl
    obtain ⟨_, hrecord, _ | ⟨horder, _ | ⟨hnames, ⟨⟩⟩⟩⟩ := record?_reordered _ hk hfields
    simp [ofFields?, name, hrecord, (recovers_texts order).required horder, (recovers_textDict names).required hnames]
  | reorder index =>
    have hfields : (toJson (reorder index)).record? ["toIndex"] = some [some (integer index)] := rfl
    obtain ⟨_, hrecord, _ | ⟨hindex, ⟨⟩⟩⟩ := record?_reordered _ hk hfields
    simp [ofFields?, name, hrecord, (recovers_int64 he).required hindex]
  | tagRename names =>
    have hfields : (toJson (tagRename names)).record? ["tagMap"] = some [some (ofDict text names)] := rfl
    obtain ⟨_, hrecord, _ | ⟨hnames, ⟨⟩⟩⟩ := record?_reordered _ hk hfields
    simp [ofFields?, name, hrecord, (recovers_textDict names).required hnames]
  | formula source mode =>
    have hfields : (toJson (formula source mode)).record? ["formula", "formulaType"] =
        some [some (text source), some mode.toJson] := rfl
    obtain ⟨_, hrecord, _ | ⟨hsource, _ | ⟨hmode, ⟨⟩⟩⟩⟩ := record?_reordered _ hk hfields
    simp [ofFields?, name, hrecord, (recovers_text source).required hsource, mode.recovers.orElse .expression hmode]

theorem tagAmong?_name (e : ColumnEdit) (byPosition : Bool) : tagAmong? names byPosition (text e.name) = some e.name := by
  cases e <;> rfl

theorem recovers (he : e.Fits) (byPosition : Bool) : Recovers (ofJson? byPosition) e.toJson e := by
  intro k hk
  have hsound := (hk.plain (plain_toJson he 0)).isSound
  have hfields := ofFields?_reordered he hk
  obtain ⟨members', hmembers', htag⟩ : ∃ members', k = object members' ∧
      k.tagged? "editType" = some (text e.name, object (members'.filter (·.1 != "editType"))) := by
    cases e <;> exact tagged?_reordered hk rfl
  rw [hmembers'] at hfields
  simp [ofJson?, hsound, htag, tagAmong?_name, ofFields?_filter_ne, hfields]

end ColumnEdit

/-! ## Actions -/

namespace Action

/-- Every position in an edit fits into 64 bits. -/
def Fits : Action → Prop
  | editColumn _ edits => ∀ e ∈ edits, e.Fits
  | _ => True

/-- The same actions, if dictionaries count by their lookups. -/
def Agrees : Action → Action → Prop
  | editColumn column edits, editColumn column' edits' =>
    column = column' ∧ List.Forall₂ ColumnEdit.Agrees edits edits'
  | a, a' => a = a'

theorem Agrees.eq {a b : Action} (h : a.Agrees b) : a = b := by
  unfold Agrees at h
  split at h
  · obtain ⟨rfl, hedits⟩ := h
    have heq := hedits.imp fun _ _ => ColumnEdit.Agrees.eq
    rw [List.forall₂_eq_eq_eq] at heq
    rw [heq]
  · exact h

variable {a : Action}

theorem plain_params (ha : a.Fits) (depth : Nat) : a.params.Plain (depth + 4) := by
  cases a with
  | editColumn column edits =>
    have hedits : (ofList ColumnEdit.toJson edits).Plain (depth + 3) :=
      plain_ofList fun e he => ColumnEdit.plain_toJson (ha e he) depth
    simp [params, plain_object, hedits]
  | _ => simp [params, plain_object]

theorem plain_toJson (ha : a.Fits) (depth : Nat) : a.toJson.Plain (depth + 5) := by
  simp [toJson, plain_object, plain_params ha]

theorem ofParams?_reordered (ha : a.Fits) (byPosition : Bool) {k : Json} (hk : Reordered a.params k) :
    ofParams? byPosition a.name k = some a := by
  obtain ⟨members, rfl⟩ : ∃ members, k = object members := by
    cases a
    all_goals
      obtain ⟨_, members, hmembers, -⟩ := members_of_reordered hk
      exact ⟨members, hmembers⟩
  cases a with
  | updateCell row column value =>
    have hfields : (params (updateCell row column value)).record? ["rowId", "columnId", "value"] =
        some [some (text row), some (text column), some (text value)] := rfl
    obtain ⟨_, hrecord, _ | ⟨hrow, _ | ⟨hcolumn, _ | ⟨hvalue, ⟨⟩⟩⟩⟩⟩ := record?_reordered _ hk hfields
    simp [ofParams?, name, hrecord, (recovers_text row).required hrow, (recovers_text column).required hcolumn,
      (recovers_text value).required hvalue]
  | addRow row =>
    have hfields : (params (addRow row)).record? ["rowId"] = some [some (text row)] := rfl
    obtain ⟨_, hrecord, _ | ⟨hrow, ⟨⟩⟩⟩ := record?_reordered _ hk hfields
    simp [ofParams?, name, hrecord, (recovers_text row).required hrow]
  | deleteRow row =>
    have hfields : (params (deleteRow row)).record? ["rowId"] = some [some (text row)] := rfl
    obtain ⟨_, hrecord, _ | ⟨hrow, ⟨⟩⟩⟩ := record?_reordered _ hk hfields
    simp [ofParams?, name, hrecord, (recovers_text row).required hrow]
  | addColumn column title type =>
    have hfields : (params (addColumn column title type)).record? ["columnId", "title", "type"] =
        some [some (text column), some (text title), some (text type)] := rfl
    obtain ⟨_, hrecord, _ | ⟨hcolumn, _ | ⟨htitle, _ | ⟨htype, ⟨⟩⟩⟩⟩⟩ := record?_reordered _ hk hfields
    simp [ofParams?, name, hrecord, (recovers_text column).required hcolumn, (recovers_text title).required htitle,
      (recovers_text type).required htype]
  | deleteColumn column =>
    have hfields : (params (deleteColumn column)).record? ["columnId"] = some [some (text column)] := rfl
    obtain ⟨_, hrecord, _ | ⟨hcolumn, ⟨⟩⟩⟩ := record?_reordered _ hk hfields
    simp [ofParams?, name, hrecord, (recovers_text column).required hcolumn]
  | editColumn column edits =>
    have hfields : (params (editColumn column edits)).record? ["columnId", "actions"] =
        some [some (text column), some (ofList ColumnEdit.toJson edits)] := rfl
    obtain ⟨_, hrecord, _ | ⟨hcolumn, _ | ⟨hedits, ⟨⟩⟩⟩⟩ := record?_reordered _ hk hfields
    have hedits := (recovers_list fun e he => ColumnEdit.recovers (ha e he) byPosition).required hedits
    simp [ofParams?, name, hrecord, (recovers_text column).required hcolumn, hedits]

theorem recovers (ha : a.Fits) : Recovers ofJson? a.toJson a := by
  intro k hk
  obtain ⟨middle, members, rfl, hmiddle, hplaces⟩ := members_of_reordered hk
  have haction : member? [("action", text a.name), ("params", a.params)] "action" = some (some (text a.name)) := rfl
  have hparams : member? [("action", text a.name), ("params", a.params)] "params" = some (some a.params) := rfl
  obtain ⟨_, haction, ⟨htext⟩⟩ := member?_reordered hmiddle hplaces haction
  obtain ⟨_, hparams, ⟨hfields⟩⟩ := member?_reordered hmiddle hplaces hparams
  cases htext
  have hsound := (hfields.plain (plain_params ha 0)).isSound
  have hread := fun byPosition => ofParams?_reordered ha byPosition hfields
  simp [ofJson?, haction, hparams, bareName?, hsound, hread]

/-- **An action is read back from its text, whatever the order in which the members of each object are written**, and
equal actions have the same text. -/
theorem read?_action_reordered (a : Action) (ha : a.Fits) :
    (∀ j, Reordered a.toJson j → ∀ l, (Json.read? (j.print l)).bind ofJson? = some a) ∧
      ∀ b, a.Agrees b → ∀ l, b.toJson.print l = a.toJson.print l := by
  refine ⟨fun j hj l => ?_, fun b hb l => by rw [hb.eq]⟩
  rw [read?_print l (hj.plain (plain_toJson ha 122)), Option.bind_some, recovers ha j hj]

/-- A batch that names options, moves the column as far as it goes and makes a formula of it. -/
def sampleBatch (names : Dict String) : Action :=
  editColumn "c" [.enumUpdate ["b", "a"] names, .reorder (-9223372036854775808), .changeType "formula",
    .formula "1 +\n\"2\"" .module]

theorem read?_sampleBatch :
    let names := Dict.ofList [("b", "B"), ("a", "A")]
    let names' := Dict.ofList [("a", "A"), ("b", "B")]
    (sampleBatch names).Fits ∧
      (Json.read? (object [("params", (sampleBatch names).params), ("action", text "update_column_batched")]).compact).bind
        ofJson? = some (sampleBatch names) ∧
      (sampleBatch names').toJson.compact = (sampleBatch names).toJson.compact := by
  have hindex : Word.fits (-9223372036854775808) = true := by decide
  have hfits : (sampleBatch (Dict.ofList [("b", "B"), ("a", "A")])).Fits := by
    simp only [sampleBatch, Fits, List.forall_mem_cons]
    exact ⟨trivial, hindex, trivial, trivial, nofun⟩
  have hagrees : (sampleBatch (Dict.ofList [("b", "B"), ("a", "A")])).Agrees
      (sampleBatch (Dict.ofList [("a", "A"), ("b", "B")])) := by
    have hnames : Dict.ofList [("b", "B"), ("a", "A")] = Dict.ofList [("a", "A"), ("b", "B")] := by decide
    exact ⟨rfl, .cons ⟨rfl, fun k => by rw [hnames]⟩ (.cons rfl (.cons rfl (.cons rfl .nil)))⟩
  have hread := read?_action_reordered _ hfits
  exact ⟨hfits, hread.1 _ (reordered_reverse _) .compact, hread.2 _ hagrees .compact⟩

end Action

end Worksheet
