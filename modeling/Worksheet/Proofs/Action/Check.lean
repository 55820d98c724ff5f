import Worksheet.Action.Check
import Worksheet.Proofs.Sheet.EditOrder
/-!
# What the checks before an action foresee

The check of an update of options looks at the names one after the other, and applying the update leaves names out.
They agree on what is wrong.

* `checkNames_eq`: what the check of names tells;
* `optionNames`, `updatedOptions_eq`: the names of the options in their new order, and those that are kept;
* **`check_enumUpdate`**: the check accepts an update if and only if it leaves no option out and repeats none.
-/

namespace Worksheet

/-! ## Names -/

section Names

variable {names : List String}

theorem hasRepeated_iff : hasRepeated names = true ↔ ¬names.Nodup := by
  induction names with
  | nil => simp [hasRepeated]
  | cons name names ih =>
    rw [hasRepeated, Bool.or_eq_true, ih, List.contains_iff_mem, List.nodup_cons, not_and_or, not_not]

/-- A repetition is told first, and then an empty name. -/
theorem checkNames_eq (names : List String) : checkNames names =
    if names.Nodup then if "" ∈ names then .error (.invalidOptions .blank) else .ok ()
    else .error (.invalidOptions .repeated) := by
  by_cases hnodup : names.Nodup
  · have hrepeated : hasRepeated names = false := by
      rw [← Bool.not_eq_true, hasRepeated_iff, not_not]
      exact hnodup
    rw [checkNames, hrepeated, if_pos hnodup]
    simp only [Bool.false_eq_true, if_false, List.contains_iff_mem]
  · rw [checkNames, if_pos (hasRepeated_iff.mpr hnodup), if_neg hnodup]

theorem checkNames_ok : checkNames names = .ok () ↔ names.Nodup ∧ "" ∉ names := by
  rw [checkNames_eq]
  split_ifs with hnodup hblank
  · exact iff_of_false nofun fun h => h.2 hblank
  · exact iff_of_true rfl ⟨hnodup, hblank⟩
  · exact iff_of_false nofun fun h => hnodup h.1

end Names

/-! ## Updates of options -/

/-- The names of the options in their new order. An id without a name counts as one whose name is empty. -/
def optionNames (order : List String) (names : Dict String) : List String :=
  order.map fun id => (names.find? id).getD ""

namespace Sheet

variable {s : Sheet} {id : String} {c : Column} {old : List String}

/-- Two ways to leave names out: the missing ones first and then the empty ones, or both of them at once. -/
theorem updatedOptions_eq (order : List String) (names : Dict String) :
    updatedOptions order names = (optionNames order names).filter (· != "") := by
  induction order with
  | nil => rfl
  | cons id order ih =>
    rw [updatedOptions, optionNames] at ih ⊢
    cases hname : names.find? id with
    | none => simpa [hname] using ih
    | some name => simp [hname, List.filter_cons, ih]

theorem updatedOptions_of_not_mem {order new : List String} {names : Dict String}
    (hnames : optionNames order names = new) (hblank : "" ∉ new) : updatedOptions order names = new := by
  rw [updatedOptions_eq, hnames, List.filter_eq_self]
  exact fun name hname => bne_iff_ne.mpr (ne_of_mem_of_not_mem hname hblank)

theorem length_updatedOptions (order : List String) (names : Dict String) :
    (updatedOptions order names).length = order.length ↔ "" ∉ optionNames order names := by
  have hlength : order.length = (optionNames order names).length := by rw [optionNames, List.length_map]
  rw [updatedOptions_eq, hlength, List.length_filter_eq_length_iff]
  simp only [bne_iff_ne]
  exact ⟨fun h hmem => h _ hmem rfl, fun h name hname heq => h (heq ▸ hname)⟩

/-- The column with options of its own. -/
def withOptions (options : List String) (c : Column) : Column :=
  { c with kind := .enum options }

theorem id_withOptions (options : List String) (c : Column) : (withOptions options c).id = c.id := rfl

theorem column?_withOptions (hc : s.column? id = some c) (options : List String) (g : String → String) :
    (s.retouch id (withOptions options) g).column? id = some (withOptions options c) := by
  rw [column?_retouch (id_withOptions options), hc, Option.map_some]

theorem edit_enumUpdate (hc : s.column? id = some c) (hkind : c.kind = .enum old) (order : List String)
    (names : Dict String) : s.edit id (.enumUpdate order names) = .ok (s.retouch id
      (withOptions (updatedOptions order names)) fun text => (names.find? text).getD text) := by
  have hcolumn : s.column id = .ok c := by rw [column, hc]
  simp only [edit, updateOptions, hcolumn, bind, Except.bind, hkind]
  rfl

theorem reduce_enumUpdate (hc : s.column? id = some c) (hkind : c.kind = .enum old) (order : List String)
    (names : Dict String) (now : Stamp) :
    ∃ t, s.reduce (.editColumn id [.enumUpdate order names]) now = .ok t ∧
      t.column? id = some (withOptions (updatedOptions order names) c) :=
  ⟨_, reduce_edit hc (edit_enumUpdate hc hkind order names) now,
    column?_withOptions hc _ fun text => (names.find? text).getD text⟩

/-- **The check foresees what an update makes of the options.** The update is made on every enum column, whether or not
the check accepts it. The check accepts it if and only if the column then has as many options as the update gives ids,
and no option twice. Otherwise the reason is the repetition exactly when the names hold one, those that are missing
read as empty, and an empty name if not. -/
theorem check_enumUpdate (hc : s.column? id = some c) (hkind : c.kind = .enum old) (order : List String)
    (names : Dict String) (now : Stamp) :
    (∃ t options, s.reduce (.editColumn id [.enumUpdate order names]) now = .ok t ∧
      t.column? id = some { c with kind := .enum options } ∧
      ((ColumnEdit.enumUpdate order names).check = .ok () ↔ options.length = order.length ∧ options.Nodup)) ∧
    ∀ e, (ColumnEdit.enumUpdate order names).check = .error e →
      e = .invalidOptions (if (optionNames order names).Nodup then .blank else .repeated) := by
  have hcheck : (ColumnEdit.enumUpdate order names).check = checkNames (optionNames order names) := rfl
  constructor
  · obtain ⟨t, ht, hoptions⟩ := reduce_enumUpdate hc hkind order names now
    refine ⟨t, _, ht, hoptions, ?_⟩
    rw [hcheck, checkNames_ok, length_updatedOptions, and_comm]
    refine and_congr_right fun hblank => ?_
    rw [updatedOptions_of_not_mem rfl hblank]
  · intro e he
    rw [hcheck, checkNames_eq] at he
    split_ifs at he with hnodup hblank
    · cases he
      rw [if_pos hnodup]
    · cases he
      rw [if_neg hnodup]

/-- A sheet with an enum column. -/
def graded : Sheet :=
  { new "s" "Grades" default with
    columns := [⟨"g", "Grade", .enum ["low", "high"]⟩]
    rows := [⟨"r", Dict.ofList [("g", "low")]⟩, ⟨"q", Dict.ofList [("g", "old")]⟩] }

/-- Two ids without a name are a repetition, although applying the update leaves both of them out. -/
theorem check_enumUpdate_missing : graded.column? "g" = some ⟨"g", "Grade", .enum ["low", "high"]⟩ ∧
    (∃ t options, graded.reduce (.editColumn "g" [.enumUpdate ["low", "a", "b"] (Dict.ofList [("low", "1")])]) default =
      .ok t ∧ t.column? "g" = some ⟨"g", "Grade", .enum options⟩ ∧ ¬(options.length = 3 ∧ options.Nodup)) ∧
    (ColumnEdit.enumUpdate ["low", "a", "b"] (Dict.ofList [("low", "1")])).check =
      .error (.invalidOptions .repeated) := by
  have hc : graded.column? "g" = some ⟨"g", "Grade", .enum ["low", "high"]⟩ := rfl
  obtain ⟨⟨t, options, ht, hoptions, hiff⟩, hreason⟩ :=
    check_enumUpdate hc rfl ["low", "a", "b"] (Dict.ofList [("low", "1")]) default
  have hrejected : (ColumnEdit.enumUpdate ["low", "a", "b"] (Dict.ofList [("low", "1")])).check ≠ .ok () := by decide
  refine ⟨hc, ⟨t, options, ht, hoptions, fun h => hrejected (hiff.mpr h)⟩, ?_⟩
  cases hcheck : (ColumnEdit.enumUpdate ["low", "a", "b"] (Dict.ofList [("low", "1")])).check with
  | ok u => exact absurd hcheck hrejected
  | error e =>
    have hrepeated : ¬(optionNames ["low", "a", "b"] (Dict.ofList [("low", "1")])).Nodup := by decide
    rw [hreason e hcheck, if_neg hrepeated]

end Sheet

end Worksheet
