import Worksheet.Proofs.Action.Check
import Worksheet.Proofs.Sheet.TagCache
/-!
# Renaming options

An update of options can put each of them under another name, in another order. The names are given all at once, so
options may swap them, and then the update that gives every name back its option undoes it.

* `naming`, `restoring`: the names of an update and of the one that undoes it;
* `Renames`: the options can be told apart, before and after;
* `restored_renamed`: a text comes back, unless it was taken for another one;
* **`reduce_rename_restore`**: a renaming and its undoing.
-/

namespace Worksheet.Sheet

/-! ## Names and what they were given for -/

section Names

variable {options order : List String} {f : String → String} {text : String}

/-- The names that a function gives to options. -/
def naming (options : List String) (f : String → String) : Dict String :=
  Dict.ofList (options.map fun option => (option, f option))

/-- The options for which a function gives names. -/
def restoring (options : List String) (f : String → String) : Dict String :=
  Dict.ofList (options.map fun option => (f option, option))

/-- What becomes of a text when the options get their names. -/
def renamed (options : List String) (f : String → String) (text : String) : String :=
  if text ∈ options then f text else text

/-- What becomes of a text when the names are given back. -/
def restored (options : List String) (f : String → String) (text : String) : String :=
  ((restoring options f).find? text).getD text

/-- The options are distinct texts that are not empty, and so are their names. -/
structure Renames (options : List String) (f : String → String) : Prop where
  nodup : options.Nodup
  ne_empty : "" ∉ options
  injective : ∀ a ∈ options, ∀ b ∈ options, f a = f b → a = b
  name_ne_empty : ∀ a ∈ options, f a ≠ ""

theorem find?_naming (options : List String) (f : String → String) (text : String) :
    (naming options f).find? text = if text ∈ options then some (f text) else none := by
  split_ifs with h
  · refine Dict.find?_ofList_of_agree (List.mem_map.mpr ⟨text, h, rfl⟩) fun e he heq => ?_
    obtain ⟨option, -, rfl⟩ := List.mem_map.mp he
    exact congrArg f heq
  · refine Dict.find?_ofList_eq_none fun e he heq => h ?_
    obtain ⟨option, hoption, rfl⟩ := List.mem_map.mp he
    exact heq ▸ hoption

theorem getD_naming (options : List String) (f : String → String) :
    (fun text => ((naming options f).find? text).getD text) = renamed options f := by
  funext text
  rw [find?_naming, renamed]
  split_ifs <;> rfl

theorem find?_restoring (h : Renames options f) (htext : text ∈ options) :
    (restoring options f).find? (f text) = some text := by
  refine Dict.find?_ofList_of_agree (List.mem_map.mpr ⟨text, htext, rfl⟩) fun e he heq => ?_
  obtain ⟨option, hoption, rfl⟩ := List.mem_map.mp he
  exact h.injective _ hoption _ htext heq

theorem find?_restoring_eq_none (htext : text ∉ options.map f) : (restoring options f).find? text = none := by
  refine Dict.find?_ofList_eq_none fun e he heq => htext ?_
  obtain ⟨option, hoption, rfl⟩ := List.mem_map.mp he
  exact List.mem_map.mpr ⟨option, hoption, heq⟩

/-- A text that is no option must not be one of the names: it would be taken for the option of that name. -/
theorem restored_renamed (h : Renames options f) (hclear : text ∉ options → text ∉ options.map f) :
    restored options f (renamed options f text) = text := by
  by_cases htext : text ∈ options
  · rw [renamed, if_pos htext, restored, find?_restoring h htext, Option.getD_some]
  · rw [renamed, if_neg htext, restored, find?_restoring_eq_none (hclear htext), Option.getD_none]

theorem updatedOptions_naming (h : Renames options f) (horder : order.Perm options) :
    updatedOptions order (naming options f) = order.map f := by
  have hmem : ∀ option ∈ order, option ∈ options := fun option => horder.mem_iff.mp
  have hnames : optionNames order (naming options f) = order.map f :=
    List.map_congr_left fun option hoption => by
      rw [find?_naming, if_pos (hmem option hoption), Option.getD_some]
  refine updatedOptions_of_not_mem hnames fun hblank => ?_
  obtain ⟨option, hoption, hempty⟩ := List.mem_map.mp hblank
  exact h.name_ne_empty option (hmem option hoption) hempty

theorem updatedOptions_restoring (h : Renames options f) :
    updatedOptions (options.map f) (restoring options f) = options := by
  have hnames : optionNames (options.map f) (restoring options f) = options := by
    rw [optionNames, List.map_map]
    refine (List.map_congr_left fun option hoption => ?_).trans options.map_id
    rw [Function.comp_apply, find?_restoring h hoption, Option.getD_some, id_eq]
  exact updatedOptions_of_not_mem hnames h.ne_empty

end Names

/-! ## A renaming and its undoing -/

section Undo

variable {s : Sheet} {c : Column} {options order : List String} {f g : String → String} {k k' : Column → Column}

theorem forall₂_retouch (s : Sheet) (id : String) (k : Column → Column) (g : String → String) :
    List.Forall₂ (fun r r' : Row => r'.id = r.id ∧ ∀ key, r'.value? key =
      if key = id then (r.value? key).map g else r.value? key) s.rows (s.retouch id k g).rows := by
  rw [retouch, changeValues, List.forall₂_map_right_iff]
  refine List.forall₂_same.mpr fun r _ => ⟨rfl, fun key => ?_⟩
  rw [Row.value?_change]
  simp only [eq_comm]

theorem change_eq_self {r : Row} {column : String} (h : ∀ text, r.value? column = some text → g text = text) :
    r.change column g = r := by
  refine Row.ext_value? rfl fun key => ?_
  rw [Row.value?_change]
  split_ifs with hkey
  · subst hkey
    cases htext : r.value? column with
    | none => rfl
    | some text => rw [Option.map_some, h text htext]
  · rfl

theorem retouch_eq_self (hs : s.columnIds.Nodup) (hc : c ∈ s.columns) (hk : k c = c)
    (hrows : ∀ r ∈ s.rows, ∀ text, r.value? c.id = some text → g text = text) : s.retouch c.id k g = s := by
  have hcolumns : changeFirst (·.id == c.id) k s.columns = s.columns := by
    rw [changeFirst_eq_map hs]
    refine (List.map_congr_left fun c' hc' => ?_).trans s.columns.map_id
    split_ifs with hid
    · rw [List.inj_on_of_nodup_map hs hc' hc hid, hk, id_eq]
    · rfl
  have hvalues : s.rows.map (·.change c.id g) = s.rows :=
    (List.map_congr_left fun r hr => change_eq_self (hrows r hr)).trans s.rows.map_id
  rw [retouch, changeValues, changeColumn, hcolumns, hvalues]

/-- Giving names and giving them back, as changes of a column and of the texts under its id. -/
theorem retouch_restored (hs : s.columnIds.Nodup) (hc : c ∈ s.columns) (hkind : c.kind = .enum options)
    (hclear : ∀ r ∈ s.rows, ∀ text, r.value? c.id = some text → restored options f (renamed options f text) = text)
    (new : List String) : (s.retouch c.id (withOptions new) (renamed options f)).retouch c.id (withOptions options)
      (restored options f) = s := by
  rw [retouch_retouch s (id_withOptions new)]
  refine retouch_eq_self hs hc ?_ hclear
  rw [Function.comp_apply, withOptions, ← hkind]
  rfl

/-- **Giving options other names and giving the names back.** An update that puts each option of a column under a name
of its own, in any order, gives the column these names as options and every cell of an option its name. All other
cells are left, and nothing else changes. When no cell holds one of the names without holding an option, the update
that gives the names back brings back every column and every row, and a correct tag cache. -/
theorem reduce_rename_restore (hs : s.columnIds.Nodup) (hc : c ∈ s.columns) (hkind : c.kind = .enum options)
    (hf : Renames options f) (horder : order.Perm options)
    (hclear : ∀ r ∈ s.rows, ∀ text, r.value? c.id = some text → text ∉ options → text ∉ options.map f)
    (now later : Stamp) :
    ∃ t, s.reduce (.editColumn c.id [.enumUpdate order (naming options f)]) now = .ok t ∧
      t.columns = s.columns.map (fun k => if k.id = c.id then { k with kind := .enum (order.map f) } else k) ∧
      List.Forall₂ (fun r r' : Row => r'.id = r.id ∧ ∀ key, r'.value? key =
        if key = c.id then (r.value? key).map (renamed options f) else r.value? key) s.rows t.rows ∧
      ∃ u, t.reduce (.editColumn c.id [.enumUpdate (options.map f) (restoring options f)]) later = .ok u ∧
        u = { s with updated := later, tagCache := u.tagCache } ∧
        (s.TagCacheCorrect → u.tagCache = s.tagCache) := by
  have hcolumn := column?_of_mem hs hc
  have hthere := reduce_edit hcolumn (edit_enumUpdate hcolumn hkind order (naming options f)) now
  rw [updatedOptions_naming hf horder, getD_naming] at hthere
  refine ⟨_, hthere, changeFirst_eq_map hs, forall₂_retouch s c.id _ _, ?_⟩
  set t : Sheet := { (s.retouch c.id (withOptions (order.map f)) (renamed options f)).refreshTags with updated := now }
  have hmiddle : t.column? c.id = some (withOptions (order.map f) c) :=
    column?_withOptions hcolumn (order.map f) (renamed options f)
  have hback := reduce_edit hmiddle (edit_enumUpdate hmiddle rfl (options.map f) (restoring options f)) later
  rw [updatedOptions_restoring hf] at hback
  have hself := retouch_restored hs hc hkind
    (fun r hr text htext => restored_renamed hf (hclear r hr text htext)) (order.map f)
  -- The tags in use and the stamp do not depend on those of the sheet between the updates.
  have hu : ({ (t.retouch c.id (withOptions options) (restored options f)).refreshTags with
      updated := later } : Sheet) = { s with updated := later, tagCache := s.tagsInUse } :=
    congrArg (fun u : Sheet => { u.refreshTags with updated := later }) hself
  refine ⟨_, hback.trans (congrArg Except.ok hu), rfl, fun hcache => ?_⟩
  exact ((tagCacheCorrect_iff hs).mp hcache).symm

/-- The name that the other of two options has. -/
def swapped (option : String) : String :=
  if option = "low" then "high" else "low"

/-- Two options swap their names. The cell of an option that is gone keeps its text. -/
theorem reduce_rename_restore_swap : Renames ["low", "high"] swapped ∧
    ∃ t, graded.reduce (.editColumn "g" [.enumUpdate ["high", "low"] (naming ["low", "high"] swapped)]) default =
        .ok t ∧
      t.columns = [⟨"g", "Grade", .enum ["low", "high"]⟩] ∧
      t.rows.map (·.value? "g") = [some "high", some "old"] ∧
      ∃ u, t.reduce (.editColumn "g" [.enumUpdate ["high", "low"] (restoring ["low", "high"] swapped)]) default =
          .ok u ∧
        u = { graded with tagCache := u.tagCache } ∧ u.tagCache = graded.tagCache := by
  have hf : Renames ["low", "high"] swapped := ⟨by decide, by decide, by decide, by decide⟩
  have hs : graded.columnIds.Nodup := by decide
  have htexts : ∀ r ∈ graded.rows, r.value? "g" = some "low" ∨ r.value? "g" = some "old" := by decide
  have hclear : ∀ r ∈ graded.rows, ∀ text, r.value? "g" = some text → text ∉ ["low", "high"] →
      text ∉ ["low", "high"].map swapped := by
    intro r hr text htext hout
    rcases htexts r hr with h | h <;> obtain rfl := Option.some.inj (h.symm.trans htext)
    · exact absurd List.mem_cons_self hout
    · decide
  obtain ⟨t, ht, hcolumns, hrows, u, hu, hself, hcache⟩ :=
    reduce_rename_restore (c := ⟨"g", "Grade", .enum ["low", "high"]⟩) hs List.mem_cons_self rfl hf
      (List.Perm.swap "low" "high" []) hclear default default
  refine ⟨hf, t, ht, hcolumns, ?_, u, hu, hself, hcache ((tagCacheCorrect_iff hs).mpr (by decide))⟩
  obtain ⟨r, rest, ⟨-, hr⟩, hrest, hrows⟩ := List.forall₂_cons_left_iff.mp hrows
  obtain ⟨q, rest, ⟨-, hq⟩, hnil, rfl⟩ := List.forall₂_cons_left_iff.mp hrest
  obtain rfl := List.forall₂_nil_left_iff.mp hnil
  rw [hrows, List.map_cons, List.map_cons, hr, hq]
  decide

end Undo

end Worksheet.Sheet
