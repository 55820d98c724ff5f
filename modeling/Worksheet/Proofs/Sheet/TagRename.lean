import Worksheet.Action.Check
import Worksheet.Proofs.Sheet.EditOrder
import Worksheet.Proofs.Sheet.Tags
/-!
# Renaming tags

Tags under a column can be renamed. The names are given all at once, so tags may swap them, fall together or go. What
is stored is a text, and it reads as the renamed tags as long as every name is a tag or nothing.

* `mem_tagsUnder_renamed`: the tags in use afterwards;
* **`reduce_tagRename`**: what becomes of the rows and of the tag cache;
* `reduce_tagRename_unfit`: names that are no tags, and a tag cache that was wrong.
-/

namespace Worksheet.Sheet

variable {s : Sheet} {c : Column} {id name : String} {names : Dict String}

/-- Every tag under the id of a column gets a name that is a tag, or none. -/
def NamesFit (s : Sheet) (id : String) (names : Dict String) : Prop :=
  ∀ tag ∈ tagsUnder s.rows id, ∀ name ∈ names.find? tag, name = "" ∨ Tags.IsTag name

instance (s : Sheet) (id : String) (names : Dict String) : Decidable (s.NamesFit id names) :=
  inferInstanceAs (Decidable (∀ tag ∈ tagsUnder s.rows id, ∀ name ∈ names.find? tag, name = "" ∨ Tags.IsTag name))

/-- A tag that gets no name is still a tag. -/
theorem NamesFit.isTag_image (h : s.NamesFit id names) {r : Row} (hr : r ∈ s.rows) {text : String}
    (htext : r.value? id = some text) : ∀ tag ∈ Tags.parse text, Tags.image names tag ≠ "" →
      Tags.IsTag (Tags.image names tag) := by
  intro tag htag hne
  rw [Tags.image] at hne ⊢
  cases hname : names.find? tag with
  | none => exact Tags.isTag_of_mem_parse htag
  | some name =>
    rw [hname, Option.getD_some] at hne
    exact (h tag (mem_tagsUnder.mpr ⟨r, hr, text, htext, htag⟩) name hname).resolve_left hne

theorem edit_tagRename (hc : s.column? id = some c) (htags : c.isTags = true) (names : Dict String) :
    s.edit id (.tagRename names) = .ok (s.changeValues id (Tags.replace names)) := by
  have hcolumn : s.column id = .ok c := by rw [column, hc]
  simp only [edit, renameTags, hcolumn, bind, Except.bind, if_pos htags]

/-- The tags in use afterwards are the names of those in use before. -/
theorem mem_tagsUnder_renamed (h : s.NamesFit id names) :
    name ∈ tagsUnder (s.changeValues id (Tags.replace names)).rows id ↔
      name ≠ "" ∧ ∃ tag ∈ tagsUnder s.rows id, Tags.image names tag = name := by
  simp only [mem_tagsUnder, changeValues, List.mem_map]
  constructor
  · rintro ⟨-, ⟨r, hr, rfl⟩, new, hnew, hname⟩
    rw [Row.value?_change, if_pos rfl] at hnew
    obtain ⟨text, htext, rfl⟩ := Option.map_eq_some_iff.mp hnew
    rw [Tags.parse_replace (h.isTag_image hr htext), Tags.mem_distinct, List.mem_map] at hname
    obtain ⟨⟨tag, htag, rfl⟩, hne⟩ := hname
    exact ⟨hne, tag, ⟨r, hr, text, htext, htag⟩, rfl⟩
  · rintro ⟨hne, tag, ⟨r, hr, text, htext, htag⟩, rfl⟩
    refine ⟨_, ⟨r, hr, rfl⟩, Tags.replace names text, ?_, ?_⟩
    · rw [Row.value?_change, if_pos rfl, htext, Option.map_some]
    · rw [Tags.parse_replace (h.isTag_image hr htext), Tags.mem_distinct]
      exact ⟨List.mem_map_of_mem htag, hne⟩

theorem find?_tagsInUse_renamed (h : s.NamesFit id names) (hid : id ∈ s.tagsColumnIds) :
    ∃ tags tags', s.tagsInUse.find? id = some tags ∧
      (s.changeValues id (Tags.replace names)).tagsInUse.find? id = some tags' ∧
      ∀ name, name ∈ tags'.keys ↔ name ≠ "" ∧ ∃ tag ∈ tags.keys, Tags.image names tag = name := by
  have hid' : id ∈ (s.changeValues id (Tags.replace names)).tagsColumnIds := hid
  rw [find?_tagsInUse, if_pos hid, find?_tagsInUse, if_pos hid']
  refine ⟨_, _, rfl, rfl, fun name => ?_⟩
  simp only [TextSet.mem_keys_ofList]
  exact mem_tagsUnder_renamed h

theorem find?_tagsInUse_changeValues {key : String} (h : id ≠ key) (g : String → String) :
    (s.changeValues id g).tagsInUse.find? key = s.tagsInUse.find? key := by
  have htags : tagsUnder (s.changeValues id g).rows key = tagsUnder s.rows key := by
    rw [tagsUnder, tagsUnder, changeValues, List.flatMap_map]
    congr 1
    funext r
    rw [Row.value?_change, if_neg h]
  rw [find?_tagsInUse, find?_tagsInUse, htags]
  rfl

/-- **Renaming tags renames tags and nothing else.** When every name of a tag under the column is a tag or nothing, the
new text of a cell is clean and reads as the names of its old tags, without those that are gone, and only the first one
of equal names. The other cells and the columns stay as they are. A correct tag cache then has the names of its old
tags under the column, and its other entries as before. -/
theorem reduce_tagRename (hs : s.columnIds.Nodup) (hc : c ∈ s.columns) (htags : c.isTags = true)
    (hnames : s.NamesFit c.id names) (now : Stamp) :
    ∃ t, s.reduce (.editColumn c.id [.tagRename names]) now = .ok t ∧
      t = { s with rows := t.rows, tagCache := t.tagCache, updated := now } ∧
      List.Forall₂ (fun r r' : Row => r.ChangedAt c.id r' ∧ ∀ text, r.value? c.id = some text →
        ∃ new, r'.value? c.id = some new ∧ Tags.clean new = new ∧
          Tags.parse new = (((Tags.parse text).map (Tags.image names)).filter (· != "")).eraseDups) s.rows t.rows ∧
      (s.TagCacheCorrect → (∀ key, key ≠ c.id → t.tagCache.find? key = s.tagCache.find? key) ∧
        ∃ tags tags', s.tagCache.find? c.id = some tags ∧ t.tagCache.find? c.id = some tags' ∧
          ∀ name, name ∈ tags'.keys ↔ name ≠ "" ∧ ∃ tag ∈ tags.keys, Tags.image names tag = name) := by
  have hcolumn := column?_of_mem hs hc
  refine ⟨_, reduce_edit hcolumn (edit_tagRename hcolumn htags names) now, rfl, ?_, fun hcache => ?_⟩
  · refine List.forall₂_map_right_iff.mpr (List.forall₂_same.mpr fun r hr => ⟨r.changedAt_change _ _, ?_⟩)
    intro text htext
    refine ⟨Tags.replace names text, ?_, Tags.clean_replace (hnames.isTag_image hr htext),
      Tags.parse_replace (hnames.isTag_image hr htext)⟩
    rw [Row.value?_change, if_pos rfl, htext, Option.map_some]
  · rw [(tagCacheCorrect_iff hs).mp hcache]
    exact ⟨fun key hkey => find?_tagsInUse_changeValues (Ne.symm hkey) _,
      find?_tagsInUse_renamed hnames (mem_tagsColumnIds.mpr ⟨c, hc, htags, rfl⟩)⟩

/-- A sheet with labels. -/
def labels : Sheet :=
  { new "s" "Labels" default with
    columns := [⟨"t", "Labels", .tags⟩]
    rows := [⟨"r", Dict.ofList [("t", "a, b")]⟩, ⟨"q", Dict.ofList [("t", "c,b , a, d")]⟩] }.refreshTags

/-- Two tags change places, one goes and one becomes another one that is there. -/
def relabels : Dict String :=
  Dict.ofList [("a", "b"), ("b", "a"), ("c", ""), ("d", "b")]

theorem reduce_tagRename_swap : labels.columnIds.Nodup ∧ labels.NamesFit "t" relabels ∧ labels.TagCacheCorrect ∧
    ∃ t, labels.reduce (.editColumn "t" [.tagRename relabels]) default = .ok t ∧
      List.Forall₂ (fun r r' : Row => ∀ text, r.value? "t" = some text → ∃ new, r'.value? "t" = some new ∧
          Tags.parse new = (((Tags.parse text).map (Tags.image relabels)).filter (· != "")).eraseDups)
        labels.rows t.rows ∧
      ∃ tags, t.tagCache.find? "t" = some tags ∧ ∀ name, name ∈ tags.keys ↔ name = "a" ∨ name = "b" := by
  have hs : labels.columnIds.Nodup := by decide
  have hfit : labels.NamesFit "t" relabels := by decide +kernel
  have hcache : labels.TagCacheCorrect := (tagCacheCorrect_iff hs).mpr rfl
  obtain ⟨t, ht, -, hrows, htags⟩ :=
    reduce_tagRename (c := ⟨"t", "Labels", .tags⟩) hs List.mem_cons_self rfl hfit default
  obtain ⟨-, tags, tags', hold, hnew, hmem⟩ := htags hcache
  refine ⟨hs, hfit, hcache, t, ht, hrows.imp fun r r' h text htext => ?_, tags', hnew, fun name => ?_⟩
  · obtain ⟨new, hvalue, -, hparse⟩ := h.2 text htext
    exact ⟨new, hvalue, hparse⟩
  · have hkeys : tags.keys = ["a", "b", "c", "d"] := by
      have hold' : labels.tagCache.find? "t" = some (Dict.ofList (["a", "b", "c", "d"].map (·, ()))) := by
        decide +kernel
      rw [Option.some.inj (hold.symm.trans hold')]
      decide
    have himages : ["a", "b", "c", "d"].map (Tags.image relabels) = ["b", "a", "", "b"] := by decide
    have hmem' : (∃ tag ∈ tags.keys, Tags.image relabels tag = name) ↔ name ∈ ["b", "a", "", "b"] := by
      rw [hkeys, ← himages, List.mem_map]
    rw [hmem, hmem']
    constructor
    · rintro ⟨hne, h⟩
      simp only [List.mem_cons, List.not_mem_nil, or_false] at h
      tauto
    · rintro (rfl | rfl) <;> decide

/-- Names that are no tags, and a tag cache that was wrong. A name with a comma passes the check, but what is
stored reads as two tags, and so it is with the tag cache. An entry of the tag cache that was wrong does not get the
names of its tags: it is made anew from the rows. -/
theorem reduce_tagRename_unfit :
    (∃ names, (ColumnEdit.tagRename names).check = .ok () ∧ labels.columnIds.Nodup ∧ labels.TagCacheCorrect ∧
      ∃ t, labels.reduce (.editColumn "t" [.tagRename names]) default = .ok t ∧
        (∃ r ∈ labels.rows, ∃ r' ∈ t.rows, r'.id = r.id ∧ ∃ text new, r.value? "t" = some text ∧
          r'.value? "t" = some new ∧ Tags.parse new ≠ Tags.distinct ((Tags.parse text).map (Tags.image names))) ∧
        ∃ tags tags', labels.tagCache.find? "t" = some tags ∧ t.tagCache.find? "t" = some tags' ∧
          ∃ tag ∈ tags.keys, Tags.image names tag ≠ "" ∧ Tags.image names tag ∉ tags'.keys) ∧
    ∃ s : Sheet, ∃ names, (ColumnEdit.tagRename names).check = .ok () ∧ s.columnIds.Nodup ∧ s.NamesFit "t" names ∧
      ∃ t, s.reduce (.editColumn "t" [.tagRename names]) default = .ok t ∧
        ∃ tags tags', s.tagCache.find? "t" = some tags ∧ t.tagCache.find? "t" = some tags' ∧
          ∃ tag ∈ tags.keys, Tags.image names tag ≠ "" ∧ Tags.image names tag ∉ tags'.keys := by
  have hs : labels.columnIds.Nodup := by decide
  constructor
  · refine ⟨Dict.ofList [("a", "x, y")], by decide, hs, (tagCacheCorrect_iff hs).mpr rfl, _, rfl, ?_, ?_⟩
    · refine ⟨labels.rows.head (by decide), List.head_mem _, _, List.head_mem (by decide), rfl, _, _, rfl, rfl, ?_⟩
      decide +kernel
    · exact ⟨_, _, rfl, rfl, "a", by decide +kernel, by decide, by decide +kernel⟩
  · exact ⟨{ labels with tagCache := Dict.ofList [("t", Dict.ofList [("old", ())])] }, Dict.ofList [("a", "e")],
      by decide, hs, by decide +kernel, _, rfl, _, _, rfl, rfl, "old", by decide, by decide, by decide +kernel⟩

end Worksheet.Sheet
