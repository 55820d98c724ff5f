import Worksheet.Proofs.Sheet.Step
/-!
# Distinct ids and the tag cache

Actions keep the ids of rows and of columns distinct, and a tag cache that is right stays right. Most
actions bring the cache up to date even when it was wrong; the others change nothing that it depends on.

* `Sheet.Distinct`: rows have ids of their own, and so have columns;
* `Sheet.TagCacheCorrect`: one key for each tags column, with the tags of its cells;
* `tagCacheCorrect_iff`: the correct cache is `Sheet.tagsInUse`;
* **`replay_tagCache`**: what a replay does to both.
-/

namespace Worksheet.Sheet

variable {s t : Sheet} {id tag : String}

/-- Rows have ids of their own, and so have columns. -/
structure Distinct (s : Sheet) : Prop where
  rows : s.rowIds.Nodup
  columns : s.columnIds.Nodup

/-- The ids of the tags columns. -/
def tagsColumnIds (s : Sheet) : List String :=
  (s.columns.filter Column.isTags).map (·.id)

/-- The tag cache has one key for each tags column. A tag stands under it exactly when some row has the
tag in its cell. -/
structure TagCacheCorrect (s : Sheet) : Prop where
  keys : s.tagCache.keys.Perm s.tagsColumnIds
  tags : ∀ c ∈ s.columns, c.isTags = true → ∀ set, s.tagCache.find? c.id = some set → ∀ tag,
    tag ∈ set.keys ↔ ∃ r ∈ s.rows, ∃ text, r.value? c.id = some text ∧ tag ∈ Tags.parse text

/-- The action brings the tag cache up to date: it takes something away, adds or edits a column, or
changes a tags cell. -/
def Refreshes (s : Sheet) : Action → Prop
  | .updateCell _ column _ => ∃ c ∈ s.columns, c.id = column ∧ c.isTags = true
  | .addRow _ => False
  | .deleteRow _ | .addColumn _ _ _ | .deleteColumn _ | .editColumn _ _ => True

/-- One of the actions brings the tag cache up to date, at the moment when its turn comes. -/
def SomeRefreshes (now : Stamp) (s : Sheet) : List Action → Prop
  | [] => False
  | a :: rest => s.Refreshes a ∨ ∃ t, s.reduce a now = .ok t ∧ SomeRefreshes now t rest

/-! ## Distinct ids -/

theorem perm_moveColumn {columns : List Column} {i j : Nat} {c : Column} (hi : columns[i]? = some c)
    (hj : j < columns.length) : ((columns.eraseIdx i).insertIdx j c).Perm columns := by
  obtain ⟨hlt, rfl⟩ := List.getElem?_eq_some_iff.mp hi
  refine (List.perm_insertIdx _ _ ?_).trans (List.getElem_cons_eraseIdx_perm hlt)
  rw [List.length_eraseIdx_of_lt hlt]
  omega

theorem edit_ids {e : ColumnEdit} (h : s.edit id e = .ok t) :
    t.rowIds = s.rowIds ∧ t.columnIds.Perm s.columnIds := by
  rcases edit_cases h with ⟨f, g, hf, rfl⟩ | ⟨i, j, c, hi, -, hj, rfl⟩
  · rw [retouch, rowIds_changeValues, rowIds_changeColumn, columnIds_changeValues, columnIds_changeColumn s hf]
    exact ⟨rfl, List.Perm.refl _⟩
  · exact ⟨rfl, (perm_moveColumn hi hj).map _⟩

theorem edits_ids {batch : List ColumnEdit} (h : s.edits id batch = .ok t) :
    t.rowIds = s.rowIds ∧ t.columnIds.Perm s.columnIds :=
  edits_induction (P := fun t => t.rowIds = s.rowIds ∧ t.columnIds.Perm s.columnIds)
    (fun h ⟨hrows, hcolumns⟩ =>
      ⟨(edit_ids h).1.trans hrows, (edit_ids h).2.trans hcolumns⟩)
    h ⟨rfl, List.Perm.refl _⟩

theorem Acted.distinct {a : Action} (h : s.Acted a t) (hs : s.Distinct) : t.Distinct := by
  cases h with
  | updateCell hrow =>
    split_ifs <;> exact ⟨(rowIds_set s _ _ _).symm ▸ hs.rows, hs.columns⟩
  | addRow hrow =>
    refine ⟨?_, hs.columns⟩
    rw [rowIds, List.map_append]
    exact hs.rows.append (List.nodup_singleton _) (by simpa [rowIds, Row.new] using hrow)
  | deleteRow hrow => exact ⟨hs.rows.sublist (List.eraseP_sublist.map _), hs.columns⟩
  | addColumn htype hcolumn =>
    refine ⟨hs.rows, ?_⟩
    rw [columnIds, refreshTags, List.map_append]
    exact hs.columns.append (List.nodup_singleton _) (by simpa [columnIds, Column.new] using hcolumn)
  | deleteColumn hcolumn => exact ⟨hs.rows, hs.columns.sublist (List.eraseP_sublist.map _)⟩
  | editColumn hcolumn hedits =>
    obtain ⟨hrows, hcolumns⟩ := edits_ids hedits
    exact ⟨hrows ▸ hs.rows, hcolumns.nodup_iff.mpr hs.columns⟩

/-! ## The tags in use -/

theorem mem_tagsUnder {rows : List Row} : tag ∈ tagsUnder rows id ↔
    ∃ r ∈ rows, ∃ text, r.value? id = some text ∧ tag ∈ Tags.parse text := by
  rw [tagsUnder, List.mem_flatMap]
  refine exists_congr fun r => and_congr Iff.rfl ?_
  cases r.value? id <;> simp

theorem mem_tagsColumnIds : id ∈ s.tagsColumnIds ↔ ∃ c ∈ s.columns, c.isTags = true ∧ c.id = id := by
  simp [tagsColumnIds, and_assoc]

theorem find?_tagsInUse (s : Sheet) (id : String) :
    s.tagsInUse.find? id = if id ∈ s.tagsColumnIds then
      some (Dict.ofList ((tagsUnder s.rows id).map (·, ()))) else none := by
  rw [tagsInUse]
  split_ifs with h
  · obtain ⟨c, hc, rfl⟩ := List.mem_map.mp h
    refine Dict.find?_ofList_of_agree (List.mem_map.mpr ⟨c, hc, rfl⟩) fun e he heq => ?_
    obtain ⟨c', -, rfl⟩ := List.mem_map.mp he
    simp only at heq ⊢
    rw [heq]
  · refine Dict.find?_ofList_eq_none fun e he heq => h ?_
    obtain ⟨c, hc, rfl⟩ := List.mem_map.mp he
    exact List.mem_map.mpr ⟨c, hc, heq⟩

theorem tagsInUse_congr (hcolumns : t.tagsColumnIds = s.tagsColumnIds)
    (hrows : ∀ id ∈ s.tagsColumnIds, tagsUnder t.rows id = tagsUnder s.rows id) :
    t.tagsInUse = s.tagsInUse := by
  refine Dict.ext_find? fun id => ?_
  rw [find?_tagsInUse, find?_tagsInUse, hcolumns]
  split_ifs with h
  · rw [hrows id h]
  · rfl

/-- **The correct tag cache is the tags in use.** -/
theorem tagCacheCorrect_iff (hs : s.columnIds.Nodup) : s.TagCacheCorrect ↔ s.tagCache = s.tagsInUse := by
  have hkeys : s.tagCache.keys.Perm s.tagsColumnIds ↔
      ∀ id, (∃ set, s.tagCache.find? id = some set) ↔ id ∈ s.tagsColumnIds := by
    have hnodup : s.tagsColumnIds.Nodup := hs.sublist (List.filter_sublist.map _)
    rw [List.perm_ext_iff_of_nodup s.tagCache.nodup_keys hnodup]
    exact forall_congr' fun id => iff_congr Dict.mem_keys Iff.rfl
  constructor
  · intro h
    refine Dict.ext_find? fun id => ?_
    rw [find?_tagsInUse]
    split_ifs with hid
    · obtain ⟨set, hset⟩ := (hkeys.mp h.keys id).mpr hid
      obtain ⟨c, hc, htags, rfl⟩ := mem_tagsColumnIds.mp hid
      rw [hset, Option.some.injEq]
      refine TextSet.ext_keys fun tag => ?_
      rw [TextSet.mem_keys_ofList, mem_tagsUnder, h.tags c hc htags set hset]
    · exact Option.eq_none_iff_forall_ne_some.mpr fun set hset =>
        hid ((hkeys.mp h.keys id).mp ⟨set, hset⟩)
  · intro h
    refine ⟨hkeys.mpr fun id => ?_, fun c hc htags set hset tag => ?_⟩
    · rw [h, find?_tagsInUse]
      split_ifs with hid <;> simp [hid]
    · rw [h, find?_tagsInUse, if_pos (mem_tagsColumnIds.mpr ⟨c, hc, htags, rfl⟩),
        Option.some.injEq] at hset
      rw [← hset, TextSet.mem_keys_ofList, mem_tagsUnder]

/-! ## What an action does to the tag cache -/

theorem tagsUnder_changeRow {row column value : String} (h : column ≠ id) :
    tagsUnder (s.changeRow row (·.set column value)).rows id = tagsUnder s.rows id := by
  rw [tagsUnder, tagsUnder, List.flatMap_def, List.flatMap_def, changeRow]
  congr 1
  refine map_changeFirst _ (fun r => ?_) _
  rw [Row.value?, Row.set, Dict.find?_insert_of_ne _ _ h]
  rfl

theorem column?_of_mem (hs : s.columnIds.Nodup) {c : Column} (hc : c ∈ s.columns) :
    s.column? c.id = some c := by
  obtain ⟨c', hc'⟩ := Option.isSome_iff_exists.mp (isSome_column?_iff.mpr (List.mem_map_of_mem hc))
  rw [hc', List.inj_on_of_nodup_map hs (List.mem_of_find?_eq_some hc') hc (column?_id hc')]

theorem any_column?_isTags (hs : s.columnIds.Nodup) :
    (s.column? id).any Column.isTags = true ↔ id ∈ s.tagsColumnIds := by
  rw [mem_tagsColumnIds, Option.any_eq_true]
  constructor
  · rintro ⟨c, hc, htags⟩
    exact ⟨c, List.mem_of_find?_eq_some hc, htags, column?_id hc⟩
  · rintro ⟨c, hc, htags, rfl⟩
    exact ⟨c, column?_of_mem hs hc, htags⟩

/-- **An accepted action brings the cache up to date, or changes neither it nor what it depends on.** -/
theorem Acted.tagCache {a : Action} (h : s.Acted a t) (hs : s.Distinct) :
    (s.Refreshes a → t.tagCache = t.tagsInUse) ∧
      (¬ s.Refreshes a → t.tagCache = s.tagCache ∧ t.tagsInUse = s.tagsInUse) := by
  cases h with
  | updateCell hrow =>
    rename_i row column value
    have hany : _ ↔ column ∈ s.tagsColumnIds := any_column?_isTags hs.columns
    rw [mem_tagsColumnIds] at hany
    simp only [Refreshes, and_comm (a := _ = column), ← hany]
    split_ifs with h
    · exact ⟨fun _ => rfl, fun hn => absurd h hn⟩
    · refine ⟨fun hy => absurd hy h, fun _ => ⟨rfl, tagsInUse_congr rfl fun id hid => ?_⟩⟩
      refine tagsUnder_changeRow fun heq => h ?_
      rw [any_column?_isTags hs.columns, heq]
      exact hid
  | addRow hrow =>
    refine ⟨False.elim, fun _ => ⟨rfl, tagsInUse_congr rfl fun id _ => ?_⟩⟩
    simp [tagsUnder, Row.new, Row.value?]
  | deleteRow | addColumn | deleteColumn | editColumn =>
    exact ⟨fun _ => rfl, fun hn => absurd trivial hn⟩

/-! ## Runs -/

theorem reduce_distinct {a : Action} {now : Stamp} (h : s.reduce a now = .ok t) (hs : s.Distinct) :
    t.Distinct := by
  obtain ⟨u, hu, rfl⟩ := reduce_ok.mp h
  have := (act_acted hu).distinct hs
  exact ⟨this.rows, this.columns⟩

theorem reduce_tagCache {a : Action} {now : Stamp} (h : s.reduce a now = .ok t) (hs : s.Distinct) :
    (s.Refreshes a → t.tagCache = t.tagsInUse) ∧
      (¬ s.Refreshes a → t.tagCache = s.tagCache ∧ t.tagsInUse = s.tagsInUse) := by
  obtain ⟨u, hu, rfl⟩ := reduce_ok.mp h
  exact (act_acted hu).tagCache hs

theorem reduce_tagCache_eq {a : Action} {now : Stamp} (h : s.reduce a now = .ok t) (hs : s.Distinct)
    (hcache : s.tagCache = s.tagsInUse) : t.tagCache = t.tagsInUse := by
  obtain ⟨hyes, hno⟩ := reduce_tagCache h hs
  by_cases ha : s.Refreshes a
  · exact hyes ha
  · rw [(hno ha).1, (hno ha).2, hcache]

/-- What a run keeps: distinct ids, and a cache that is up to date from some point on. -/
theorem replay_invariant {actions : List Action} {now : Stamp} (hs : s.Distinct)
    (h : s.replay actions now = .ok t) :
    t.Distinct ∧ (s.tagCache = s.tagsInUse ∨ s.SomeRefreshes now actions → t.tagCache = t.tagsInUse) ∧
      (¬ s.SomeRefreshes now actions → t.tagCache = s.tagCache ∧ t.tagsInUse = s.tagsInUse) := by
  induction actions generalizing s with
  | nil =>
    obtain rfl := replay_nil.mp h
    exact ⟨hs, fun h => h.resolve_right not_false, fun _ => ⟨rfl, rfl⟩⟩
  | cons a rest ih =>
    obtain ⟨u, hu, h⟩ := replay_cons.mp h
    obtain ⟨ht, hyes, hno⟩ := ih (reduce_distinct hu hs) h
    obtain ⟨ayes, ano⟩ := reduce_tagCache hu hs
    refine ⟨ht, fun hsome => ?_, fun hnone => ?_⟩
    · rcases hsome with hcache | ha | ⟨u', hu', hrest⟩
      · exact hyes (.inl (reduce_tagCache_eq hu hs hcache))
      · exact hyes (.inl (ayes ha))
      · obtain rfl : u = u' := Except.ok.inj (hu.symm.trans hu')
        exact hyes (.inr hrest)
    · have ha : ¬ s.Refreshes a := fun ha => hnone (.inl ha)
      obtain ⟨h1, h2⟩ := hno fun hrest => hnone (.inr ⟨u, hu, hrest⟩)
      exact ⟨h1.trans (ano ha).1, h2.trans (ano ha).2⟩

/-- **A replay keeps ids distinct and the tag cache correct.** It makes the cache correct once one of its
actions brings it up to date. If none does, neither the cache changes nor what it should hold. -/
theorem replay_tagCache {actions : List Action} {now : Stamp} (hs : s.Distinct)
    (h : s.replay actions now = .ok t) :
    t.Distinct ∧ (s.TagCacheCorrect ∨ s.SomeRefreshes now actions → t.TagCacheCorrect) ∧
      (¬ s.SomeRefreshes now actions → t.tagCache = s.tagCache ∧ t.tagsInUse = s.tagsInUse) := by
  obtain ⟨ht, hyes, hno⟩ := replay_invariant hs h
  rw [tagCacheCorrect_iff hs.columns, tagCacheCorrect_iff ht.columns]
  exact ⟨ht, hyes, hno⟩

/-- A sheet with a tags column and an empty tag cache. -/
def labelled : Sheet :=
  { new "s" "Labels" default with
    columns := [⟨"t", "Labels", .tags⟩, ⟨"n", "Note", .text⟩]
    rows := [⟨"r", Dict.ofList [("t", "a, b"), ("n", "x")]⟩] }

/-- Actions that make tags of notes, move their column and put tags into a new row. -/
def relabelling : List Action :=
  [.addRow "q", .updateCell "r" "n" "y", .editColumn "n" [.changeType "tags", .reorder 0],
    .updateCell "q" "n" "c,d"]

theorem replay_tagCache_relabelling : labelled.Distinct ∧ labelled.SomeRefreshes default relabelling ∧
    ∃ t, labelled.replay relabelling default = .ok t ∧ t.Distinct ∧ t.TagCacheCorrect := by
  have hs : labelled.Distinct := ⟨by decide, by decide⟩
  have hsome : labelled.SomeRefreshes default relabelling :=
    .inr ⟨_, rfl, .inr ⟨_, rfl, .inl trivial⟩⟩
  obtain ⟨t, h⟩ : ∃ t, labelled.replay relabelling default = .ok t := ⟨_, rfl⟩
  obtain ⟨ht, hyes, -⟩ := replay_tagCache hs h
  exact ⟨hs, hsome, t, h, ht, hyes (.inr hsome)⟩

end Worksheet.Sheet
