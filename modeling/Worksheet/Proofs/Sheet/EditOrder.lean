import Worksheet.Proofs.Sheet.Reach
/-!
# The order of edits

Batches of edits for two columns can be made in either order, unless both of them move their column. A batch also
passes over what is done to single rows and to cells of other columns.

* `changeFirst_comm`, `changeFirst_move`: changing the first member next to other changes of the list;
* `unnoticed_retouch`: the edits of one column pass over a change of another;
* `edits_uniform`: a batch of edits that moves no column is decided by its column alone;
* **`edited_comm`**: batches for two columns;
* **`edited_rows`**: a batch and a change of rows.
-/

namespace Worksheet

/-! ## Changing the first member, and other changes -/

section ChangeFirst

variable {α : Type} {p q : α → Bool} {f g : α → α} {a : α}

/-- Two changes of first members can be swapped if they can be swapped where they meet. -/
theorem changeFirst_comm (hp : ∀ a, p (g a) = p a) (hq : ∀ a, q (f a) = q a)
    (hmeet : ∀ a, p a = true → q a = true → g (f a) = f (g a)) (l : List α) :
    changeFirst q g (changeFirst p f l) = changeFirst p f (changeFirst q g l) := by
  induction l with
  | nil => rfl
  | cons a l ih =>
    by_cases hpa : p a = true <;> by_cases hqa : q a = true
    · simp [changeFirst, hpa, hqa, hp, hq, hmeet]
    · simp [changeFirst, hpa, hqa, hq]
    · simp [changeFirst, hpa, hqa, hp]
    · simp [changeFirst, hpa, hqa, ih]

theorem changeFirst_changeFirst (hp : ∀ a, p (f a) = p a) (l : List α) :
    changeFirst p g (changeFirst p f l) = changeFirst p (g ∘ f) l := by
  induction l with
  | nil => rfl
  | cons a l ih => by_cases hpa : p a = true <;> simp [changeFirst, hpa, hp, ih]

theorem changeFirst_map (hp : ∀ a, p (g a) = p a) (hswap : ∀ a, f (g a) = g (f a)) (l : List α) :
    changeFirst p f (l.map g) = (changeFirst p f l).map g := by
  induction l with
  | nil => rfl
  | cons a l ih => by_cases hpa : p a = true <;> simp [changeFirst, hpa, hp, hswap, ih]

theorem find?_changeFirst (hq : ∀ a, q (f a) = q a) (hpq : ∀ a, q a = true → p a = false) (l : List α) :
    (changeFirst p f l).find? q = l.find? q := by
  induction l with
  | nil => rfl
  | cons a l ih =>
    by_cases hqa : q a = true
    · simp [changeFirst, hqa, hpq a hqa]
    · by_cases hpa : p a = true <;> simp [changeFirst, hpa, hqa, hq, ih]

theorem find?_changeFirst_self (hp : ∀ a, p (f a) = p a) (l : List α) :
    (changeFirst p f l).find? p = (l.find? p).map f := by
  induction l with
  | nil => rfl
  | cons a l ih => by_cases hpa : p a = true <;> simp [changeFirst, hpa, hp, ih]

theorem changeFirst_eraseP (hq : ∀ a, q (f a) = q a) (hpq : ∀ a, q a = true → p a = false) (l : List α) :
    changeFirst p f (l.eraseP q) = (changeFirst p f l).eraseP q := by
  induction l with
  | nil => rfl
  | cons a l ih =>
    by_cases hqa : q a = true
    · simp [changeFirst, hqa, hpq a hqa]
    · by_cases hpa : p a = true <;> simp [changeFirst, hpa, hqa, hq, ih]

theorem changeFirst_concat (ha : p a = false) (l : List α) :
    changeFirst p f (l ++ [a]) = changeFirst p f l ++ [a] := by
  induction l with
  | nil => simp [changeFirst, ha]
  | cons b l ih => by_cases hpb : p b = true <;> simp [changeFirst, hpb, ih]

theorem getElem?_changeFirst (ha : p a = false) {l : List α} {i : Nat} (hi : l[i]? = some a) :
    (changeFirst p f l)[i]? = some a := by
  induction l generalizing i with
  | nil => simp at hi
  | cons b l ih =>
    cases i with
    | zero =>
      obtain rfl : b = a := by simpa using hi
      simp [changeFirst, ha]
    | succ i =>
      rw [changeFirst]
      split_ifs
      · simpa using hi
      · simpa using ih (by simpa using hi)

theorem changeFirst_eraseIdx (ha : p a = false) {l : List α} {i : Nat} (hi : l[i]? = some a) :
    changeFirst p f (l.eraseIdx i) = (changeFirst p f l).eraseIdx i := by
  induction l generalizing i with
  | nil => rfl
  | cons b l ih =>
    cases i with
    | zero =>
      obtain rfl : b = a := by simpa using hi
      simp [changeFirst, ha]
    | succ i => by_cases hpb : p b = true <;> simp [changeFirst, hpb, ih (by simpa using hi)]

theorem changeFirst_insertIdx (ha : p a = false) (l : List α) (i : Nat) :
    changeFirst p f (l.insertIdx i a) = (changeFirst p f l).insertIdx i a := by
  induction l generalizing i with
  | nil => cases i <;> simp [changeFirst, ha]
  | cons b l ih =>
    cases i with
    | zero => simp [changeFirst, ha]
    | succ i => by_cases hpb : p b = true <;> simp [changeFirst, hpb, ih]

theorem changeFirst_move (ha : p a = false) {l : List α} {i : Nat} (hi : l[i]? = some a) (j : Nat) :
    changeFirst p f ((l.eraseIdx i).insertIdx j a) = ((changeFirst p f l).eraseIdx i).insertIdx j a := by
  rw [changeFirst_insertIdx ha, changeFirst_eraseIdx ha hi]

end ChangeFirst

/-! ## Rows -/

namespace Row

variable {column column' : String}

theorem ext_value? {r r' : Row} (hid : r.id = r'.id) (h : ∀ key, r.value? key = r'.value? key) : r = r' := by
  obtain ⟨id, values⟩ := r
  obtain ⟨id', values'⟩ := r'
  obtain rfl : id = id' := hid
  obtain rfl : values = values' := Dict.ext_find? h
  rfl

theorem value?_set (r : Row) (column value key : String) :
    (r.set column value).value? key = if column = key then some value else r.value? key :=
  Dict.find?_insert _ _ _ _

theorem value?_change (r : Row) (column : String) (f : String → String) (key : String) :
    (r.change column f).value? key = if column = key then (r.value? key).map f else r.value? key :=
  Dict.find?_adjust _ _ _ _

theorem set_comm (r : Row) (h : column ≠ column') (value value' : String) :
    (r.set column value).set column' value' = (r.set column' value').set column value := by
  refine ext_value? rfl fun key => ?_
  simp only [value?_set]
  split_ifs with h1 h2
  · exact absurd (h2.trans h1.symm) h
  · rfl
  · rfl
  · rfl

theorem change_set (r : Row) (h : column ≠ column') (value : String) (g : String → String) :
    (r.change column' g).set column value = (r.set column value).change column' g := by
  refine ext_value? rfl fun key => ?_
  simp only [value?_set, value?_change]
  split_ifs with h1 h2
  · exact absurd (h1.trans h2.symm) h
  · rfl
  · rfl
  · rfl

theorem change_comm (r : Row) (h : column ≠ column') (f g : String → String) :
    (r.change column f).change column' g = (r.change column' g).change column f := by
  refine ext_value? rfl fun key => ?_
  simp only [value?_change]
  split_ifs with h1 h2
  · exact absurd (h2.trans h1.symm) h
  · rfl
  · rfl
  · rfl

theorem change_new (id column : String) (g : String → String) : (new id).change column g = new id :=
  ext_value? rfl fun key => by
    rw [value?_change]
    split_ifs <;> rfl

end Row

namespace Sheet

variable {s t : Sheet} {c d : String}

/-! ## Edits of two columns -/

section Retouch

variable {f f' : Column → Column} {g g' : String → String}

theorem column?_retouch (hf : ∀ k, (f k).id = k.id) : (s.retouch c f g).column? c = (s.column? c).map f :=
  find?_changeFirst_self (fun k => by rw [hf k]) _

theorem column?_retouch_of_ne (h : c ≠ d) (hf : ∀ k, (f k).id = k.id) :
    (s.retouch c f g).column? d = s.column? d :=
  find?_changeFirst (fun k => by rw [hf k]) (fun k hk => by simpa [beq_iff_eq.mp hk] using h.symm) _

theorem retouch_retouch (s : Sheet) (hf : ∀ k, (f k).id = k.id) :
    (s.retouch c f g).retouch c f' g' = s.retouch c (f' ∘ f) (g' ∘ g) := by
  have hcolumns := changeFirst_changeFirst (p := (·.id == c)) (g := f') (fun k => by rw [hf k]) s.columns
  have hrows : (s.rows.map (·.change c g)).map (·.change c g') = s.rows.map (·.change c (g' ∘ g)) := by
    rw [List.map_map]
    exact List.map_congr_left fun r _ => r.change_change c g g'
  simp only [retouch, changeColumn, changeValues, hcolumns, hrows]

theorem retouch_comm (s : Sheet) (h : c ≠ d) (hf : ∀ k, (f k).id = k.id) (hf' : ∀ k, (f' k).id = k.id) :
    (s.retouch d f' g').retouch c f g = (s.retouch c f g).retouch d f' g' := by
  have hcolumns := changeFirst_comm (p := (·.id == d)) (q := (·.id == c)) (f := f') (g := f)
    (fun k => by rw [hf k]) (fun k => by rw [hf' k])
    (fun k hd hc => absurd ((beq_iff_eq.mp hc).symm.trans (beq_iff_eq.mp hd)) h) s.columns
  have hrows : (s.rows.map (·.change d g')).map (·.change c g) =
      (s.rows.map (·.change c g)).map (·.change d g') := by
    rw [List.map_map, List.map_map]
    exact List.map_congr_left fun r _ => (r.change_comm h g g').symm
  simp only [retouch, changeColumn, changeValues, hcolumns, hrows]

theorem columnIds_retouch (s : Sheet) (hf : ∀ k, (f k).id = k.id) : (s.retouch c f g).columnIds = s.columnIds :=
  columnIds_changeColumn s hf

theorem columnIndex_retouch (s : Sheet) (hf : ∀ k, (f k).id = k.id) :
    (s.retouch c f g).columnIndex d = s.columnIndex d := by
  have hmap : ∀ u : Sheet, u.columnIndex? d = u.columnIds.findIdx? (· == d) := fun u => by
    rw [columnIds, List.findIdx?_map]
    rfl
  rw [columnIndex, columnIndex, hmap, hmap, columnIds_retouch s hf]

theorem moveColumn_retouch (s : Sheet) (h : c ≠ d) (hf : ∀ k, (f k).id = k.id) (index : Int) :
    (s.retouch c f g).moveColumn d index = (s.moveColumn d index).map (·.retouch c f g) := by
  have hlength : (s.retouch c f g).columns.length = s.columns.length := by
    simpa [columnIds] using congrArg List.length (columnIds_retouch (g := g) (c := c) s hf)
  rw [moveColumn, moveColumn, columnIndex_retouch s hf, hlength]
  cases hstart : s.columnIndex d with
  | error e => rfl
  | ok start =>
    obtain ⟨k, hk, hid⟩ := columnIndex_ok hstart
    have hother : (fun k : Column => k.id == c) k = false := by simpa [hid] using h.symm
    have hk' : (s.retouch c f g).columns[start]? = some k :=
      getElem?_changeFirst (p := fun k : Column => k.id == c) hother hk
    simp only [bind, Except.bind, hk, hk']
    split_ifs
    · have hcolumns := changeFirst_move (p := fun k : Column => k.id == c) (f := f) hother hk index.toNat
      simp only [Except.map, retouch, changeColumn, changeValues, hcolumns]
    · rfl

/-- **The edits of one column pass over a change of another.** -/
theorem unnoticed_retouch (h : c ≠ d) (hf : ∀ k, (f k).id = k.id) : Unnoticed d (·.retouch c f g) :=
  unnoticed_of (fun _ => column?_retouch_of_ne h hf) (fun s _ _ hf' => retouch_comm s h hf hf')
    fun s index => moveColumn_retouch s h hf index

end Retouch

/-- **A batch that moves no column is decided by its column alone**, as each of its edits is. -/
theorem edits_uniform {batch : List ColumnEdit} (hbatch : ∀ index, .reorder index ∉ batch) (s : Sheet) :
    (∃ x, ∀ t : Sheet, t.column? c = s.column? c → t.edits c batch = .error x) ∨
    ∃ (f : Column → Column) (g : String → String), (∀ k, (f k).id = k.id) ∧
      ∀ t : Sheet, t.column? c = s.column? c → t.edits c batch = .ok (t.retouch c f g) := by
  induction batch generalizing s with
  | nil =>
    refine .inr ⟨fun k => k, fun text => text, fun _ => rfl, fun t _ => ?_⟩
    rw [retouch, changeColumn_id, changeValues_id]
    rfl
  | cons e rest ih =>
    have he : ∀ index, e ≠ .reorder index := fun index he => hbatch index (he ▸ List.mem_cons_self)
    rcases @edit_uniform c e he s with ⟨x, hx⟩ | ⟨f, g, hf, hok⟩
    · exact .inl ⟨x, fun t ht => by rw [edits, hx t ht]; rfl⟩
    have hafter : ∀ t : Sheet, t.column? c = s.column? c →
        (t.retouch c f g).column? c = (s.retouch c f g).column? c := fun t ht => by
      rw [column?_retouch hf, column?_retouch hf, ht]
    rcases ih (fun index hrest => hbatch index (List.mem_cons_of_mem _ hrest)) (s.retouch c f g) with
      ⟨x, hx⟩ | ⟨f', g', hf', hok'⟩
    · exact .inl ⟨x, fun t ht => by rw [edits, hok t ht]; exact hx _ (hafter t ht)⟩
    · refine .inr ⟨f' ∘ f, g' ∘ g, fun k => (hf' (f k)).trans (hf k), fun t ht => ?_⟩
      rw [edits, hok t ht, ← retouch_retouch t hf]
      exact hok' _ (hafter t ht)

theorem column?_edits {batch : List ColumnEdit} (h : c ≠ d) (hedits : s.edits d batch = .ok t) :
    t.column? c = s.column? c := by
  have hfilter : ∀ u : Sheet, u.column? c = (u.columns.filter (·.id != d)).find? (·.id == c) := fun u => by
    rw [column?, List.find?_filter]
    congr 1
    funext k
    by_cases hk : k.id = c
    · simp [hk, h]
    · simp [hk]
  rw [hfilter, hfilter, edits_columns hedits]

/-! ## Columns and rows alone -/

/-- Columns and rows without a name, stamps or a tag cache. -/
def plain (columns : List Column) (rows : List Row) : Sheet :=
  { (default : Sheet) with columns := columns, rows := rows }

/-- The columns and rows of a sheet. -/
def bare (s : Sheet) : Sheet :=
  plain s.columns s.rows

theorem unnoticed_bare (id : String) : Unnoticed id bare :=
  unnoticed_of (fun _ => rfl) (fun _ _ _ _ => rfl) (moveColumn_map (fun _ => rfl) fun _ _ => rfl)

/-- The edits of a column that is there, made one after the other. -/
def edited (s : Sheet) (column : String) (batch : List ColumnEdit) : Option Sheet :=
  if column ∈ s.columnIds then (s.edits column batch).toOption else none

theorem edited_of_mem (h : c ∈ s.columnIds) (batch : List ColumnEdit) :
    s.edited c batch = (s.edits c batch).toOption :=
  if_pos h

theorem edited_of_not_mem (h : c ∉ s.columnIds) (batch : List ColumnEdit) : s.edited c batch = none :=
  if_neg h

theorem edits_of_edited {batch : List ColumnEdit} (h : s.edited c batch = some t) :
    c ∈ s.columnIds ∧ s.edits c batch = .ok t := by
  rw [edited] at h
  split_ifs at h with hc
  cases hs : s.edits c batch with
  | error e => rw [hs] at h; cases h
  | ok u =>
    rw [hs] at h
    cases h
    exact ⟨hc, rfl⟩

theorem Unnoticed.edited {φ : Sheet → Sheet} (h : Unnoticed c φ) (hids : ∀ s, (φ s).columnIds = s.columnIds)
    (s : Sheet) (batch : List ColumnEdit) : (φ s).edited c batch = (s.edited c batch).map φ := by
  rw [Sheet.edited, Sheet.edited, hids, h.edits]
  split_ifs
  · cases s.edits c batch <;> rfl
  · rfl

theorem edited_uniform {batch : List ColumnEdit} (hbatch : ∀ index, .reorder index ∉ batch) (s : Sheet) :
    (∀ t : Sheet, t.column? c = s.column? c → t.edited c batch = none) ∨
    ∃ (f : Column → Column) (g : String → String), (∀ k, (f k).id = k.id) ∧
      ∀ t : Sheet, t.column? c = s.column? c → t.edited c batch = some (t.retouch c f g) := by
  have hmem : ∀ t : Sheet, t.column? c = s.column? c → (c ∈ t.columnIds ↔ c ∈ s.columnIds) := fun t ht => by
    rw [← isSome_column?_iff, ht, isSome_column?_iff]
  by_cases hc : c ∈ s.columnIds
  · refine (edits_uniform (c := c) hbatch s).imp ?_ ?_
    · rintro ⟨x, hx⟩ t ht
      rw [edited_of_mem ((hmem t ht).mpr hc), hx t ht]
      rfl
    · rintro ⟨f, g, hf, hok⟩
      refine ⟨f, g, hf, fun t ht => ?_⟩
      rw [edited_of_mem ((hmem t ht).mpr hc), hok t ht]
      rfl
  · exact .inl fun t ht => edited_of_not_mem (mt (hmem t ht).mp hc) batch

/-- **Batches for two columns can be swapped** if the first one moves no column. -/
theorem edited_comm (h : c ≠ d) {batch batch' : List ColumnEdit} (hbatch : ∀ index, .reorder index ∉ batch)
    (s : Sheet) :
    (s.edited c batch).bind (·.edited d batch') = (s.edited d batch').bind (·.edited c batch) := by
  rcases edited_uniform (c := c) hbatch s with hnone | ⟨f, g, hf, hsome⟩
  · rw [hnone s rfl, Option.bind_none, eq_comm, Option.bind_eq_none_iff]
    exact fun t ht => hnone t (column?_edits h (edits_of_edited ht).2)
  · rw [hsome s rfl, Option.bind_some, (unnoticed_retouch h hf).edited fun s => columnIds_retouch s hf,
      Option.map_eq_bind]
    exact Option.bind_congr fun t ht => (hsome t (column?_edits h (edits_of_edited ht).2)).symm

/-- A batch of edits passes over a change of rows that goes together with changing the texts under its column. -/
theorem edited_rows {ρ : List Row → Option (List Row)} {batch : List ColumnEdit}
    (hρ : ∀ (g : String → String) rows, ρ (rows.map (·.change c g)) = (ρ rows).map (·.map (·.change c g)))
    (s : Sheet) :
    ((ρ s.rows).map (plain s.columns)).bind (fun t => (t.edited c batch).map bare) =
      (s.edited c batch).bind fun t => (ρ t.rows).map (plain t.columns) := by
  have hφ : Unnoticed c fun s => { s with rows := (ρ s.rows).getD s.rows } := by
    refine unnoticed_of (fun _ => rfl) (fun s f g _ => ?_) (moveColumn_map (fun _ => rfl) fun _ _ => rfl)
    simp only [retouch, changeColumn, changeValues, hρ]
    cases ρ s.rows <;> rfl
  have hrows : ∀ t, s.edited c batch = some t → ∃ g : String → String,
      ρ t.rows = (ρ s.rows).map (·.map (·.change c g)) := fun t ht => by
    obtain ⟨g, hg⟩ := edits_rows (edits_of_edited ht).2
    exact ⟨g, hg ▸ hρ g s.rows⟩
  cases hs : ρ s.rows with
  | none =>
    rw [Option.map_none, Option.bind_none, eq_comm, Option.bind_eq_none_iff]
    intro t ht
    obtain ⟨g, hg⟩ := hrows t ht
    rw [hg, hs]
    rfl
  | some rows =>
    have hφs : plain s.columns rows = bare { s with rows := (ρ s.rows).getD s.rows } := by rw [hs]; rfl
    rw [Option.map_some, Option.bind_some, hφs, (unnoticed_bare c).edited (fun _ => rfl),
      hφ.edited (fun _ => rfl), Option.map_map, Option.map_map, Option.map_eq_bind]
    refine Option.bind_congr fun t ht => ?_
    obtain ⟨g, hg⟩ := hrows t ht
    rw [hs] at hg
    simp only [Function.comp_apply, hg, Option.map_some, Option.getD_some]
    rfl

end Sheet

end Worksheet
