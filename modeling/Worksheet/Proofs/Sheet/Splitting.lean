import Worksheet.Proofs.Sheet.Frame
import Worksheet.Proofs.Sheet.TagCache
/-!
# Runs in parts

A list of actions, or a batch of edits, does the same when it is cut in two and the parts are taken one after
the other.

* `replayFrom_append`, `lt_of_replay_error`: what a run of two lists tells, and the numbers that it reports;
* `edits_append`: the edits of two batches;
* `unnoticed_refreshed`: edits do not read what an action refreshes;
* `reduce_editColumn_append`: a batch as two actions;
* **`replay_split`**: both cuts, with every outcome.
-/

namespace Worksheet.Sheet

variable {s t : Sheet} {now : Stamp} {column : String}

/-! ## Actions -/

/-- The outcome of a run whose first action is number `index`, which the later actions go on from. -/
theorem replayFrom_append (index : Nat) (s : Sheet) (now : Stamp) (first second : List Action) :
    s.replayFrom index now (first ++ second) =
      (s.replayFrom index now first).bind (·.replayFrom (index + first.length) now second) := by
  induction first generalizing index s with
  | nil => rfl
  | cons a rest ih =>
    rw [List.cons_append, replayFrom, replayFrom]
    cases s.reduce a now with
    | error e => rfl
    | ok t =>
      dsimp only
      rw [ih, List.length_cons, Nat.add_right_comm, Nat.add_assoc]

theorem replayFrom_error_iff (index : Nat) {s : Sheet} {actions : List Action} {k : Nat} {e : SheetError} :
    s.replayFrom index now actions = .error (k, e) ↔
      ∃ i, k = index + i ∧ s.replay actions now = .error (i, e) := by
  induction actions generalizing index s k with
  | nil => simp [replay, replayFrom]
  | cons a rest ih =>
    simp only [replay, replayFrom]
    cases s.reduce a now with
    | error x =>
      simp only [Except.error.injEq, Prod.mk.injEq]
      constructor
      · rintro ⟨rfl, rfl⟩
        exact ⟨0, rfl, rfl, rfl⟩
      · rintro ⟨i, rfl, rfl, rfl⟩
        exact ⟨rfl, rfl⟩
    | ok t =>
      simp only [ih]
      constructor
      · rintro ⟨i, rfl, h⟩
        exact ⟨0 + 1 + i, by omega, i, rfl, h⟩
      · rintro ⟨i, rfl, j, rfl, h⟩
        exact ⟨j, by omega, h⟩

theorem lt_of_replay_error {actions : List Action} {i : Nat} {e : SheetError}
    (h : s.replay actions now = .error (i, e)) : i < actions.length := by
  induction actions generalizing s i with
  | nil => cases h
  | cons a rest ih =>
    rw [replay, replayFrom] at h
    cases hreduce : s.reduce a now with
    | error x =>
      rw [hreduce] at h
      cases h
      exact Nat.succ_pos _
    | ok t =>
      rw [hreduce] at h
      obtain ⟨j, rfl, hj⟩ := (replayFrom_error_iff 1).mp h
      have := ih hj
      rw [List.length_cons]
      omega

/-! ## Batches -/

theorem edits_append (s : Sheet) (column : String) (first second : List ColumnEdit) :
    s.edits column (first ++ second) = (s.edits column first).bind (·.edits column second) := by
  induction first generalizing s with
  | nil => rfl
  | cons e rest ih =>
    rw [List.cons_append, edits, edits]
    cases s.edit column e with
    | error e => rfl
    | ok t => exact ih t

/-- Edits read neither the tag cache nor the stamp of the last change. -/
theorem unnoticed_refreshed (cache : TagCache) (stamp : Stamp) (column : String) :
    Unnoticed column fun s => { s with tagCache := cache, updated := stamp } :=
  unnoticed_of (fun _ => rfl) (fun _ _ _ _ => rfl) (moveColumn_map (fun _ => rfl) fun _ _ => rfl)

/-- **A batch does what its parts do as two actions.** The column is there after the first part, and the second
part does not read what the first action refreshes. -/
theorem reduce_editColumn_append (s : Sheet) (column : String) (first second : List ColumnEdit)
    (before now : Stamp) :
    s.reduce (.editColumn column (first ++ second)) now =
      (s.reduce (.editColumn column first) before).bind (·.reduce (.editColumn column second) now) := by
  simp only [reduce, act, editColumn, edits_append]
  cases hcolumn : s.column column with
  | error e => rfl
  | ok c =>
    cases hfirst : s.edits column first with
    | error e => simp only [bind, Except.bind]
    | ok t =>
      have hmem : column ∈ t.columnIds := (edits_ids hfirst).2.mem_iff.mpr (mem_columnIds_of_column hcolumn)
      obtain ⟨c', hc'⟩ := column_of_mem hmem
      have hthere : Sheet.column { t.refreshTags with updated := before } column = .ok c' := hc'
      have hedits : Sheet.edits { t.refreshTags with updated := before } column second =
          (t.edits column second).map fun u => { u with tagCache := t.tagsInUse, updated := before } :=
        (unnoticed_refreshed t.tagsInUse before column).edits t second
      simp only [bind, Except.bind, hthere, hedits]
      cases t.edits column second <;> rfl

/-! ## Both -/

/-- **Cutting a run or a batch in two changes nothing.** A run fails in its first part exactly as this part does by
itself; it fails behind it exactly when the first part is accepted and the second one fails on what comes of it,
under the number that the first part has left; and otherwise it gives what the second part makes of the outcome of
the first. A batch is accepted, with one and the same sheet, exactly when its parts are accepted one after the
other, and otherwise fails as the first of the two that fails. -/
theorem replay_split (s : Sheet) (now : Stamp) (first second : List Action) :
    (∀ i e, s.replay (first ++ second) now = .error (i, e) ∧ i < first.length ↔
      s.replay first now = .error (i, e)) ∧
    (∀ j e, s.replay (first ++ second) now = .error (first.length + j, e) ↔
      ∃ t, s.replay first now = .ok t ∧ t.replay second now = .error (j, e)) ∧
    (∀ u, s.replay (first ++ second) now = .ok u ↔
      ∃ t, s.replay first now = .ok t ∧ t.replay second now = .ok u) ∧
    (∀ i e, s.replay (first ++ second) now = .error (i, e) → i < (first ++ second).length) ∧
    ∀ column (batch later : List ColumnEdit) (before : Stamp),
      (∀ u, s.reduce (.editColumn column (batch ++ later)) now = .ok u ↔
        ∃ t, s.reduce (.editColumn column batch) before = .ok t ∧
          t.reduce (.editColumn column later) now = .ok u) ∧
      ∀ e, s.reduce (.editColumn column (batch ++ later)) now = .error e ↔
        s.reduce (.editColumn column batch) before = .error e ∨
          ∃ t, s.reduce (.editColumn column batch) before = .ok t ∧
            t.reduce (.editColumn column later) now = .error e := by
  have hrun : s.replay (first ++ second) now =
      (s.replay first now).bind (·.replayFrom first.length now second) := by
    rw [replay, replayFrom_append, Nat.zero_add, replay]
  refine ⟨fun i e => ?_, fun j e => ?_, fun u => replay_append, fun i e => lt_of_replay_error,
    fun column batch later before => ?_⟩
  · rw [hrun]
    cases hfirst : s.replay first now with
    | error x => exact ⟨fun h => h.1, fun h => ⟨h, lt_of_replay_error (hfirst.trans h)⟩⟩
    | ok t =>
      constructor
      · rintro ⟨h, hlt⟩
        obtain ⟨k, rfl, -⟩ := (replayFrom_error_iff first.length).mp h
        omega
      · intro h
        cases h
  · rw [hrun]
    cases hfirst : s.replay first now with
    | error x =>
      constructor
      · intro h
        obtain rfl : x = (first.length + j, e) := Except.error.inj h
        have hlt := lt_of_replay_error hfirst
        omega
      · rintro ⟨t, h, -⟩
        cases h
    | ok t =>
      simp only [Except.ok.injEq, exists_eq_left']
      refine (replayFrom_error_iff first.length).trans ⟨?_, fun h => ⟨j, rfl, h⟩⟩
      rintro ⟨k, hk, h⟩
      obtain rfl : j = k := by omega
      exact h
  · rw [reduce_editColumn_append s column batch later before now]
    cases s.reduce (.editColumn column batch) before <;> simp [Except.bind]

/-- A run that is cut behind two actions, where the fourth one is refused, and a batch whose second part is. -/
theorem replay_split_labelled :
    labelled.replay ([.addRow "q", .updateCell "q" "t" "c"] ++ [.addRow "p", .addRow "q"]) default =
        .error (3, .duplicateRow "q") ∧
      3 < [Action.addRow "q", .updateCell "q" "t" "c", .addRow "p", .addRow "q"].length ∧
      labelled.reduce (.editColumn "n" ([.changeType "tags"] ++ [.formula "1" .expression])) default =
        .error (.notFormulaColumn "n") := by
  have hrun : labelled.replay ([.addRow "q", .updateCell "q" "t" "c"] ++ [.addRow "p", .addRow "q"]) default =
      .error (3, .duplicateRow "q") := rfl
  obtain ⟨-, -, -, hlt, hbatch⟩ :=
    replay_split labelled default [.addRow "q", .updateCell "q" "t" "c"] [.addRow "p", .addRow "q"]
  refine ⟨hrun, hlt 3 _ hrun, ((hbatch "n" _ _ default).2 _).mpr (.inr ⟨_, rfl, rfl⟩)⟩

end Worksheet.Sheet
