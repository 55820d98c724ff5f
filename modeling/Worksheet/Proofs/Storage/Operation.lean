import Worksheet.Proofs.Lookup
import Worksheet.Proofs.Sheet.Frame
import Worksheet.Storage.Store
/-!
# Operations of a store

The operations that change a store, as data, so that a history of them can be spoken of.

* `Store.Operation`, `Store.perform`, `Store.performAll`;
* `Store.Keyed`: every sheet is kept under its own id, which every history sees to
  (`keyed_performAll`);
* `Store.Operation.Spares`: the operation does nothing to a sheet but rename it (`perform_spares`).
-/

namespace Worksheet.Store

/-- An operation that changes a store. -/
inductive Operation
  | create (id title : String)
  | importSheet (sheet : Sheet)
  | rename (id name : String)
  | delete (id : String)
  | update (id : String) (a : Action)

/-- The store that an operation leads to, or the old one if it is refused. -/
def orSame (s : Store) : Except SheetError Store → Store
  | .ok t => t
  | .error _ => s

/-- The store after an operation at a given time. -/
def perform (s : Store) (now : Stamp) : Operation → Store
  | .create id title => (s.create id title now).2
  | .importSheet sheet => (s.importSheet sheet).2
  | .rename id name => s.orSame (s.rename id name)
  | .delete id => s.orSame (s.delete id)
  | .update id a => s.orSame ((s.update id a now).map (·.2))

/-- The store after a history of operations, each with its time. -/
def performAll (s : Store) (history : List (Stamp × Operation)) : Store :=
  history.foldl (fun s o => s.perform o.1 o.2) s

/-- The operation does not touch the sheet of the id, unless it renames it. -/
def Operation.Spares (id : String) : Operation → Prop
  | create id' _ => id' ≠ id
  | importSheet sheet => sheet.id ≠ id
  | rename _ _ => True
  | delete id' => id' ≠ id
  | update id' _ => id' ≠ id

variable {s t : Store} {id : String} {sheet next : Sheet} {a : Action} {now : Stamp}

/-! ## One operation -/

theorem get_ok : s.get id = .ok sheet ↔ s.sheets.find? id = some sheet := by
  rw [get]
  cases s.sheets.find? id <;> simp

theorem rename_ok {name : String} (h : s.rename id name = .ok t) :
    ∃ sheet, s.sheets.find? id = some sheet ∧ t = ⟨s.sheets.insert id { sheet with name := name }⟩ := by
  obtain ⟨sheet, hget, h⟩ := bind_ok h
  cases h
  exact ⟨sheet, get_ok.mp hget, rfl⟩

theorem delete_ok (h : s.delete id = .ok t) : t = ⟨s.sheets.erase id⟩ := by
  obtain ⟨sheet, -, h⟩ := bind_ok h
  cases h
  rfl

theorem update_ok : s.update id a now = .ok (next, t) ↔
    ∃ sheet, s.sheets.find? id = some sheet ∧ sheet.reduce a now = .ok next ∧
      t = ⟨s.sheets.insert id next⟩ := by
  constructor
  · intro h
    obtain ⟨sheet, hget, h⟩ := bind_ok h
    obtain ⟨next', hreduce, h⟩ := bind_ok h
    cases h
    exact ⟨sheet, get_ok.mp hget, hreduce, rfl⟩
  · rintro ⟨sheet, hfind, hreduce, rfl⟩
    rw [update, get_ok.mpr hfind]
    simp only [bind, Except.bind, hreduce]

/-! ## Sheets under their own ids -/

/-- Every sheet is kept under its own id. -/
def Keyed (s : Store) : Prop :=
  ∀ id sheet, s.sheets.find? id = some sheet → sheet.id = id

theorem keyed_empty : empty.Keyed := by
  intro id sheet h
  cases h

theorem Keyed.insert (hs : s.Keyed) (hid : sheet.id = id) : (Store.mk (s.sheets.insert id sheet)).Keyed := by
  intro id' sheet' h
  rw [Dict.find?_insert] at h
  split_ifs at h with heq
  · cases h
    exact hid.trans heq
  · exact hs _ _ h

theorem Keyed.erase (hs : s.Keyed) (id : String) : (Store.mk (s.sheets.erase id)).Keyed := by
  intro id' sheet' h
  rw [Dict.find?_erase] at h
  split_ifs at h
  exact hs _ _ h

theorem Keyed.orSame {r : Except SheetError Store} (hs : s.Keyed) (h : ∀ t, r = .ok t → t.Keyed) :
    (s.orSame r).Keyed := by
  cases r with
  | ok t => exact h t rfl
  | error e => exact hs

theorem Keyed.perform (hs : s.Keyed) (now : Stamp) (o : Operation) : (s.perform now o).Keyed := by
  cases o with
  | create id title => exact hs.insert rfl
  | importSheet sheet => exact hs.insert rfl
  | rename id name =>
    refine hs.orSame fun t h => ?_
    obtain ⟨sheet, hfind, rfl⟩ := rename_ok h
    exact hs.insert (show sheet.id = id from hs _ _ hfind)
  | delete id =>
    refine hs.orSame fun t h => ?_
    rw [delete_ok h]
    exact hs.erase id
  | update id a =>
    refine hs.orSame fun t h => ?_
    cases hupdate : s.update id a now with
    | error e =>
      rw [hupdate] at h
      cases h
    | ok r =>
      rw [hupdate] at h
      cases h
      obtain ⟨sheet, hfind, hreduce, ht⟩ := update_ok.mp hupdate
      show r.2.Keyed
      rw [ht]
      exact hs.insert ((Sheet.reduce_header hreduce).1.trans (hs _ _ hfind))

/-- A store that started empty keeps every sheet under its own id. -/
theorem keyed_performAll (history : List (Stamp × Operation)) : (empty.performAll history).Keyed := by
  have key : ∀ s : Store, s.Keyed → (s.performAll history).Keyed := by
    induction history with
    | nil => exact fun s hs => hs
    | cons o rest ih => exact fun s hs => ih _ (hs.perform o.1 o.2)
  exact key empty keyed_empty

/-! ## Operations on other sheets -/

/-- An operation that spares a sheet leaves all of it but the name. -/
theorem perform_spares {o : Operation} (ho : o.Spares id) (now : Stamp)
    (h : s.sheets.find? id = some sheet) :
    ∃ name, (s.perform now o).sheets.find? id = some { sheet with name := name } := by
  cases o with
  | create id' title => exact ⟨sheet.name, (Dict.find?_insert_of_ne _ _ ho).trans h⟩
  | importSheet sheet' => exact ⟨sheet.name, (Dict.find?_insert_of_ne _ _ ho).trans h⟩
  | rename id' name =>
    cases hrename : s.rename id' name with
    | error e => exact ⟨sheet.name, by rw [perform, hrename]; exact h⟩
    | ok t =>
      obtain ⟨sheet', hfind, rfl⟩ := rename_ok hrename
      rw [perform, hrename]
      by_cases hid : id' = id
      · subst hid
        obtain rfl : sheet = sheet' := Option.some.inj (h.symm.trans hfind)
        exact ⟨name, Dict.find?_insert_self _ _ _⟩
      · exact ⟨sheet.name, (Dict.find?_insert_of_ne _ _ hid).trans h⟩
  | delete id' =>
    refine ⟨sheet.name, ?_⟩
    cases hdelete : s.delete id' with
    | error e => rw [perform, hdelete]; exact h
    | ok t =>
      rw [perform, hdelete, delete_ok hdelete]
      refine (Dict.find?_erase _ _ _).trans ?_
      rw [if_neg ho]
      exact h
  | update id' a =>
    refine ⟨sheet.name, ?_⟩
    cases hupdate : s.update id' a now with
    | error e => rw [perform, hupdate]; exact h
    | ok r =>
      obtain ⟨sheet', -, -, ht⟩ := update_ok.mp hupdate
      rw [perform, hupdate]
      show r.2.sheets.find? id = some sheet
      rw [ht]
      exact (Dict.find?_insert_of_ne _ _ ho).trans h

end Worksheet.Store
