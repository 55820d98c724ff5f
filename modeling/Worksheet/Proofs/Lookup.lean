import Mathlib.Data.List.Sort
import Worksheet.Dict
/-!
# Looking up in a dictionary

What `Dict.find?` gives after each operation. The keys are kept in order, so a dictionary is known by
its lookups.

* `find?_insert`, `find?_erase`, `find?_adjust`: one law for each operation;
* `find?_ofList_of_agree`: a list whose entries under one key agree;
* **`ext_find?`**: dictionaries with the same lookups are equal, and so are sets of texts with the same
  members (`TextSet.ext_keys`).
-/

namespace Worksheet

variable {α : Type _}

/-! ## Entries in order -/

theorem Entries.find?_put (key k : String) (value : α) (entries : List (String × α)) :
    (put key value entries).find? (·.1 == k) =
      if key = k then some (key, value) else entries.find? (·.1 == k) := by
  induction entries with
  | nil => by_cases h : key = k <;> simp [put, h]
  | cons head rest ih =>
    obtain ⟨k', v⟩ := head
    rw [put]
    by_cases hk : key = k
    · subst hk
      rw [if_pos rfl]
      split_ifs with h1 h2
      · simp
      · simp
      · rw [List.find?_cons_of_neg (by simpa using Ne.symm h2), ih, if_pos rfl]
    · rw [if_neg hk]
      split_ifs with h1 h2
      · rw [List.find?_cons_of_neg (by simpa using hk)]
      · subst h2
        rw [List.find?_cons_of_neg (by simpa using hk), List.find?_cons_of_neg (by simpa using hk)]
      · rw [List.find?_cons, List.find?_cons, ih, if_neg hk]

theorem Ascending.nodup_keys {entries : List (String × α)} (h : Ascending entries) :
    (entries.map (·.1)).Nodup := by
  rw [List.Nodup, List.pairwise_map]
  unfold Ascending at h
  refine h.imp fun {a b} hlt => ?_
  intro heq
  rw [heq] at hlt
  exact String.lt_irrefl b.1 hlt

theorem Ascending.nodup {entries : List (String × α)} (h : Ascending entries) : entries.Nodup :=
  h.nodup_keys.of_map

namespace Dict

variable {d e : Dict α} {k : String} {v : α}

theorem find?_eq_some_iff : d.find? k = some v ↔ (k, v) ∈ d.entries := by
  rw [find?, Option.map_eq_some_iff]
  constructor
  · rintro ⟨⟨k', v'⟩, h, rfl⟩
    obtain rfl : k' = k := by simpa using List.find?_some h
    exact List.mem_of_find?_eq_some h
  · intro h
    obtain ⟨e, he⟩ := Option.isSome_iff_exists.mp
      (List.find?_isSome (p := fun e => e.1 == k).mpr ⟨(k, v), h, beq_self_eq_true k⟩)
    refine ⟨e, he, ?_⟩
    have hk : e.1 = (k, v).1 := by simpa using List.find?_some he
    rw [List.inj_on_of_nodup_map d.ascending.nodup_keys (List.mem_of_find?_eq_some he) h hk]

/-- **A dictionary is known by its lookups.** -/
theorem ext_find? (h : ∀ k, d.find? k = e.find? k) : d = e := by
  have hmem : ∀ p, p ∈ d.entries ↔ p ∈ e.entries := fun ⟨k, v⟩ => by
    rw [← find?_eq_some_iff, ← find?_eq_some_iff, h]
  have hperm := (List.perm_ext_iff_of_nodup d.ascending.nodup e.ascending.nodup).mpr hmem
  refine Dict.ext (hperm.eq_of_pairwise (fun a b _ _ hab hba => ?_) d.ascending e.ascending)
  exact absurd (String.lt_trans hab hba) (String.lt_irrefl _)

theorem contains_iff : d.contains k = true ↔ ∃ v, d.find? k = some v := by
  rw [contains, Option.isSome_iff_exists]

theorem mem_keys : k ∈ d.keys ↔ ∃ v, d.find? k = some v := by
  simp only [keys, List.mem_map, find?_eq_some_iff]
  constructor
  · rintro ⟨⟨k, v⟩, h, rfl⟩; exact ⟨v, h⟩
  · rintro ⟨v, h⟩; exact ⟨_, h, rfl⟩

theorem nodup_keys (d : Dict α) : d.keys.Nodup :=
  d.ascending.nodup_keys

theorem keys_ext {β : Type _} {e : Dict β} (h : ∀ k, k ∈ d.keys ↔ k ∈ e.keys) : d.keys = e.keys := by
  have hperm := (List.perm_ext_iff_of_nodup d.nodup_keys e.nodup_keys).mpr h
  have hd : d.keys.Pairwise (· < ·) := List.pairwise_map.mpr d.ascending
  have he : e.keys.Pairwise (· < ·) := List.pairwise_map.mpr e.ascending
  refine hperm.eq_of_pairwise (fun a b _ _ hab hba => ?_) hd he
  exact absurd (String.lt_trans hab hba) (String.lt_irrefl _)

/-! ## One law for each operation -/

@[simp] theorem find?_empty : (∅ : Dict α).find? k = none := rfl

theorem find?_insert (d : Dict α) (key : String) (value : α) (k : String) :
    (d.insert key value).find? k = if key = k then some value else d.find? k := by
  rw [find?, insert, Entries.find?_put]
  split_ifs <;> rfl

@[simp] theorem find?_insert_self (d : Dict α) (key : String) (value : α) :
    (d.insert key value).find? key = some value := by
  rw [find?_insert, if_pos rfl]

theorem find?_insert_of_ne (d : Dict α) {key k : String} (value : α) (h : key ≠ k) :
    (d.insert key value).find? k = d.find? k := by
  rw [find?_insert, if_neg h]

theorem find?_erase (d : Dict α) (key k : String) :
    (d.erase key).find? k = if key = k then none else d.find? k := by
  rw [find?, erase, List.find?_filter, find?]
  split_ifs with h
  · subst h; simp
  · congr 2
    funext e
    by_cases he : e.1 = k
    · simp [he, Ne.symm h]
    · simp [he]

theorem find?_adjust (d : Dict α) (key : String) (f : α → α) (k : String) :
    (d.adjust key f).find? k = if key = k then (d.find? k).map f else d.find? k := by
  rw [adjust]
  split <;> rename_i h
  · rw [find?_insert]
    split_ifs with hk
    · subst hk; rw [h, Option.map_some]
    · rfl
  · split_ifs with hk
    · subst hk; rw [h, Option.map_none]
    · rfl

theorem keys_adjust (d : Dict α) (key : String) (f : α → α) : (d.adjust key f).keys = d.keys := by
  refine keys_ext fun k => ?_
  rw [mem_keys, mem_keys, find?_adjust]
  split_ifs <;> simp [Option.map_eq_some_iff]

/-! ## Dictionaries of lists -/

theorem find?_insertAll (d : Dict α) (entries : List (String × α)) (k : String) :
    (d.insertAll entries).find? k =
      ((entries.reverse.find? (·.1 == k)).map (·.2)).or (d.find? k) := by
  induction entries generalizing d with
  | nil => simp [insertAll]
  | cons head rest ih =>
    change ((d.insert head.1 head.2).insertAll rest).find? k = _
    rw [ih, find?_insert, List.reverse_cons, List.find?_append]
    cases rest.reverse.find? (·.1 == k) with
    | some e => simp
    | none => by_cases h : head.1 = k <;> simp [h]

theorem find?_ofList (entries : List (String × α)) (k : String) :
    (ofList entries).find? k = (entries.reverse.find? (·.1 == k)).map (·.2) := by
  rw [ofList, find?_insertAll]
  exact Option.or_none

theorem find?_ofList_eq_none {entries : List (String × α)} (h : ∀ e ∈ entries, e.1 ≠ k) :
    (ofList entries).find? k = none := by
  rw [find?_ofList, Option.map_eq_none_iff, List.find?_eq_none]
  intro e he
  simpa using h e (List.mem_reverse.mp he)

/-- The entries under a key agree, so it does not matter which of them stays. -/
theorem find?_ofList_of_agree {entries : List (String × α)} (hmem : (k, v) ∈ entries)
    (hagree : ∀ e ∈ entries, e.1 = k → e.2 = v) : (ofList entries).find? k = some v := by
  rw [find?_ofList]
  obtain ⟨e, he⟩ := Option.isSome_iff_exists.mp (List.find?_isSome (p := fun e => e.1 == k).mpr
    ⟨(k, v), List.mem_reverse.mpr hmem, beq_self_eq_true k⟩)
  have hk : e.1 = k := by simpa using List.find?_some he
  rw [he, Option.map_some, hagree e (List.mem_reverse.mp (List.mem_of_find?_eq_some he)) hk]

end Dict

/-! ## Sets of texts -/

namespace TextSet

theorem mem_keys_ofList {keys : List String} {k : String} :
    k ∈ (Dict.ofList (keys.map (·, ()))).keys ↔ k ∈ keys := by
  rw [Dict.mem_keys]
  constructor
  · rintro ⟨v, h⟩
    by_contra hk
    rw [Dict.find?_ofList_eq_none] at h
    · exact absurd h (by simp)
    · intro e he
      obtain ⟨k', hk', rfl⟩ := List.mem_map.mp he
      exact fun heq => hk (heq ▸ hk')
  · intro h
    exact ⟨(), Dict.find?_ofList_of_agree (List.mem_map.mpr ⟨k, h, rfl⟩) fun _ _ _ => rfl⟩

/-- A set is known by its members. -/
theorem ext_keys {d e : TextSet} (h : ∀ k, k ∈ d.keys ↔ k ∈ e.keys) : d = e := by
  refine Dict.ext_find? fun k => ?_
  have hk := h k
  rw [Dict.mem_keys, Dict.mem_keys] at hk
  cases hd : d.find? k with
  | some u =>
    obtain ⟨v, hv⟩ := hk.mp ⟨u, hd⟩
    exact hv.symm
  | none =>
    refine (Option.eq_none_iff_forall_ne_some.mpr fun v hv => ?_).symm
    obtain ⟨u, hu⟩ := hk.mpr ⟨v, hv⟩
    rw [hd] at hu
    cases hu

end TextSet

end Worksheet
