/-!
# Dictionaries

A finite map from texts to values. The entries are kept in strictly increasing order of their keys,
by code point, so two dictionaries with the same content are equal, and listing one gives its keys
in order.

* `Dict` with `find?`, `insert`, `erase`, `keys`, `values`, `mapValues`;
* `Dict.ofList` keeps the last entry of each key.
-/

namespace Worksheet

/-- Entries with strictly increasing keys. -/
def Ascending {α : Type _} (entries : List (String × α)) : Prop :=
  entries.Pairwise fun a b => a.1 < b.1

instance {α : Type _} (entries : List (String × α)) : Decidable (Ascending entries) :=
  inferInstanceAs (Decidable (List.Pairwise _ _))

namespace Entries

variable {α : Type _}

/-- Puts a value under a key, in place of the one that was there. -/
def put (key : String) (value : α) : List (String × α) → List (String × α)
  | [] => [(key, value)]
  | (k, v) :: rest =>
    if key < k then (key, value) :: (k, v) :: rest
    else if key = k then (key, value) :: rest
    else (k, v) :: put key value rest

theorem mem_put {key : String} {value : α} {entries : List (String × α)} {e : String × α}
    (h : e ∈ put key value entries) : e = (key, value) ∨ e ∈ entries := by
  induction entries with
  | nil => simp_all [put]
  | cons head rest ih =>
    obtain ⟨k, v⟩ := head
    rw [put] at h
    split at h
    · simpa using h
    · split at h
      · simp only [List.mem_cons] at h ⊢
        rcases h with h | h
        · exact .inl h
        · exact .inr (.inr h)
      · simp only [List.mem_cons] at h ⊢
        rcases h with h | h
        · exact .inr (.inl h)
        · rcases ih h with h | h
          · exact .inl h
          · exact .inr (.inr h)

theorem ascending_put (key : String) (value : α) {entries : List (String × α)}
    (h : Ascending entries) : Ascending (put key value entries) := by
  induction entries with
  | nil => simp [put, Ascending]
  | cons head rest ih =>
    obtain ⟨k, v⟩ := head
    have hrest : Ascending rest := (List.pairwise_cons.1 h).2
    have hhead : ∀ e ∈ rest, k < e.1 := (List.pairwise_cons.1 h).1
    rw [put]
    split
    · rename_i hlt
      refine List.pairwise_cons.2 ⟨fun e he => ?_, h⟩
      rcases List.mem_cons.1 he with rfl | he
      · exact hlt
      · exact String.lt_trans hlt (hhead e he)
    · split
      · rename_i heq
        exact List.pairwise_cons.2 ⟨fun e he => heq ▸ hhead e he, hrest⟩
      · rename_i hnlt hne
        refine List.pairwise_cons.2 ⟨fun e he => ?_, ih hrest⟩
        rcases mem_put he with rfl | he
        · by_cases hk : k < key
          · exact hk
          · exact absurd (String.le_antisymm (String.not_lt.1 hk) (String.not_lt.1 hnlt)) hne
        · exact hhead e he

end Entries

/-- A finite map from texts, its keys in increasing order. -/
structure Dict (α : Type _) where
  /-- The entries, in increasing order of their keys. -/
  entries : List (String × α)
  ascending : Ascending entries
  deriving DecidableEq

namespace Dict

variable {α β : Type _}

/-- No entry. -/
def empty : Dict α :=
  ⟨[], List.Pairwise.nil⟩

instance : EmptyCollection (Dict α) := ⟨empty⟩
instance : Inhabited (Dict α) := ⟨empty⟩

/-- The value under a key. -/
def find? (d : Dict α) (key : String) : Option α :=
  (d.entries.find? (·.1 == key)).map (·.2)

/-- Some value stands under the key. -/
def contains (d : Dict α) (key : String) : Bool :=
  (d.find? key).isSome

/-- Puts a value under a key, in place of the one that was there. -/
def insert (d : Dict α) (key : String) (value : α) : Dict α :=
  ⟨Entries.put key value d.entries, Entries.ascending_put key value d.ascending⟩

/-- Drops what stands under a key. -/
def erase (d : Dict α) (key : String) : Dict α :=
  ⟨d.entries.filter (·.1 != key), d.ascending.sublist List.filter_sublist⟩

/-- The keys, in increasing order. -/
def keys (d : Dict α) : List String :=
  d.entries.map (·.1)

/-- The values, in the order of their keys. -/
def values (d : Dict α) : List α :=
  d.entries.map (·.2)

/-- The number of entries. -/
def size (d : Dict α) : Nat :=
  d.entries.length

/-- Applies a function to every value. -/
def mapValues (f : α → β) (d : Dict α) : Dict β :=
  ⟨d.entries.map fun e => (e.1, f e.2), by
    have h := d.ascending
    unfold Ascending at h ⊢
    rw [List.pairwise_map]
    exact h⟩

/-- Applies a function to the value under one key, if there is one. -/
def adjust (key : String) (f : α → α) (d : Dict α) : Dict α :=
  match d.find? key with
  | some value => d.insert key (f value)
  | none => d

/-- Adds entries one after the other, so that the last one of a key stays. -/
def insertAll (d : Dict α) (entries : List (String × α)) : Dict α :=
  entries.foldl (fun d e => d.insert e.1 e.2) d

/-- The dictionary of a list of entries; the last one of a key stays. -/
def ofList (entries : List (String × α)) : Dict α :=
  insertAll empty entries

@[ext] theorem ext {d e : Dict α} (h : d.entries = e.entries) : d = e := by
  cases d; cases e; simp_all

end Dict

/-- A set of texts, listed in increasing order. -/
abbrev TextSet : Type :=
  Dict Unit

end Worksheet
