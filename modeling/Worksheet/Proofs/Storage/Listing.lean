import Mathlib.Data.Int.Order.Basic
import Mathlib.Data.List.Lex
import Mathlib.Data.String.Basic
import Worksheet.Proofs.Storage.Operation
/-!
# Listing a store

A store keeps its sheets in no order that can be relied on. A listing has one nevertheless: the oldest sheet comes
first, and ids, which no two sheets share, decide between sheets of one moment.

* `Stamp.before_trichotomy`: stamps are in the order of time, and no two of them at one place;
* `SheetMeta.Earlier`: the order of a listing, strictly;
* `Store.Lists`: what a listing has to be;
* **`listing_canonical`**: sheets that come in any order are listed in the same way, the only one that there is.
-/

namespace Worksheet

/-! ## The order of time -/

namespace Stamp

variable {s t u : Stamp}

theorem parts_injective : Function.Injective parts := by
  intro s t h
  obtain ⟨⟨year, month, day⟩, hour, minute, second, nanosecond, _⟩ := s
  obtain ⟨⟨year', month', day'⟩, hour', minute', second', nanosecond', _⟩ := t
  simp only [parts, List.cons.injEq, Int.natCast_inj, and_true] at h
  obtain ⟨rfl, rfl, rfl, rfl, rfl, rfl, rfl⟩ := h
  rfl

theorem before_iff : s.before t = true ↔ s.parts < t.parts :=
  decide_eq_true_iff

theorem not_before_self (s : Stamp) : ¬ s.before s = true := by
  rw [before_iff]
  exact lt_irrefl s.parts

theorem before_trans (h : s.before t = true) (h' : t.before u = true) : s.before u = true := by
  rw [before_iff] at *
  exact lt_trans h h'

/-- **Of two stamps one is before the other, or they are the same.** -/
theorem before_trichotomy (s t : Stamp) : s.before t = true ∨ s = t ∨ t.before s = true := by
  rw [before_iff, before_iff, ← parts_injective.eq_iff]
  exact lt_trichotomy s.parts t.parts

end Stamp

/-! ## The order of a listing -/

namespace SheetMeta

variable {a b c : SheetMeta}

/-- The first sheet is older than the second one, or of the same moment and with the smaller id. -/
def Earlier (a b : SheetMeta) : Prop :=
  a.created.before b.created = true ∨ a.created = b.created ∧ a.id < b.id

instance (a b : SheetMeta) : Decidable (a.Earlier b) :=
  inferInstanceAs (Decidable (_ ∨ _))

theorem precedes_iff : a.precedes b = true ↔ a.Earlier b ∨ a.created = b.created ∧ a.id = b.id := by
  rw [precedes, Bool.or_eq_true, Bool.and_eq_true, beq_iff_eq, decide_eq_true_iff, Earlier, or_assoc, ← and_or_left,
    ← le_iff_lt_or_eq]

theorem Earlier.trans (h : a.Earlier b) (h' : b.Earlier c) : a.Earlier c := by
  rcases h with h | ⟨h, hid⟩ <;> rcases h' with h' | ⟨h', hid'⟩
  · exact .inl (Stamp.before_trans h h')
  · exact .inl (h' ▸ h)
  · exact .inl (h ▸ h')
  · exact .inr ⟨h.trans h', String.lt_trans hid hid'⟩

theorem not_earlier_self (a : SheetMeta) : ¬ a.Earlier a := by
  rintro (h | ⟨-, hid⟩)
  · exact Stamp.not_before_self _ h
  · exact String.lt_irrefl _ hid

/-- **Of two metas one is earlier than the other, or they stand at the same place.** -/
theorem earlier_trichotomy (a b : SheetMeta) :
    a.Earlier b ∨ (a.created = b.created ∧ a.id = b.id) ∨ b.Earlier a := by
  rcases Stamp.before_trichotomy a.created b.created with h | h | h
  · exact .inl (.inl h)
  · rcases lt_trichotomy a.id b.id with hid | hid | hid
    · exact .inl (.inr ⟨h, hid⟩)
    · exact .inr (.inl ⟨h, hid⟩)
    · exact .inr (.inr (.inr ⟨h.symm, hid⟩))
  · exact .inr (.inr (.inl h))

theorem precedes_trans (h : a.precedes b = true) (h' : b.precedes c = true) : a.precedes c = true := by
  rw [precedes_iff] at *
  rcases h with h | ⟨h, hid⟩
  · rcases h' with h' | ⟨h', hid'⟩
    · exact .inl (h.trans h')
    · rw [Earlier, ← h', ← hid']
      exact .inl h
  · rw [Earlier, h, hid]
    exact h'

theorem precedes_total (a b : SheetMeta) : (a.precedes b || b.precedes a) = true := by
  rw [Bool.or_eq_true, precedes_iff, precedes_iff]
  rcases earlier_trichotomy a b with h | h | h
  · exact .inl (.inl h)
  · exact .inl (.inr h)
  · exact .inr (.inl h)

end SheetMeta

/-! ## Listings -/

namespace Store

/-- The list shows every sheet of the store once, the oldest sheet first and sheets of one moment by their ids. -/
structure Lists (s : Store) (metas : List SheetMeta) : Prop where
  sheets : metas.Perm (s.sheets.values.map Sheet.toMeta)
  order : metas.Pairwise SheetMeta.Earlier

variable {s : Store} {sheets : List Sheet} {metas : List SheetMeta}

theorem Keyed.ids (hs : s.Keyed) : s.sheets.values.map Sheet.id = s.sheets.keys := by
  rw [Dict.values, Dict.keys, List.map_map]
  refine List.map_congr_left fun e he => ?_
  exact hs e.1 e.2 (Dict.find?_eq_some_iff.mpr he)

theorem Lists.unique {metas' : List SheetMeta} (h : s.Lists metas) (h' : s.Lists metas') : metas = metas' :=
  List.Perm.eq_of_pairwise (fun _ _ _ _ hab hba => absurd (hab.trans hba) (SheetMeta.not_earlier_self _))
    h.order h'.order (h.sheets.trans h'.sheets.symm)

/-- **Sheets under their own ids are listed right**, in whatever order they come. -/
theorem Keyed.lists_listingOf (hs : s.Keyed) (h : sheets.Perm s.sheets.values) : s.Lists (listingOf sheets) := by
  have hperm : (listingOf sheets).Perm (s.sheets.values.map Sheet.toMeta) :=
    (List.mergeSort_perm _ _).trans (h.map _)
  refine ⟨hperm, ?_⟩
  have hids : ((listingOf sheets).map SheetMeta.id).Nodup := by
    rw [(hperm.map SheetMeta.id).nodup_iff, List.map_map]
    exact hs.ids ▸ s.sheets.nodup_keys
  have hsorted : (listingOf sheets).Pairwise fun a b => a.precedes b = true :=
    List.pairwise_mergeSort (fun a b c => @SheetMeta.precedes_trans a b c) SheetMeta.precedes_total _
  -- no two metas share an id, so that one of two comes strictly before the other
  refine (hsorted.and (List.pairwise_map.mp hids)).imp fun ⟨hle, hne⟩ => ?_
  exact (SheetMeta.precedes_iff.mp hle).resolve_right fun heq => hne heq.2

/-- **The listing of a store is the only one that there is.** After any history of a store that starts empty, sheets
that come in any order are listed as those of the store are. The listing shows each sheet once, in strictly increasing
order of creation and id, and no other list does. -/
theorem listing_canonical (history : List (Stamp × Operation))
    (h : sheets.Perm (empty.performAll history).sheets.values) :
    listingOf sheets = (empty.performAll history).listing ∧
      ∀ metas, (empty.performAll history).Lists metas ↔ metas = listingOf sheets := by
  have hkeyed := keyed_performAll history
  have hlists := hkeyed.lists_listingOf h
  refine ⟨hlists.unique (hkeyed.lists_listingOf (List.Perm.refl _)), fun metas => ⟨fun hmetas => ?_, ?_⟩⟩
  · exact hmetas.unique hlists
  · rintro rfl
    exact hlists

/-- A day later than the epoch. -/
def secondDay : Stamp :=
  ⟨⟨1970, 1, 2⟩, 0, 0, 0, 0, by decide⟩

/-- Two sheets of one moment and an older one, which takes the place of another. A fourth one is deleted. -/
def arrivals : List (Stamp × Operation) :=
  [(secondDay, .create "c" "Draft"), (secondDay, .create "b" "Tasks"), (secondDay, .create "a" "Notes"),
    (secondDay, .create "d" "Gone"), (secondDay, .importSheet (Sheet.new "c" "Archive" Stamp.epoch)),
    (secondDay, .rename "b" "Work"), (secondDay, .update "a" (.addRow "r")), (secondDay, .delete "d")]

theorem listing_canonical_arrivals : ∃ sheets,
    sheets.Perm (empty.performAll arrivals).sheets.values ∧ sheets ≠ (empty.performAll arrivals).sheets.values ∧
      listingOf sheets = (empty.performAll arrivals).listing ∧
      listingOf sheets = [⟨"c", "Archive", Stamp.epoch, Stamp.epoch⟩, ⟨"a", "Notes", secondDay, secondDay⟩,
        ⟨"b", "Work", secondDay, secondDay⟩] := by
  refine ⟨(empty.performAll arrivals).sheets.values.reverse, List.reverse_perm _, by decide, ?_⟩
  obtain ⟨hlisting, hcanonical⟩ := listing_canonical arrivals (List.reverse_perm _)
  exact ⟨hlisting, ((hcanonical _).mp ⟨by decide, by decide⟩).symm⟩

end Store

end Worksheet
