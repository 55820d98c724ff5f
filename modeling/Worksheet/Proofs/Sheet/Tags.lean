import Mathlib.Data.List.Nodup
import Worksheet.Proofs.Lookup
import Worksheet.Proofs.Text.Trimmed
import Worksheet.Sheet.Tags
/-!
# Texts of tags

A tags cell is read as a list of tags and written as one text. Reading takes back what was written if each tag can
stand between commas.

* `IsTag`: what can be read as one tag;
* `isTag_of_mem_parse`: nothing else is ever read;
* **`parse_join`**: distinct tags are read as they were written;
* **`parse_replace`**: the tags in a text after some were replaced.
-/

namespace Worksheet

open Text

/-! ## Distinct members -/

section EraseDups

variable {α : Type} [DecidableEq α] {l : List α}

theorem nodup_eraseDups : ∀ l : List α, l.eraseDups.Nodup
  | [] => List.nodup_nil
  | a :: l => by
    rw [List.eraseDups_cons, List.nodup_cons]
    exact ⟨by simp, nodup_eraseDups _⟩
termination_by l => l.length
decreasing_by exact Nat.lt_succ_of_le (List.length_filter_le _ _)

theorem eraseDups_of_nodup (h : l.Nodup) : l.eraseDups = l := by
  induction l with
  | nil => rfl
  | cons a l ih =>
    obtain ⟨ha, hl⟩ := List.nodup_cons.mp h
    have hfilter : l.filter (fun b => !b == a) = l :=
      List.filter_eq_self.mpr fun b hb => by simpa using ne_of_mem_of_not_mem hb ha
    rw [List.eraseDups_cons, hfilter, ih hl]

end EraseDups

namespace Tags

variable {tag s : String} {tags : List String} {names : Dict String}

theorem mem_distinct : tag ∈ distinct tags ↔ tag ∈ tags ∧ tag ≠ "" := by
  rw [distinct, List.mem_eraseDups, List.mem_filter, bne_iff_ne]

theorem nodup_distinct (tags : List String) : (distinct tags).Nodup :=
  nodup_eraseDups _

theorem distinct_of_nodup (h : tags.Nodup) (hblank : "" ∉ tags) : distinct tags = tags := by
  have hfilter : tags.filter (· != "") = tags :=
    List.filter_eq_self.mpr fun tag htag => bne_iff_ne.mpr (ne_of_mem_of_not_mem htag hblank)
  rw [distinct, hfilter, eraseDups_of_nodup h]

/-! ## Pieces between commas -/

theorem splitAtCommas_of_not_mem {piece : List Char} (h : ',' ∉ piece) : splitAtCommas piece = [piece] := by
  induction piece with
  | nil => rfl
  | cons c piece ih =>
    obtain ⟨hc, hpiece⟩ := List.ne_and_not_mem_of_not_mem_cons h
    rw [splitAtCommas, ih hpiece]
    exact Ne.symm hc

theorem splitAtCommas_append {piece : List Char} (h : ',' ∉ piece) (rest : List Char) :
    splitAtCommas (piece ++ ',' :: rest) = piece :: splitAtCommas rest := by
  induction piece with
  | nil => rfl
  | cons c piece ih =>
    obtain ⟨hc, hpiece⟩ := List.ne_and_not_mem_of_not_mem_cons h
    rw [List.cons_append, splitAtCommas, ih hpiece]
    exact Ne.symm hc

theorem splitAtCommas_ne_nil (cs : List Char) : splitAtCommas cs ≠ [] := by
  fun_cases splitAtCommas cs <;> exact List.cons_ne_nil _ _

theorem comma_not_mem_of_mem (cs : List Char) : ∀ piece ∈ splitAtCommas cs, ',' ∉ piece := by
  fun_induction splitAtCommas cs with
  | case1 => simp
  | case2 rest ih => simpa using ih
  | case3 c rest hc hrest ih => simpa using Ne.symm hc
  | case4 c rest hc piece others hrest ih =>
    rw [hrest] at ih
    obtain ⟨hpiece, hothers⟩ := List.forall_mem_cons.mp ih
    exact List.forall_mem_cons.mpr ⟨List.not_mem_cons_of_ne_of_not_mem (Ne.symm hc) hpiece, hothers⟩

/-- The trimmed pieces of a text, those included that are no tags. -/
def pieces (cs : List Char) : List String :=
  (splitAtCommas cs).map fun piece => String.ofList (trim piece)

theorem parse_eq (s : String) : parse s = distinct (pieces s.toList) := rfl

theorem pieces_append {piece : List Char} (h : ',' ∉ piece) (rest : List Char) :
    pieces (piece ++ ',' :: rest) = String.ofList (trim piece) :: pieces rest := by
  rw [pieces, splitAtCommas_append h, List.map_cons, pieces]

theorem pieces_cons_blank {c : Char} (hc : isBlank c = true) (cs : List Char) : pieces (c :: cs) = pieces cs := by
  have hcomma : c ≠ ',' := by
    rintro rfl
    exact absurd hc (by decide)
  rw [pieces, pieces, splitAtCommas]
  · cases hcs : splitAtCommas cs with
    | nil => exact absurd hcs (splitAtCommas_ne_nil cs)
    | cons piece others => rw [List.map_cons, List.map_cons, trim_cons_blank hc]
  · exact hcomma

/-! ## Reading what was written -/

/-- A text that can be read as one tag. -/
structure IsTag (tag : String) : Prop where
  ne_empty : tag ≠ ""
  comma : ',' ∉ tag.toList
  trimmed : trim tag.toList = tag.toList

instance (tag : String) : Decidable (IsTag tag) :=
  decidable_of_iff (tag ≠ "" ∧ ',' ∉ tag.toList ∧ trim tag.toList = tag.toList)
    ⟨fun ⟨h1, h2, h3⟩ => ⟨h1, h2, h3⟩, fun h => ⟨h.ne_empty, h.comma, h.trimmed⟩⟩

theorem isTag_of_mem_parse (h : tag ∈ parse s) : IsTag tag := by
  obtain ⟨hmem, hne⟩ := mem_distinct.mp h
  obtain ⟨piece, hpiece, rfl⟩ := List.mem_map.mp hmem
  refine ⟨hne, ?_, ?_⟩
  · rw [String.toList_ofList]
    exact fun hcomma => comma_not_mem_of_mem _ piece hpiece ((trim_sublist piece).mem hcomma)
  · rw [String.toList_ofList, trim_trim]

theorem IsTag.ofList_trim (h : IsTag tag) : String.ofList (trim tag.toList) = tag := by
  rw [h.trimmed, String.ofList_toList]

theorem pieces_join (h : ∀ tag ∈ tags, IsTag tag) (hne : tags ≠ []) : pieces (join tags).toList = tags := by
  induction tags with
  | nil => exact absurd rfl hne
  | cons a tags ih =>
    obtain ⟨ha, htags⟩ := List.forall_mem_cons.mp h
    cases tags with
    | nil =>
      rw [join, String.intercalate_singleton, pieces, splitAtCommas_of_not_mem ha.comma, List.map_singleton,
        ha.ofList_trim]
    | cons b tags =>
      have hjoin : (join (a :: b :: tags)).toList = a.toList ++ ',' :: ' ' :: (join (b :: tags)).toList := by
        rw [join, String.intercalate_cons_cons, String.toList_append, String.toList_append, List.append_assoc]
        rfl
      rw [hjoin, pieces_append ha.comma, pieces_cons_blank (by decide), ih htags (List.cons_ne_nil _ _),
        ha.ofList_trim]

/-- **Distinct tags are read as they were written.** -/
theorem parse_join (h : ∀ tag ∈ tags, IsTag tag) (hnodup : tags.Nodup) : parse (join tags) = tags := by
  by_cases hne : tags = []
  · subst hne
    rfl
  · rw [parse_eq, pieces_join h hne, distinct_of_nodup hnodup fun hmem => (h _ hmem).ne_empty rfl]

theorem clean_join (h : ∀ tag ∈ tags, IsTag tag) (hnodup : tags.Nodup) : clean (join tags) = join tags := by
  rw [clean, parse_join h hnodup]

/-! ## Other tags in the place of some -/

/-- The text that takes the place of a tag. -/
def image (names : Dict String) (tag : String) : String :=
  (names.find? tag).getD tag

theorem isTag_replaced (h : ∀ tag ∈ parse s, image names tag ≠ "" → IsTag (image names tag))
    (htag : tag ∈ distinct ((parse s).map (image names))) : IsTag tag := by
  obtain ⟨hmem, hne⟩ := mem_distinct.mp htag
  obtain ⟨old, hold, rfl⟩ := List.mem_map.mp hmem
  exact h old hold hne

/-- **The tags in a text after some were replaced.** -/
theorem parse_replace (h : ∀ tag ∈ parse s, image names tag ≠ "" → IsTag (image names tag)) :
    parse (replace names s) = distinct ((parse s).map (image names)) :=
  parse_join (fun _ => isTag_replaced h) (nodup_distinct _)

theorem clean_replace (h : ∀ tag ∈ parse s, image names tag ≠ "" → IsTag (image names tag)) :
    clean (replace names s) = replace names s :=
  clean_join (fun _ => isTag_replaced h) (nodup_distinct _)

end Tags

end Worksheet
