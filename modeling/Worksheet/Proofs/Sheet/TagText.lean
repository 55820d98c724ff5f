import Worksheet.Proofs.Sheet.Tags
/-!
# The clean text of tags

A text has one clean form for each list of tags that can be read from a text.

* `pairwise_eraseDups_filter`: the first of equal members stays;
* `splitAtCommas_eq`, `readOff_parse`: the tags in a text, by the pieces between its commas;
* `parse_clean`, `clean_inj`: a clean text has the same tags, and the tags are all that it keeps;
* **`clean_normalForm`**: the clean form of a text.
-/

namespace Worksheet

open Text

/-- Members that are kept once stay in the order in which they come first. -/
theorem pairwise_eraseDups_filter {α : Type} [DecidableEq α] (l : List α) (p : α → Bool) :
    (l.filter p).eraseDups.Pairwise fun a b => l.idxOf a < l.idxOf b := by
  induction l generalizing p with
  | nil => exact .nil
  | cons c l ih =>
    -- Every other member comes one place later than in the rest of the list.
    have hlater : ∀ {q : α → Bool}, q c = false →
        (l.filter q).eraseDups.Pairwise fun a b => (c :: l).idxOf a < (c :: l).idxOf b := by
      intro q hq
      have hother : ∀ a ∈ (l.filter q).eraseDups, (c :: l).idxOf a = l.idxOf a + 1 := by
        intro a ha
        have hqa := (List.mem_filter.mp (List.mem_eraseDups.mp ha)).2
        refine List.idxOf_cons_ne l ?_
        rintro rfl
        rw [hq] at hqa
        cases hqa
      refine (ih q).imp_of_mem fun {a b} ha hb hlt => ?_
      rw [hother a ha, hother b hb]
      exact Nat.succ_lt_succ hlt
    cases hc : p c with
    | false =>
      rw [List.filter_cons_of_neg (by simp [hc])]
      exact hlater hc
    | true =>
      rw [List.filter_cons_of_pos hc, List.eraseDups_cons, List.filter_filter]
      refine List.pairwise_cons.mpr ⟨fun b hb => ?_, hlater (by simp)⟩
      have hne : b ≠ c := by
        have hkept := (List.mem_filter.mp (List.mem_eraseDups.mp hb)).2
        simpa using (Bool.and_eq_true_iff.mp hkept).1
      rw [List.idxOf_cons_self, List.idxOf_cons_ne l hne.symm]
      exact Nat.succ_pos _

namespace Tags

variable {s t tag : String}

/-! ## Pieces -/

theorem splitAtCommas_eq (cs : List Char) : splitAtCommas cs = cs.splitOn ',' := by
  fun_induction splitAtCommas cs with
  | case1 => rfl
  | case2 rest ih => rw [List.splitOn_cons_eq_if_modifyHead, if_pos (beq_self_eq_true _), ih]
  | case3 c rest hc hrest => exact absurd hrest (splitAtCommas_ne_nil rest)
  | case4 c rest hc piece others hrest ih =>
    have hcomma : ¬ (c == ',') = true := by simpa using hc
    rw [List.splitOn_cons_eq_if_modifyHead, if_neg hcomma, ← ih, hrest]
    rfl

/-- The pieces of a text between its commas, trimmed. -/
def trimmedPieces (s : String) : List String :=
  (s.toList.splitOn ',').map fun piece => String.ofList (trim piece)

theorem pieces_toList (s : String) : pieces s.toList = trimmedPieces s := by
  rw [pieces, splitAtCommas_eq, trimmedPieces]

/-- The tags are the trimmed pieces of the text that are not empty, each once and in the order in which they come first. -/
structure ReadOff (s : String) (tags : List String) : Prop where
  isTag : ∀ tag ∈ tags, IsTag tag
  nodup : tags.Nodup
  mem : ∀ tag, tag ∈ tags ↔ tag ∈ trimmedPieces s ∧ tag ≠ ""
  order : tags.Pairwise fun a b => (trimmedPieces s).idxOf a < (trimmedPieces s).idxOf b

theorem readOff_parse (s : String) : ReadOff s (parse s) where
  isTag _ := isTag_of_mem_parse
  nodup := nodup_distinct _
  mem tag := by rw [parse_eq, mem_distinct, pieces_toList]
  order := by
    rw [parse_eq, distinct, pieces_toList]
    exact pairwise_eraseDups_filter _ _

theorem isTag_iff (tag : String) : IsTag tag ↔ tag ≠ "" ∧ ',' ∉ tag.toList ∧
    (∀ c ∈ tag.toList.head?, isBlank c = false) ∧ ∀ c ∈ tag.toList.getLast?, isBlank c = false := by
  rw [← trim_eq_self_iff]
  exact ⟨fun h => ⟨h.ne_empty, h.comma, h.trimmed⟩, fun h => ⟨h.1, h.2.1, h.2.2⟩⟩

/-! ## Clean texts -/

theorem parse_clean (s : String) : parse (clean s) = parse s :=
  parse_join (fun _ => isTag_of_mem_parse) (nodup_distinct _)

theorem clean_inj : clean s = clean t ↔ parse s = parse t := by
  refine ⟨fun h => ?_, congrArg join⟩
  rw [← parse_clean s, h, parse_clean]

/-- **The clean form of a text** has the tags of the text, which are read off it, and texts with the same tags have the same
clean form. A tag is a text with something in it, no comma and no white space at its ends. -/
theorem clean_normalForm (s : String) :
    ReadOff s (parse s) ∧
    (∀ tags : List String, tags.Nodup → (∀ tag ∈ tags, IsTag tag) → parse (join tags) = tags) ∧
    (∀ tag, IsTag tag ↔ tag ≠ "" ∧ ',' ∉ tag.toList ∧
      (∀ c ∈ tag.toList.head?, isBlank c = false) ∧ ∀ c ∈ tag.toList.getLast?, isBlank c = false) ∧
    parse (clean s) = parse s ∧ clean (clean s) = clean s ∧ ∀ t, clean s = clean t ↔ parse s = parse t :=
  ⟨readOff_parse s, fun _ hnodup htags => parse_join htags hnodup, isTag_iff, parse_clean s,
    congrArg join (parse_clean s), fun _ => clean_inj⟩

end Tags

end Worksheet
