import Worksheet.Proofs.Calculator.Transparent
import Worksheet.Proofs.Sheet.Inert
/-!
# Texts without a column do not count

What rows hold under ids that name no column shows neither in a run nor in the results of formulas.

* `compute_without`: a pass gives the same results with and without such texts;
* **`compute_replay_inert`**: two sheets that differ in such texts alone go on to do so, and have the same results
  before and after any run.
-/

namespace Worksheet

open Formula

namespace Sheet

variable {s : Sheet} {ids : String → Bool}

theorem inputsOf_without (hs : s.Loose ids) (r : Row) : s.inputsOf (r.without ids) = s.inputsOf r := by
  refine List.map_congr_left fun c hc => ?_
  have hid : ids c.id = false := hs c.id (List.mem_map_of_mem (List.mem_filter.mp hc).1)
  rw [Row.value?_without, hid]
  rfl

/-- Formula cells have the same keys and results with and without texts under loose ids. -/
theorem settled_formulaCells_without (hs : s.Loose ids) (timeout : Nat) :
    (s.without ids).formulaCells.map (fun c => (c.key, (s.without ids).settled timeout c)) =
      s.formulaCells.map fun c => (c.key, s.settled timeout c) := by
  rw [formulaCells, formulaCells, without, List.flatMap_map, List.map_flatMap, List.map_flatMap]
  refine List.flatMap_congr fun r _ => ?_
  have hcells : (s.without ids).formulaCellsOf (r.without ids) =
      (s.formulaCellsOf r).map ({ · with row := r.without ids }) :=
    formulaCellsOf_row s r (r.without ids)
  refine (congrArg _ hcells).trans ?_
  rw [List.map_map]
  refine List.map_congr_left fun c hc => ?_
  obtain rfl := (mem_formulaCellsOf.mp hc).1
  have hsettled : s.settled timeout c = (s.without ids).settled timeout { c with row := c.row.without ids } :=
    settled_congr rfl (inputsOf_without hs c.row).symm rfl hc
  exact congrArg (Prod.mk c.key) hsettled.symm

end Sheet

namespace Calculator

variable {s t : Sheet} {ids : String → Bool} {actions : List Action}

/-- **Texts under loose ids do not show in the results.** -/
theorem compute_without (hs : s.Loose ids) (timeout : Nat) :
    ((new timeout).compute (s.without ids)).1 = ((new timeout).compute s).1 := by
  rw [(compute_eq (sound_new timeout) s).1, (compute_eq (sound_new timeout) (s.without ids)).1]
  refine Eq.trans (congrArg _ (Sheet.settled_formulaCells_without hs timeout)) ?_
  rw [arrange, arrange, Sheet.without, List.map_map]
  rfl

theorem compute_congr (hs : s.Loose ids) (hst : s.without ids = t.without ids) (timeout : Nat) :
    ((new timeout).compute s).1 = ((new timeout).compute t).1 := by
  rw [← compute_without hs, hst, compute_without (hs.congr hst)]

/-- **Texts under ids that name no column are inert.** Take two sheets that are equal but for what their rows hold
under some loose ids, and a list of actions that adds no column under one of these ids. New calculators give the
same results for both. Either both sheets refuse the same action of the list for the same reason, or both accept
the list; then they are again equal but for texts under these ids, and new calculators give the same results. -/
theorem compute_replay_inert (hs : s.Loose ids) (hst : s.without ids = t.without ids)
    (hactions : ∀ a ∈ actions, ∀ id ∈ a.newColumn?, ids id = false) (now : Stamp) (timeout : Nat) :
    ((new timeout).compute s).1 = ((new timeout).compute t).1 ∧
      ((∃ s' t', s.replay actions now = .ok s' ∧ t.replay actions now = .ok t' ∧
          s'.without ids = t'.without ids ∧ ((new timeout).compute s').1 = ((new timeout).compute t').1) ∨
        ∃ index error, s.replay actions now = .error (index, error) ∧
          t.replay actions now = .error (index, error)) := by
  refine ⟨compute_congr hs hst timeout, ?_⟩
  rcases Sheet.cases_of_map_eq (Sheet.replay_without hs hst hactions now) with
    ⟨s', t', hs', ht', hst'⟩ | ⟨e, hs', ht'⟩
  · have hloose : s'.Loose ids := Sheet.replay_loose hs hactions hs'
    exact .inl ⟨s', t', hs', ht', hst', compute_congr hloose hst' timeout⟩
  · exact .inr ⟨e.1, e.2, hs', ht'⟩

/-- A sheet with an amount and a formula. What is left of a column of labels is given. -/
def billed (left : String) : Sheet :=
  { Sheet.new "s" "Bills" default with
    columns := [⟨"n", "Amount", .number⟩, ⟨"f", "Twice", .formula "Amount * 2" .expression⟩]
    rows := [⟨"r", Dict.ofList [("n", "3"), ("t", left)]⟩, ⟨"q", ∅⟩] }

/-- Actions that write under the id of the labels, take all tags away from amounts and add labels under another id. -/
def relabelled : List Action :=
  [.updateCell "q" "t" "x", .editColumn "n" [.changeType "tags", .tagRename ∅, .reorder 1],
    .addColumn "u" "Labels" "tags", .deleteColumn "f"]

theorem compute_replay_inert_billed : billed "a, b" ≠ billed "7" ∧
    ((new 1000).compute (billed "a, b")).1 = ((new 1000).compute (billed "7")).1 ∧
    ∃ s t, (billed "a, b").replay relabelled default = .ok s ∧ (billed "7").replay relabelled default = .ok t ∧
      s.without (· == "t") = t.without (· == "t") ∧ ((new 1000).compute s).1 = ((new 1000).compute t).1 := by
  have hs : (billed "a, b").Loose (· == "t") := by decide
  have hst : (billed "a, b").without (· == "t") = (billed "7").without (· == "t") := by decide
  have hactions : ∀ a ∈ relabelled, ∀ id ∈ a.newColumn?, (id == "t") = false := by decide
  obtain ⟨hcompute, hreplay⟩ := compute_replay_inert hs hst hactions default 1000
  obtain ⟨s, hs'⟩ : ∃ s, (billed "a, b").replay relabelled default = .ok s := ⟨_, rfl⟩
  refine ⟨by decide, hcompute, hreplay.resolve_right ?_⟩
  rintro ⟨index, error, herror, -⟩
  rw [hs'] at herror
  cases herror

end Calculator

end Worksheet
