import Worksheet.Formula.Sandbox
import Worksheet.Proofs.Formula.ScriptLines
/-!
# Where an error is said to be

A failure is a chain: frames of calls, each with a place as far as it is known, around a cause. The error of the cell
names the deepest of these places that the author can see, and where there is none, the place of the cause.

* `Compiled.InLine`, `Compiled.Deepest`: places in the author's lines, and the deepest one of a chain;
* `Site`: a place as a message names it, with its wording `Site.text`;
* `Compiled.Sited`: the site that a failure has to be given;
* **`runtimeError_classified`**: the error of every failure.
-/

namespace Worksheet.Formula

/-- A place as a message names it. -/
inductive Site
  /-- A line of the formula, or the one right after it. -/
  | formula (line column : Nat)
  /-- A line of the script, under the name of the formula. -/
  | script (name : String) (line column : Nat)
  | nowhere

namespace Site

/-- What stands before the message. -/
def text : Site → String
  | formula line column => toString line ++ ":" ++ toString column ++ ": "
  | script name line column => name ++ ":" ++ toString line ++ ":" ++ toString column ++ ": "
  | nowhere => ""

/-- The column that is named. -/
def column? : Site → Option Nat
  | formula _ column => some column
  | script _ _ column => some column
  | nowhere => none

end Site

namespace Compiled

/-- The place lies in the author's line of the given number. -/
structure InLine (c : Compiled) (p : Place) (k : Nat) : Prop where
  number : 1 ≤ k ∧ k ≤ c.userLines
  line : p.line + 1 = c.firstUserLine + k

/-- Of the places of the chain that lie in the author's lines this is the deepest one. -/
def Deepest (c : Compiled) (f : Failure) (p : Place) : Prop :=
  (∃ k, c.InLine p k) ∧
    ∃ outer inner, f.places = outer ++ some p :: inner ∧ ∀ q, some q ∈ inner → ∀ k, ¬ c.InLine q k

/-- No place of the chain lies in the author's lines. -/
def Unseen (c : Compiled) (f : Failure) : Prop :=
  ∀ p, some p ∈ f.places → ∀ k, ¬ c.InLine p k

/-- The site that a failure has to be given: the deepest place in the author's lines, without the indentation of the
line. If there is none, it is the place of the cause, which lies before these lines, or after them, or is not known. -/
inductive Sited (c : Compiled) (f : Failure) : Site → Prop
  | inside {p : Place} {k : Nat} (hp : c.Deepest f p) (hk : c.InLine p k) :
    Sited c f (.formula k (max (p.column - c.indentWidth) 1))
  | before {p : Place} (hf : c.Unseen f) (hp : f.innermostPlace = some p) (hline : p.line < c.firstUserLine) :
    Sited c f (.script c.name p.line p.column)
  | after {p : Place} (hf : c.Unseen f) (hp : f.innermostPlace = some p)
    (hline : c.firstUserLine + c.userLines ≤ p.line) : Sited c f (.formula (c.userLines + 1) p.column)
  | nowhere (hf : c.Unseen f) (hp : f.innermostPlace = none) : Sited c f .nowhere

variable {c : Compiled} {f : Failure} {p : Place} {k : Nat} {site : Site}

/-! ## Places in the author's lines -/

theorem inLine_iff : c.InLine p k ↔ c.userLine? p.line = some k := by
  rw [userLine?_eq_some_iff]
  exact ⟨fun h => ⟨h.number.1, h.number.2, h.line⟩, fun ⟨hpos, hle, hline⟩ => ⟨⟨hpos, hle⟩, hline⟩⟩

theorem isUserPlace_iff : c.isUserPlace (some p) = true ↔ ∃ k, c.InLine p k := by
  rw [isUserPlace, Option.bind_some, Option.isSome_iff_exists]
  exact exists_congr fun k => inLine_iff.symm

theorem mem_places_of_innermostPlace (h : f.innermostPlace = some p) : some p ∈ f.places := by
  induction f with
  | cause x place => exact List.mem_singleton.mpr h.symm
  | inCall place inner ih => exact List.mem_cons_of_mem _ (ih h)

/-- The search from the inside out finds the deepest place. -/
theorem deepest_iff : c.Deepest f p ↔ f.places.reverse.find? c.isUserPlace = some (some p) := by
  rw [List.find?_eq_some_iff_append, isUserPlace_iff, Deepest]
  refine and_congr_right fun _ => ⟨?_, ?_⟩
  · rintro ⟨outer, inner, hplaces, hinner⟩
    refine ⟨inner.reverse, outer.reverse, by simp [hplaces], fun place hplace => ?_⟩
    cases place with
    | none => rfl
    | some q =>
      have hq : ¬ c.isUserPlace (some q) = true := fun huser => by
        obtain ⟨k, hk⟩ := isUserPlace_iff.mp huser
        exact hinner q (List.mem_reverse.mp hplace) k hk
      rw [Bool.not_eq_true] at hq
      rw [hq]
      rfl
  · rintro ⟨inner, outer, hplaces, hinner⟩
    refine ⟨outer.reverse, inner.reverse, ?_, fun q hq k hk => ?_⟩
    · rw [← List.reverse_reverse f.places, hplaces]
      simp
    · have := hinner _ (List.mem_reverse.mp hq)
      rw [isUserPlace_iff.mpr ⟨k, hk⟩] at this
      cases this

theorem unseen_iff : c.Unseen f ↔ f.places.reverse.find? c.isUserPlace = none := by
  rw [List.find?_eq_none, Unseen]
  constructor
  · intro h place hplace
    cases place with
    | none => exact Bool.false_ne_true
    | some p =>
      rw [isUserPlace_iff]
      rintro ⟨k, hk⟩
      exact h p (List.mem_reverse.mp hplace) k hk
  · intro h p hp k hk
    exact h _ (List.mem_reverse.mpr hp) (isUserPlace_iff.mpr ⟨k, hk⟩)

/-! ## Messages -/

theorem locate_inLine (h : c.InLine p k) (message : String) :
    c.locate (some p) message = (Site.formula k (max (p.column - c.indentWidth) 1)).text ++ message := by
  have hformula : c.formulaLine? p.line = some k := by
    obtain ⟨⟨hpos, hle⟩, hline⟩ := h
    rw [formulaLine?, if_pos (by omega), Option.some.injEq]
    omega
  simp only [locate, hformula, inLine_iff.mp h, Option.isSome_some, if_true, Site.text]

theorem locate_before (h : p.line < c.firstUserLine) (message : String) :
    c.locate (some p) message = (Site.script c.name p.line p.column).text ++ message := by
  have hformula : c.formulaLine? p.line = none := if_neg (by omega)
  simp only [locate, hformula, Site.text]

theorem locate_after (h : c.firstUserLine + c.userLines ≤ p.line) (message : String) :
    c.locate (some p) message = (Site.formula (c.userLines + 1) p.column).text ++ message := by
  have hformula : c.formulaLine? p.line = some (c.userLines + 1) := by
    rw [formulaLine?, if_pos (by omega), Option.some.injEq]
    omega
  have huser : c.userLine? p.line = none := if_neg (by omega)
  simp only [locate, hformula, huser, Option.isSome_none, Bool.false_eq_true, if_false, Site.text]

theorem locate_shownPlace (h : c.Sited f site) (message : String) :
    c.locate (c.shownPlace f) message = site.text ++ message := by
  cases h with
  | inside hp hk =>
    rw [shownPlace, deepest_iff.mp hp]
    exact locate_inLine hk message
  | before hf hp hline =>
    rw [shownPlace, unseen_iff.mp hf, Option.getD_none, hp, locate_before hline]
  | after hf hp hline =>
    rw [shownPlace, unseen_iff.mp hf, Option.getD_none, hp, locate_after hline]
  | nowhere hf hp =>
    rw [shownPlace, unseen_iff.mp hf, Option.getD_none, hp, locate, Site.text, String.empty_append]

theorem exists_sited (c : Compiled) (f : Failure) : ∃ site, c.Sited f site := by
  cases hfind : f.places.reverse.find? c.isUserPlace with
  | some place =>
    cases place with
    | none => cases (List.find?_some hfind)
    | some p =>
      have hp := deepest_iff.mpr hfind
      obtain ⟨k, hk⟩ := hp.1
      exact ⟨_, .inside hp hk⟩
  | none =>
    have hf := unseen_iff.mpr hfind
    cases hp : f.innermostPlace with
    | none => exact ⟨_, .nowhere hf hp⟩
    | some p =>
      by_cases hline : p.line < c.firstUserLine
      · exact ⟨_, .before hf hp hline⟩
      · refine ⟨_, .after hf hp (not_lt.mp fun hlt => ?_)⟩
        exact hf p (mem_places_of_innermostPlace hp) (p.line + 1 - c.firstUserLine) ⟨⟨by omega, by omega⟩, by omega⟩

theorem Sited.one_le_column (h : c.Sited f site) (hplaces : ∀ p, some p ∈ f.places → 1 ≤ p.line ∧ 1 ≤ p.column) :
    ∀ column, site.column? = some column → 1 ≤ column := by
  intro column hcolumn
  cases h with
  | inside hp hk =>
    cases hcolumn
    exact le_max_right _ _
  | before hf hp hline | after hf hp hline =>
    cases hcolumn
    exact (hplaces _ (mem_places_of_innermostPlace hp)).2
  | nowhere hf hp => cases hcolumn

theorem isTermination_iff : f.isTermination = true ↔ f.innermost = .terminated := by
  rw [Failure.isTermination]
  cases f.innermost <;> simp

/-- **The error of a failure.** Take any compiled formula and any chain of frames around a cause, with places whose
lines and columns are counted from one, as far as they are known. The formula has run for too long exactly if the cause
is that it was stopped. Otherwise there is a site that the failure has to be given, its column is one at least, and the
message is what the cause is called, with this site before it. -/
theorem runtimeError_classified (c : Compiled) (f : Failure)
    (hplaces : ∀ p, some p ∈ f.places → 1 ≤ p.line ∧ 1 ≤ p.column) :
    (c.runtimeError f = .timeout ↔ f.innermost = .terminated) ∧
      (f.innermost ≠ .terminated → (∃ site, c.Sited f site) ∧ ∀ site, c.Sited f site →
        (∀ column, site.column? = some column → 1 ≤ column) ∧
          c.runtimeError f = .runtime (site.text ++ f.innermost.message)) := by
  rw [← isTermination_iff, runtimeError]
  by_cases hf : f.isTermination = true
  · rw [if_pos hf]
    exact ⟨iff_of_true rfl hf, fun hcause => absurd (isTermination_iff.mp hf) hcause⟩
  · rw [if_neg hf]
    refine ⟨iff_of_false nofun hf, fun _ => ⟨exists_sited c f, fun site hsite => ⟨hsite.one_le_column hplaces, ?_⟩⟩⟩
    rw [locate_shownPlace hsite]

/-- A formula that asks for an occurrence of a column before the first one. -/
def asking : Compiled :=
  (compile .expression "let n = -1;\nget_cell(0, n)" [] (Row.new "r")).named "formula_r_f"

/-- How the formula fails. The library throws, two calls deep; the call of `get_cell` stands in the author's second
line, and that of `fx` right after the author's lines. -/
def thrownInside : Failure :=
  .inCall (some ⟨62, 4⟩) (.inCall (some ⟨60, 12⟩) (.inCall (some ⟨28, 17⟩)
    (.cause (.thrown (.text "Occurrence index starts at 0!")) (some ⟨4, 25⟩))))

theorem runtimeError_classified_asking :
    (∀ p, some p ∈ thrownInside.places → 1 ≤ p.line ∧ 1 ≤ p.column) ∧ asking.Sited thrownInside (.formula 2 8) ∧
      asking.runtimeError thrownInside = .runtime "2:8: Runtime error: Occurrence index starts at 0!" := by
  have hplaces : ∀ p, some p ∈ thrownInside.places → 1 ≤ p.line ∧ 1 ≤ p.column := by
    simp [thrownInside, Failure.places]
  have hfirst : asking.firstUserLine = 59 := by
    rw [asking, firstUserLine_named, firstUserLine_compile]
    rfl
  have hsite : asking.Sited thrownInside (.formula 2 8) := by
    have hline : asking.InLine ⟨60, 12⟩ 2 := ⟨⟨by decide, by decide⟩, by rw [hfirst]⟩
    refine .inside ⟨⟨2, hline⟩, [some ⟨62, 4⟩], [some ⟨28, 17⟩, some ⟨4, 25⟩], rfl, fun q hq k hk => ?_⟩ hline
    -- what lies deeper lies in the library, before the author's lines
    have hbefore : q.line < 59 := by
      simp only [List.mem_cons, Option.some.injEq, List.not_mem_nil, or_false] at hq
      rcases hq with rfl | rfl <;> decide
    have := hk.line
    have := hk.number
    omega
  obtain ⟨-, hruntime⟩ := runtimeError_classified asking thrownInside hplaces
  exact ⟨hplaces, hsite, ((hruntime nofun).2 _ hsite).2⟩

end Compiled

end Worksheet.Formula
