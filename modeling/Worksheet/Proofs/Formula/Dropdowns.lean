import Worksheet.Proofs.Formula.ColumnCalls
/-!
# Options and their positions

* `optionOf_optionPosition`, `optionPosition_optionOf`: from a text to its position among the options and back;
* `Translates`: what calls give that translate between a text and its position;
* **`dropdownCalls_formula`**: this is what they give in formulas, for each column.
-/

namespace Worksheet.Formula

open Interpreter Library Worksheet.Text

/-! ## One list of options -/

variable {options : List String} {text : String} {j : Nat}

theorem optionPosition_of_first (h : options[j]? = some text) (hfirst : ∀ k < j, options[k]? ≠ some text) :
    optionPosition text options = .int j := by
  obtain ⟨hj, hat⟩ := List.getElem?_eq_some_iff.mp h
  have hindex : options.findIdx? (· == text) = some j := by
    refine List.findIdx?_eq_some_iff_getElem.mpr ⟨hj, beq_iff_eq.mpr hat, fun k hk => ?_⟩
    have hother := hfirst k hk
    rw [List.getElem?_eq_getElem (hk.trans hj)] at hother
    simpa using hother
  rw [optionPosition, hindex]
  rfl

theorem optionPosition_of_notMem (h : text ∉ options) : optionPosition text options = .unit := by
  have hindex : options.findIdx? (· == text) = none :=
    List.findIdx?_eq_none_iff.mpr fun o ho => beq_false_of_ne fun heq => h (heq ▸ ho)
  rw [optionPosition, hindex]
  rfl

theorem optionOf_of_getElem? {o : String} (h : options[j]? = some o) : optionOf (.int j) options = .text o := by
  simp [optionOf, h]

theorem optionOf_of_other {v : Value} (h : ∀ p : Nat, v = .int p → options.length ≤ p) : optionOf v options = .unit := by
  rcases int_or_other v with ⟨k, rfl⟩ | ⟨-, hother⟩
  · by_cases hk : k < 0
    · simp [optionOf, hk]
    · obtain ⟨p, rfl⟩ := Int.eq_ofNat_of_zero_le (Int.not_lt.mp hk)
      simp [optionOf, h p rfl]
  · exact hother options

theorem exists_of_optionOf {v : Value} {o : String} (h : optionOf v options = .text o) :
    ∃ p : Nat, v = .int p ∧ options[p]? = some o := by
  by_contra hnone
  have hother : ∀ p : Nat, v = .int p → options.length ≤ p := by
    rintro p rfl
    by_contra hp
    have hat : options[p]? = some options[p] := List.getElem?_eq_getElem (Nat.not_le.mp hp)
    rw [optionOf_of_getElem? hat] at h
    cases h
    exact hnone ⟨p, rfl, hat⟩
  rw [optionOf_of_other hother] at h
  cases h

/-- The position of a text leads back to the text. -/
theorem optionOf_optionPosition {p : Int} (h : optionPosition text options = .int p) :
    optionOf (.int p) options = .text text := by
  cases hindex : options.findIdx? (· == text) with
  | none =>
    rw [optionPosition, hindex] at h
    cases h
  | some j =>
    rw [optionPosition, hindex] at h
    cases h
    obtain ⟨hj, hat, -⟩ := List.findIdx?_eq_some_iff_getElem.mp hindex
    exact optionOf_of_getElem? (List.getElem?_eq_some_iff.mpr ⟨hj, beq_iff_eq.mp hat⟩)

/-- The position that leads to a text is its position, if no option is repeated. -/
theorem optionPosition_optionOf {v : Value} (hnodup : options.Nodup) (h : optionOf v options = .text text) :
    optionPosition text options = v := by
  obtain ⟨p, rfl, hp⟩ := exists_of_optionOf h
  have hlt : p < options.length := (List.getElem?_eq_some_iff.mp hp).1
  refine optionPosition_of_first hp fun k hk hsame => ?_
  exact hk.ne ((List.getElem?_inj (hk.trans hlt) hnodup).mp (hsame.trans hp.symm))

/-! ## Calls -/

/-- Calls for the index of a text among options, and calls for the option at an index. -/
structure Translates {α : Type} (options : List String) (text : String) (IsIndex : α → Prop) (IsOption : Value → α → Prop)
    (Gives : α → Value → Prop) : Prop where
  first : ∀ a (j : Nat), IsIndex a → options[j]? = some text → (∀ k < j, options[k]? ≠ some text) → Gives a (.int j)
  stale : ∀ a, IsIndex a → text ∉ options → Gives a .unit
  option : ∀ a (p : Nat) o, IsOption (.int p) a → options[p]? = some o → Gives a (.text o)
  /-- What is no position of an option has none. -/
  other : ∀ a v, IsOption v a → (∀ p : Nat, v = .int p → options.length ≤ p) → Gives a .unit
  /-- An index leads back to the text. -/
  back : ∀ a a' p, IsIndex a → Gives a (.int p) → IsOption (.int p) a' → Gives a' (.text text)
  /-- What leads to the text is its index. -/
  onto : options.Nodup → ∀ a a' v, IsOption v a' → Gives a' (.text text) → IsIndex a → Gives a v

variable {α : Type} {Gives : α → Value → Prop}

theorem Translates.of_gives {IsIndex : α → Prop} {IsOption : Value → α → Prop}
    (hunique : ∀ a v w, Gives a v → Gives a w → v = w) (hindex : ∀ a, IsIndex a → Gives a (optionPosition text options))
    (hoption : ∀ v a, IsOption v a → Gives a (optionOf v options)) : Translates options text IsIndex IsOption Gives where
  first a _ ha hj hfirst := optionPosition_of_first hj hfirst ▸ hindex a ha
  stale a ha hnone := optionPosition_of_notMem hnone ▸ hindex a ha
  option a _ _ ha hp := optionOf_of_getElem? hp ▸ hoption _ a ha
  other a v ha hother := optionOf_of_other hother ▸ hoption v a ha
  back a a' _ ha hp ha' := optionOf_optionPosition (hunique a _ _ (hindex a ha) hp) ▸ hoption _ a' ha'
  onto hnodup a a' v ha' htext ha := optionPosition_optionOf hnodup (hunique a' _ _ (hoption v a' ha') htext) ▸ hindex a ha

/-- The call is for the column at a position. -/
def IsCallAt (IsCall : ColumnCall → Target → Option Int → α → Prop) (i : Nat) (f : ColumnCall) (a : α) : Prop :=
  ∃ n : Option Int, 0 ≤ n.getD 0 ∧ IsCall f (.position i) n a

/-- The calls translate for the columns with options, and give `()` for the others. -/
structure TranslatesColumns (columns : List Column) (row : Row) (IsCall : ColumnCall → Target → Option Int → α → Prop)
    (Gives : α → Value → Prop) : Prop where
  enum : ∀ i c options, columns[i]? = some c → c.options? = some options →
    Translates options ((row.value? c.id).getD "") (IsCallAt IsCall i .dropdownIndex)
      (fun v => IsCallAt IsCall i (.dropdownValue v)) Gives
  plain_index : ∀ i c a, columns[i]? = some c → c.options? = none → IsCallAt IsCall i .dropdownIndex a → Gives a .unit
  plain_value : ∀ i c v a, columns[i]? = some c → c.options? = none → IsCallAt IsCall i (.dropdownValue v) a → Gives a .unit

variable {columns : List Column} {row : Row} {i : Nat} {c : Column}

theorem optionPositionAt_eq (hc : columns[i]? = some c) : optionPositionAt columns row i =
    (c.options?.map (optionPosition ((row.value? c.id).getD ""))).getD .unit := by
  rw [optionPositionAt, optionsAt?, textAt, hc]
  rfl

theorem optionAt_eq (v : Value) (hc : columns[i]? = some c) :
    optionAt columns v i = (c.options?.map (optionOf v)).getD .unit := by
  rw [optionAt, optionsAt?, hc]
  rfl

theorem TranslatesColumns.of_answers {IsCall : ColumnCall → Target → Option Int → α → Prop} {Throws : α → Prop}
    (hunique : ∀ a v w, Gives a v → Gives a w → v = w)
    (h : ∀ f target n a, IsCall f target n a → AnswersWith (Gives a) (Throws a) (f.answer columns row target n)) :
    TranslatesColumns columns row IsCall Gives := by
  have hgives : ∀ i c f a, columns[i]? = some c → IsCallAt IsCall i f a → Gives a (f.valueAt columns row i) := by
    rintro i c f a hc ⟨n, hn, ha⟩
    have hanswer := h f _ n a ha
    rw [ColumnCall.answer, Target.find?_position (List.getElem?_eq_some_iff.mp hc).1 hn] at hanswer
    exact hanswer.1
  have hindex : ∀ i c a, columns[i]? = some c → IsCallAt IsCall i .dropdownIndex a →
      Gives a ((c.options?.map (optionPosition ((row.value? c.id).getD ""))).getD .unit) := fun i c a hc ha =>
    optionPositionAt_eq hc ▸ hgives i c _ a hc ha
  have hvalue : ∀ i c v a, columns[i]? = some c → IsCallAt IsCall i (.dropdownValue v) a →
      Gives a ((c.options?.map (optionOf v)).getD .unit) := fun i c v a hc ha =>
    optionAt_eq v hc ▸ hgives i c _ a hc ha
  constructor
  case enum =>
    intro i c options hc hsome
    refine .of_gives hunique (fun a ha => ?_) fun v a ha => ?_
    · have h := hindex i c a hc ha
      rwa [hsome] at h
    · have h := hvalue i c v a hc ha
      rwa [hsome] at h
  case plain_index =>
    intro i c a hc hnone ha
    have h := hindex i c a hc ha
    rwa [hnone] at h
  case plain_value =>
    intro i c v a hc hnone ha
    have h := hvalue i c v a hc ha
    rwa [hnone] at h

/-- **The options of a column and their positions are translated into each other**, in formulas that are a call, which there
are, and in calls anywhere in a formula that does not define these functions itself. -/
theorem dropdownCalls_formula (row : Row) (hcolumns : (columns.length : Int) ≤ Word.greatest)
    (hoptions : ∀ c ∈ columns, ∀ options, c.options? = some options → (options.length : Int) ≤ Word.greatest) :
    TranslatesColumns columns row ColumnCall.IsWritten (FormulaGives columns row) ∧
    (∀ i < columns.length, (∃ source, IsCallAt ColumnCall.IsWritten i .dropdownIndex source) ∧
      ∀ p, Word.fits p = true → ∃ source, IsCallAt ColumnCall.IsWritten i (.dropdownValue (.int p)) source) ∧
    ∀ (mode : FormulaMode) (source : String) (script : Script),
      parse (compile mode source columns row).script = .ok script → script.IsOrdinary →
      Tabled columns row (rowMachine mode columns row) ∧
      (∀ outcome m', DoesAll ⟨script.functions, 0, true⟩ (rowMachine mode columns row)
          (script.body.drop (rowDeclarations mode columns row).length) outcome m' →
        ∃ least, ∀ steps, least ≤ steps → runScript steps script = scriptResult outcome) ∧
      ∀ (env : Env) (m : Machine), env.functions = script.functions → env.depth + 2 ≤ maxDepth → Tabled columns row m →
        TranslatesColumns columns row (fun f target n => f.IsCall target n env m) fun e v => Evals env m e (.ok v) m := by
  refine ⟨?_, fun i hi => ?_, fun mode source script hparse hordinary => ⟨tabled_rowMachine mode row hcolumns,
    fun outcome m' h => runScript_more hparse h, fun env m henv hdepth htable => ?_⟩⟩
  · exact .of_answers (fun source v w => FormulaGives.unique) fun f target n source h => h.answersWith hcolumns hoptions
  · have hposition : ∀ k, Target.position i = .position k → Word.fits k = true := by
      rintro k hk
      cases hk
      exact fits_of_le (by omega)
    have hwritten : ∀ f : ColumnCall, (∀ v, f = .dropdownValue v → ∃ w d, EncodesArgument w d ∧ d.value = v) →
        ∃ source, IsCallAt ColumnCall.IsWritten i f source := by
      intro f hf
      obtain ⟨source, h⟩ : ∃ source, f.IsWritten (.position i) none source :=
        f.exists_isWritten hf hposition fun n hn => absurd hn (Option.not_mem_none n)
      exact ⟨source, none, le_refl _, h⟩
    refine ⟨hwritten .dropdownIndex ?_, fun p hp => hwritten (.dropdownValue (.int p)) ?_⟩
    · rintro v hv
      cases hv
    · rintro v hv
      cases hv
      exact ⟨_, _, encodesArgument_int hp, by rw [Datum.value]; rfl⟩
  · refine .of_answers (fun e v w h h' => ?_) fun f target n e h =>
      h.answersWith hcolumns hoptions hparse hordinary henv hdepth htable
    exact Except.ok.inj (h.unique h')

/-- A column with a repeated option, before a text column. -/
def sizes : List Column :=
  [⟨"s", "Size", .enum ["S", "M", "M"]⟩, .new "n" "Note" .text]

def sizeRow : Row :=
  ⟨"r", ⟨[("s", "M")], by decide⟩⟩

theorem dropdownCalls_sizes :
    (sizes.length : Int) ≤ Word.greatest ∧
      (∀ c ∈ sizes, ∀ options, c.options? = some options → (options.length : Int) ≤ Word.greatest) ∧
      FormulaGives sizes sizeRow "get_dropdown_index(0)" (.int 1) ∧
      FormulaGives sizes sizeRow "to_dropdown_value(1, 0)" (.text "M") ∧
      FormulaGives sizes sizeRow "to_dropdown_value(3, 0)" .unit ∧
      FormulaGives sizes sizeRow "get_dropdown_index(1)" .unit ∧
      ∃ script, parse (compile .expression "get_dropdown_index(0)" sizes sizeRow).script = .ok script ∧
        script.IsOrdinary ∧ let m := rowMachine .expression sizes sizeRow
        ∀ place, Evals ⟨script.functions, 0, true⟩ m
          (.call "to_dropdown_value"
            [.call "get_dropdown_index" [.literal (.int 0) place] place, .literal (.int 0) place] place)
          (.ok (.text "M")) m := by
  have hcolumns : (sizes.length : Int) ≤ Word.greatest := by decide
  have hoptions : ∀ c ∈ sizes, ∀ options, c.options? = some options → (options.length : Int) ≤ Word.greatest := by
    simp [sizes, Column.new, Column.options?, ColumnKind.ofType, Word.greatest]
  obtain ⟨hcalls, -, hscripts⟩ := dropdownCalls_formula sizeRow hcolumns hoptions
  have hindex : ∀ k : Nat, Word.fits k = true → ∀ source : String,
      source.toList = callText "get_dropdown_index" [intText k] →
      IsCallAt ColumnCall.IsWritten k .dropdownIndex source := fun k hk source hsource =>
    ⟨none, le_refl _, _, [.literal (.int k)], .cons (encodesArgument_int hk) .nil,
      by simp only [List.map_cons, Datum.value]; rfl, hsource⟩
  have hvalue : ∀ p : Int, Word.fits p = true → ∀ source : String,
      source.toList = callText "to_dropdown_value" [intText p, intText 0] →
      IsCallAt ColumnCall.IsWritten 0 (.dropdownValue (.int p)) source := fun p hp source hsource =>
    ⟨none, le_refl _, _, [.literal (.int p), .literal (.int 0)],
      .cons (encodesArgument_int hp) (.cons (encodesArgument_int (by decide)) .nil),
      by simp only [List.map_cons, Datum.value]; rfl, hsource⟩
  have hsize := hcalls.enum 0 _ _ rfl rfl
  have hfirst : ∀ k < 1, ["S", "M", "M"][k]? ≠ some "M" := by decide
  have hposition := hsize.first _ 1 (hindex 0 (by decide) "get_dropdown_index(0)" (by decide)) rfl hfirst
  refine ⟨hcolumns, hoptions, hposition, ?_, ?_, ?_, ?_⟩
  · exact hsize.back _ _ 1 (hindex 0 (by decide) _ (by decide)) hposition (hvalue 1 (by decide) _ (by decide))
  · refine hsize.other _ _ (hvalue 3 (by decide) _ (by decide)) ?_
    rintro p hp
    cases hp
    exact le_refl 3
  · exact hcalls.plain_index 1 _ _ rfl rfl (hindex 1 (by decide) _ (by decide))
  · obtain ⟨n, -, hwritten⟩ := hindex 0 (by decide) "get_dropdown_index(0)" (by decide)
    obtain ⟨script, hparse, hordinary⟩ := hwritten.exists_script sizes sizeRow
    obtain ⟨htable, -, hcalls⟩ := hscripts .expression "get_dropdown_index(0)" script hparse hordinary
    have hsize := (hcalls ⟨script.functions, 0, true⟩ _ rfl (by decide : 0 + 2 ≤ maxDepth) htable).enum 0 _ _ rfl rfl
    refine ⟨script, hparse, hordinary, fun place => ?_⟩
    have hinner : IsCallAt
        (fun f target n => f.IsCall target n ⟨script.functions, 0, true⟩ (rowMachine .expression sizes sizeRow))
        0 .dropdownIndex (.call "get_dropdown_index" [.literal (.int 0) place] place) :=
      ⟨none, le_refl _, _, place, rfl, .cons (.literal (.int 0) place) .nil⟩
    have hposition := hsize.first _ 1 hinner rfl hfirst
    exact hsize.back _ _ 1 hinner hposition
      ⟨none, le_refl _, _, place, rfl, .cons hposition (.cons (.literal (.int 0) place) .nil)⟩

end Worksheet.Formula
