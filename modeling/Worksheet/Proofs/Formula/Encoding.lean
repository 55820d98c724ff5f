import Worksheet.Proofs.Formula.Declaration
/-!
# Writing values and reading them back

Texts that the lexer and the grammar together make one value of.

* `Encodes`: the text of a value; `EncodesLine`: the text of a declaration, on a line of its own;
* `encodes_text`, `encodes_number`, `encodes_count`: literals;
* **`Encodes.array`**, **`Encodes.record`**: texts made of the texts of the parts;
* **`parse_lines`**: lines that are parsed as their declarations, whatever comes after them.
-/

namespace Worksheet.Formula

open Worksheet.Text

/-- The text is one value for the lexer and the grammar. -/
def Encodes (w : List Char) (d : Datum) : Prop :=
  ∃ ts, CutsItem true w ts ∧ Reads ts d

variable {operand : Bool} {w : List Char} {d : Datum}

/-! ## Literals -/

theorem encodes_literal {l : Literal} (h : CutsItem true w [l.token]) : Encodes w (.literal l) :=
  ⟨[l.token], h, .literal l⟩

theorem encodes_text (s : String) : Encodes (textLiteral s).toList (.literal (.text s)) := by
  have hcuts : Cuts true (textLiteral s).toList [.text s] false endsWord := Cuts.textLiteral s
  refine encodes_literal ⟨hcuts, ?_⟩
  rw [toList_textLiteral]
  exact ⟨'\"', rfl, by decide⟩

theorem encodes_number {x : Binary64} (hfin : x.isFinite = true) :
    Encodes (CellNumber.literalOf x).toList (.literal (numberValue x)) :=
  encodes_literal (cutsItem_literalOf hfin)

/-- A natural number as a value of the formula language: an integer as long as it fits into a word. -/
def countValue (n : Nat) : Literal :=
  if Word.fits n then .int n else .float (Binary64.ofDecimal false n 0)

theorem decimalToken_count (n : Nat) : decimalToken false (Nat.toDigits 10 n) = (countValue n).token := by
  have hread := Decimal.read?_pointed false (List.ne_nil_of_length_pos (Nat.length_toDigits_pos (b := 10) (n := n)))
    (allDigits_toDigits n) allDigits_nil
  rw [List.append_nil, digitsValue_toDigits] at hread
  have hread' : Decimal.read? (Nat.toDigits 10 n) = some ⟨false, n, 0⟩ := hread
  have hall : (Nat.toDigits 10 n).all Char.isDigit = true := List.all_eq_true.mpr (allDigits_toDigits n)
  unfold decimalToken countValue
  rw [digitsValue_toDigits]
  cases hfits : Word.fits n with
  | true => simp [hall, hfits, Literal.token]
  | false => simp [hall, hfits, hread', Literal.token, Decimal.toBinary64]

theorem encodes_count (n : Nat) : Encodes (toString n).toList (.literal (countValue n)) := by
  have htext : (toString n).toList = minus false (pointed (Nat.toDigits 10 n) []) := by
    rw [Nat.toString_eq_repr, Nat.toList_repr]
    rfl
  have hplain : (countValue n).token.isPlain = true ∧ (countValue n).token.expectsOperand = false := by
    unfold countValue
    split_ifs <;> exact ⟨rfl, rfl⟩
  rw [htext]
  exact encodes_literal (cutsItem_number (List.ne_nil_of_length_pos Nat.length_toDigits_pos) (allDigits_toDigits n)
    allDigits_nil (decimalToken_count n) hplain.1 hplain.2)

/-! ## Arrays and records -/

theorem exists_tokens {α β γ : Type} {p : α → β → Prop} {q : β → γ → Prop} {ws : List α} {ds : List γ}
    (h : List.Forall₂ (fun w d => ∃ ts, p w ts ∧ q ts d) ws ds) :
    ∃ tss, List.Forall₂ p ws tss ∧ List.Forall₂ q tss ds := by
  induction h with
  | nil => exact ⟨[], .nil, .nil⟩
  | cons hpiece _ ih =>
    obtain ⟨ts, hp, hq⟩ := hpiece
    obtain ⟨tss, hps, hqs⟩ := ih
    exact ⟨ts :: tss, .cons hp hps, .cons hq hqs⟩

/-- **The texts of values, in brackets and with commas between them, are an array.** -/
theorem Encodes.array {ws : List (List Char)} {ds : List Datum} (h : List.Forall₂ Encodes ws ds) :
    Encodes ('[' :: ([',', ' '].intercalate ws ++ [']'])) (.array ds) := by
  obtain ⟨tss, hcuts, hreads⟩ := exists_tokens h
  exact ⟨_, .array hcuts, .array hreads⟩

/-- The text is one field for the lexer and the grammar. -/
def EncodesField (w : List Char) (f : String × Datum) : Prop :=
  ∃ ts, (∀ operand, CutsItem operand w ts) ∧ ReadsField ts f

def fieldText (name : String) (w : List Char) : List Char :=
  name.toList ++ ([':'] ++ ([' '] ++ w))

theorem Encodes.field {name : String} (hname : IsVariableName name.toList) (h : Encodes w d) :
    EncodesField (fieldText name w) (name, d) := by
  obtain ⟨ts, hcuts, hreads⟩ := h
  refine ⟨_, fun operand => ?_, ts, rfl, hreads⟩
  have hword : Cuts operand name.toList [.word (String.ofList name.toList)] false endsWord := Cuts.variableName hname
  rw [String.ofList_toList] at hword
  have hcolon : Cuts false [':'] [.mark .colon] true (· = ' ') := Cuts.colon
  have hvalue := hcolon.append (Cuts.blank.append hcuts.toCuts hcuts.head) ⟨' ', rfl, rfl⟩
  exact ⟨hword.append hvalue ⟨':', rfl, by decide⟩, exists_head_append hname.head_notBlank _⟩

/-- **Fields, in braces and with commas between them, are a record.** -/
theorem Encodes.record {w : List Char} {ws : List (List Char)} {f : String × Datum} {fs : List (String × Datum)}
    (hfield : EncodesField w f) (h : List.Forall₂ EncodesField ws fs) (hnames : ((f :: fs).map (·.1)).Nodup) :
    Encodes (['#', '\x7b'] ++ ([' '] ++ ([',', ' '].intercalate (w :: ws) ++ ([' '] ++ ['\x7d']))))
      (.record (f :: fs)) := by
  obtain ⟨ts, hcuts, hreads⟩ := hfield
  obtain ⟨tss, hcutsAll, hreadsAll⟩ := exists_tokens h
  exact ⟨_, .record (hcuts false) (hcutsAll.imp fun _ _ h => h true), .record (.cons hreads hreadsAll) hnames⟩

/-! ## Lines -/

/-- The text is a line that declares a variable. -/
def EncodesLine (w : List Char) (d : Declaration) : Prop :=
  ∃ ts, CutsLine w ts ∧ ReadsLine ts d

theorem EncodesLine.oneLine {d : Declaration} (h : EncodesLine w d) : '\n' ∉ w := by
  obtain ⟨ts, hcuts, -⟩ := h
  exact hcuts.oneLine

def declarationText (constant : Bool) (name : String) (w : List Char) : List Char :=
  (if constant then "const".toList else "let".toList) ++
    ([' '] ++ (name.toList ++ ([' '] ++ (['='] ++ ([' '] ++ (w ++ [';']))))))

theorem cuts_keyword (constant : Bool) :
    Cuts true (if constant then "const".toList else "let".toList)
      [.keyword (if constant then .const_ else .let_)] false endsWord := by
  cases constant with
  | true =>
    have htoken : wordToken "const".toList = .keyword .const_ := by decide
    have hword : Cuts true "const".toList [wordToken "const".toList] _ endsWord :=
      Cuts.word ⟨_, _, rfl, by decide⟩ (List.all_eq_true.mp (by decide)) (by decide)
    rwa [htoken] at hword
  | false =>
    have htoken : wordToken "let".toList = .keyword .let_ := by decide
    have hword : Cuts true "let".toList [wordToken "let".toList] _ endsWord :=
      Cuts.word ⟨_, _, rfl, by decide⟩ (List.all_eq_true.mp (by decide)) (by decide)
    rwa [htoken] at hword

/-- **A variable with the text of its value is a declaration.** -/
theorem Encodes.line {name : String} (hname : IsVariableName name.toList) (h : Encodes w d) (constant : Bool) :
    EncodesLine (declarationText constant name w) ⟨constant, name, d⟩ := by
  obtain ⟨ts, hcuts, hreads⟩ := h
  refine ⟨_, ⟨?_, ?_⟩, ts, rfl, hreads⟩
  · have hsemicolon : Cuts false [';'] [.mark .semicolon] true (fun _ => True) :=
      Cuts.mark (m := .semicolon) (by decide)
    have hvalue := hcuts.toCuts.append hsemicolon ⟨';', rfl, by decide⟩
    have hequals : Cuts false ['='] [.assign none] true (· = ' ') := Cuts.assign
    have hassigned := hequals.append (Cuts.blank.append hvalue (exists_head_append hcuts.head _)) ⟨' ', rfl, rfl⟩
    have hword : Cuts false name.toList [.word (String.ofList name.toList)] false endsWord :=
      Cuts.variableName hname
    rw [String.ofList_toList] at hword
    have hnamed := hword.append (Cuts.blank.append hassigned ⟨'=', rfl, by decide⟩) ⟨' ', rfl, by decide⟩
    exact (cuts_keyword constant).append
      (Cuts.blank.append hnamed (exists_head_append hname.head_notBlank _)) ⟨' ', rfl, by decide⟩
  · cases constant <;> exact ⟨_, rfl, by decide⟩

theorem lexFrom_ne_nil (fuel : Nat) (st : LexState) (resume : Bool) (cs : List Char) :
    lexFrom fuel st resume cs ≠ [] := by
  induction fuel generalizing st resume cs with
  | zero => simp [lexFrom]
  | succ fuel ih =>
    rw [lexFrom]
    dsimp only
    generalize (if resume = true then pieceLexeme cs else nextLexeme st.operand st.place.column cs) = l
    generalize (if resume = true then 0 else skipLength cs) = skipped
    by_cases hskipped : skipped ≠ 0
    · rw [if_pos hskipped]
      exact ih _ _ _
    · rw [if_neg hskipped]
      cases l.token <;> exact List.cons_ne_nil _ _

theorem lexFrom_nil (fuel : Nat) (st : LexState) : lexFrom fuel st false [] = [⟨.finish, st.place⟩] := by
  cases fuel <;> rfl

/-- **Lines of declarations are parsed as these declarations, one for each line**, whatever comes after them:
the rest of the script changes none of them, and if nothing comes after them, they are all that there is. -/
theorem parse_lines {ws : List (List Char)} {ds : List Declaration} (h : List.Forall₂ EncodesLine ws ds)
    {rest : List Char} (hrest : ∀ c ∈ rest.head?, isBlank c = false) :
    ∃ body, body.map Stmt.declaration? = (ds.zipIdx 1).map some ∧
      (∀ script, parse (unlines ws ++ rest) = .ok script → ∃ more, script.body = body ++ more) ∧
      (rest = [] → parse (unlines ws ++ rest) = .ok ⟨[], body⟩) := by
  obtain ⟨tss, hcuts, hreads⟩ := exists_tokens h
  obtain ⟨groups, hgroups, hlex⟩ := lexFrom_lines hcuts 1
  obtain ⟨fuel, hfuel, heq⟩ := hlex _ rest hrest (Nat.lt_succ_self _)
  obtain ⟨next, others, hnext⟩ := List.exists_cons_of_ne_nil
    (lexFrom_ne_nil fuel ⟨⟨1 + ws.length, 1⟩, true, []⟩ false rest)
  rw [hnext] at heq
  obtain ⟨body, hbody, hstarts, hends⟩ := parseTokens_lines hreads 1 hgroups next others
  have hparse : parse (unlines ws ++ rest) = parseTokens (groups.flatten ++ next :: others) :=
    congrArg parseTokens heq
  rw [hparse]
  refine ⟨body, hbody, hstarts, ?_⟩
  rintro rfl
  rw [lexFrom_nil] at hnext
  exact hends (congrArg Located.token (List.cons.inj hnext).1.symm)

end Worksheet.Formula
