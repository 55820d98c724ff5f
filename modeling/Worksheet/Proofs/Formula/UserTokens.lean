import Worksheet.Proofs.Formula.ExpressionText
import Worksheet.Proofs.Formula.Header
import Worksheet.Proofs.Formula.Returning
/-!
# The author's tokens in a script

What the lexer makes of an expression on its own, and of the lines that stand for it in a script.

* `authorTokens`, `Compiled.userTokens`: the tokens of an expression, and those on its lines in the script;
* `IsReadable`, `IsReturnClear`, `IsPlainExpression`: expressions by what their tokens are like;
* `userTokens_expression`: the author's lines are read as a text of their own;
* **`userTokens_compile`**: the tokens of the script are the author's, perhaps with `return`, and a text in back quotes
  holds the indentation of its lines;
* `isChanged_texts`: expressions whose tokens change.
-/

namespace Worksheet.Formula

open Worksheet.Text

variable {source : List Char} {c : Compiled}

/-! ## Tokens of authors -/

/-- The tokens of an expression, without its end. -/
def authorTokens (source : List Char) : List Spelled :=
  (spell source).filter (·.token ≠ .finish)

theorem map_authorTokens (source : List Char) :
    (authorTokens source).map Spelled.toLocated = (lex source).filter (·.token ≠ .finish) := by
  rw [authorTokens, ← map_spell, List.filter_map]
  rfl

/-- The expression is read without a fault, and holds a token. -/
def IsReadable (source : List Char) : Prop :=
  (∀ t ∈ lex source, t.token.isProper = true ∨ t.token = .finish) ∧ ∃ t ∈ lex source, t.token.isProper = true

instance : Decidable (IsReadable source) :=
  inferInstanceAs (Decidable (_ ∧ _))

/-- No token goes on into the line that gets `return`. -/
def IsReturnClear (source : List Char) : Prop :=
  ∀ n ∈ returnLine? source, ∀ t ∈ authorTokens source, t.place.line < n → (t.place.after t.spelling).line < n

instance : Decidable (IsReturnClear source) :=
  inferInstanceAs (Decidable (∀ n ∈ returnLine? source, _))

theorem IsReadable.lexes (h : IsReadable source) : Lexes ⟨Place.start, true, []⟩ false source (authorTokens source) := by
  have hfaults : ∀ t ∈ spellAll ⟨Place.start, true, []⟩ false source, ∀ f, t.token ≠ .fault f := fun t ht f hfault => by
    have hlex : t.toLocated ∈ lex source := map_spell source ▸ List.mem_map_of_mem ht
    rcases h.1 _ hlex with hproper | hfinish
    · rw [hfault] at hproper
      cases hproper
    · rw [hfault] at hfinish
      cases hfinish
  obtain ⟨ts, place, heq, hlexes⟩ := exists_lexes hfaults
  have hspell : spell source = ts ++ [⟨⟨.finish, place⟩, []⟩] := heq
  have hts : ∀ t ∈ ts, t.token ≠ .finish := fun t ht hfinish => by
    have hproper := hlexes.proper t ht
    rw [hfinish] at hproper
    cases hproper
  have hauthor : authorTokens source = ts := by
    rw [authorTokens, hspell, List.filter_append, List.filter_eq_self.mpr fun t ht => by simpa using hts t ht]
    simp
  rwa [hauthor]

theorem IsReadable.not_blank (h : IsReadable source) : ∃ c ∈ source, isBlank c = false := by
  by_contra hnot
  have hblank : ∀ c ∈ source, isBlank c = true := by simpa using hnot
  obtain ⟨t, ht, hproper⟩ := h.2
  have hmem : t ∈ (lex source).filter (·.token ≠ .finish) := by
    refine List.mem_filter.mpr ⟨ht, ?_⟩
    simp only [ne_eq, decide_not, Bool.not_eq_true', decide_eq_false_iff_not]
    intro hfinish
    rw [hfinish] at hproper
    cases hproper
  rw [← map_authorTokens, h.lexes.eq_nil_of_blank hblank] at hmem
  exact absurd hmem List.not_mem_nil

/-! ## Tokens of scripts -/

/-- The tokens that stand on the author's lines of a script. -/
def Compiled.userTokens (c : Compiled) : List Located :=
  (lex c.script).filter fun t => (c.userLine? t.place.line).isSome

/-- How the author's lines stand in the script. -/
def Compiled.wrapping (c : Compiled) (source : List Char) : Wrapping :=
  ⟨c.firstUserLine - 1, indentation, returnLine? source⟩

/-- What stands in a script from the author's first line on. -/
def wrappedText (source : List Char) : List Char :=
  unlines ((wrappedLines source).map (indentation ++ ·)) ++ "\x7d;\nfx.call()\n".toList

/-- **The lines of an expression are read as a text of their own**, whatever comes before them. -/
theorem userTokens_expression (source : String) (columns : List Column) (row : Row) :
    let c := compile .expression source columns row
    c.userTokens = ((spellAll ⟨⟨c.firstUserLine, 1⟩, true, []⟩ false (wrappedText source.toList)).map
      Spelled.toLocated).filter fun t => (c.userLine? t.place.line).isSome := by
  intro c
  have hheader : "let fx = || \x7b\n".toList = unlines (headerLines .expression) := by decide
  obtain ⟨located, hlines, hlex⟩ := lex_before columns row (wrappedText source.toList)
  have hfirst : c.firstUserLine =
      1 + ((preamble .expression columns row).map String.toList ++ headerLines .expression).length := by
    rw [firstUserLine_compile, List.length_append, List.length_map, Nat.add_comm]
  have hscript : c.script = unlines ((preamble .expression columns row).map String.toList ++ headerLines .expression) ++
      wrappedText source.toList := by
    simp only [c, compile, wrappedText, unlines_append, hheader, List.append_assoc]
  have hbefore : located.filter (fun t => (c.userLine? t.place.line).isSome) = [] := by
    refine List.filter_eq_nil_iff.mpr fun t ht => ?_
    have hline := hlines t ht
    rw [Compiled.userLine?, if_neg (by omega)]
    exact Bool.false_ne_true
  rw [Compiled.userTokens, hscript, hlex, List.filter_append, hbefore, List.nil_append, ← hfirst]

theorem isSome_userLine? (c : Compiled) (n : Nat) :
    (c.userLine? n).isSome = true ↔ c.firstUserLine ≤ n ∧ n < c.firstUserLine + c.userLines := by
  rw [Compiled.userLine?]
  split_ifs with h
  · simp [h]
  · simp [h]

/-- The tokens that are kept are those on the lines of the expression. -/
theorem Wrapping.RendersFrom.filter {k : Wrapping} {first last : Place} {author script : List Spelled}
    (h : k.RendersFrom first last author script) (hfirst : (k.place first).line = c.firstUserLine)
    (hlast : (k.place last).line + 1 = c.firstUserLine + c.userLines) :
    ∃ kept, (script.map Spelled.toLocated).filter (fun t => (c.userLine? t.place.line).isSome) =
      kept.map Spelled.toLocated ∧ k.Renders author kept := by
  obtain ⟨kept, more, rfl, hrenders, hkept, hmore⟩ := h
  refine ⟨kept, ?_, hrenders⟩
  have hall : (kept.map Spelled.toLocated).filter (fun t => (c.userLine? t.place.line).isSome) =
      kept.map Spelled.toLocated := by
    refine List.filter_eq_self.mpr (List.forall_mem_map.mpr fun t ht => ?_)
    have hline := hkept t ht
    rw [isSome_userLine?]
    omega
  have hnone : (more.map Spelled.toLocated).filter (fun t => (c.userLine? t.place.line).isSome) = [] := by
    refine List.filter_eq_nil_iff.mpr (List.forall_mem_map.mpr fun t ht => ?_)
    have hline := hmore t ht
    rw [isSome_userLine?]
    omega
  rw [List.map_append, List.filter_append, hall, hnone, List.append_nil]

theorem isPlain_closer : CommentText.IsPlain "\x7d;\nfx.call()\n".toList := by
  unfold CommentText.IsPlain
  decide

/-- The lines that stand for an expression, read as a text of their own. -/
theorem renders_wrappedText (k : Wrapping) (hindent : k.indent = indentation) (hreturn : k.returnLine? = returnLine? source)
    (h : IsReadable source) (hclear : IsReturnClear source) :
    ∃ last, last.line = (wrappedLines source).length ∧ k.RendersFrom Place.start last (authorTokens source)
      (spellAll ⟨⟨1 + k.above, 1⟩, true, []⟩ false (wrappedText source)) := by
  have hspaces : ∀ c ∈ k.indent, c = ' ' := hindent ▸ by decide
  have hblanks : ∀ c ∈ indentation, isBlank c = true := by decide
  have hstate : (⟨⟨1 + k.above, 1⟩, true, []⟩ : LexState).moved indentation =
      k.withoutReturn.state ⟨Place.start, true, []⟩ := by
    simp only [LexState.moved, Wrapping.state, Wrapping.place, Wrapping.withoutReturn, hindent]
    rfl
  have hstart : ∀ text, unlines ((wrappedLines source).map (indentation ++ ·)) = indentation ++ text →
      spellAll ⟨⟨1 + k.above, 1⟩, true, []⟩ false (wrappedText source) =
        spellAll (k.withoutReturn.state ⟨Place.start, true, []⟩) false (text ++ "\x7d;\nfx.call()\n".toList) := by
    intro text htext
    rw [wrappedText, htext, List.append_assoc, spellAll_blanks hblanks, hstate]
  have hlexes := h.lexes
  rw [IsReturnClear, ← hreturn] at hclear
  generalize authorTokens source = ts at hlexes hclear ⊢
  cases expressionText h.not_blank with
  | @unchanged u tail line more hnone htrimmed htext hlength =>
    obtain ⟨z, hsplit, hz⟩ := htrimmed.split
    obtain ⟨c, hc, hsolid⟩ := htrimmed.last
    have hwithout : k.withoutReturn = k := by
      rw [hnone] at hreturn
      cases k
      exact congrArg (Wrapping.mk _ _) hreturn.symm
    have hpast : k.PastReturn (⟨Place.start, true, []⟩ : LexState).place := hwithout ▸ k.withoutReturn_pastReturn _
    rw [hsplit] at hlexes
    rw [hstart _ htext, hwithout, ← hindent, List.append_assoc, List.append_assoc]
    obtain ⟨hlines, after, heq, hafter⟩ := hlexes.trimmed hspaces hpast (fun d hd => Option.mem_unique hc hd ▸ hsolid) hz
      htrimmed.blank htrimmed.oneLine isPlain_closer
    exact ⟨_, hlength.symm, Wrapping.rendersFrom_same hlines heq hafter⟩
  | @returning u b v w tail line more hsource hline hu hb hone htrimmed htext hlength =>
    obtain ⟨z, rfl, hz⟩ := htrimmed.split
    have hk : k.returnLine? = some (Place.start.after u).line := hreturn.trans hline
    rw [hstart _ htext, ← hindent]
    rw [hsource] at hlexes
    refine ⟨_, hlength.symm, ?_⟩
    simp only [List.append_assoc]
    exact hlexes.returned hspaces hk (hclear _ hk) hu hb hone htrimmed.last hz htrimmed.blank htrimmed.oneLine
      isPlain_closer

/-! ## Texts on one line -/

/-- The same tokens, with `return` put in at most once. -/
def AtMostReturn (author script : List Token) : Prop :=
  script = author ∨ ∃ before after, author = before ++ after ∧ script = before ++ .keyword .return_ :: after

/-- No text goes on over a line break, and the first token on the line that gets `return` is no sign. -/
def IsPlainExpression (source : List Char) : Prop :=
  (∀ t ∈ authorTokens source, '\n' ∉ t.spelling) ∧ ∀ n ∈ returnLine? source,
    ∀ t ∈ ((authorTokens source).dropWhile fun t => decide (t.place.line < n)).head?, ¬t.token.isSign

theorem map_token_spelled {k : Wrapping} {ts : List Spelled} (h : ∀ t ∈ ts, '\n' ∉ t.spelling) :
    (ts.map k.spelled).map (·.token) = ts.map (·.token) := by
  rw [List.map_map]
  exact List.map_congr_left fun t ht => if_pos (h t ht)

theorem Wrapping.Renders.atMostReturn {k : Wrapping} {script : List Spelled}
    (hk : k.returnLine? = Formula.returnLine? source)
    (h : k.Renders (authorTokens source) script) (hplain : IsPlainExpression source) :
    AtMostReturn ((authorTokens source).map (·.token)) (script.map (·.token)) := by
  obtain ⟨hsolid, hsign⟩ := hplain
  rw [← hk] at hsign
  generalize authorTokens source = ts at h hsolid hsign
  cases h with
  | same => exact .inl (map_token_spelled hsolid)
  | @returned before after n p hn hbefore hafter hp =>
    rw [List.forall_mem_append] at hsolid
    refine .inr ⟨before.map (·.token), after.map (·.token), List.map_append, ?_⟩
    have hdrop : (before ++ after).dropWhile (fun t => decide (t.place.line < n)) = after := by
      rw [List.dropWhile_append_of_pos fun t ht => by simpa using hbefore t ht]
      cases after with
      | nil => rfl
      | cons t after =>
        exact List.dropWhile_cons_of_neg (by simpa using hafter t List.mem_cons_self)
    have hoperand : asOperand after = after := by
      have hfirst := hsign n hn
      rw [hdrop] at hfirst
      cases after with
      | nil => rfl
      | cons t after => exact asOperand_of_not_sign (hfirst t rfl) after
    rw [hoperand, List.map_append, List.map_cons, map_token_spelled hsolid.1, map_token_spelled hsolid.2]

/-! ## The author's tokens -/

/-- **The tokens of an expression in its script.** Let an expression hold a token and be read without a fault, and let no
token go on into the line that gets `return`. Then the tokens on the lines of the expression in the script are the
author's, with `return` put in at most once: before the first one on the last line of code. A text in back quotes that goes
on over a line break holds the blanks that its lines are indented with. A text in double quotes that is continued on
another line and starts behind `return` is read as if it stood as much further to the right. The token right after
`return` is read where an operand is due: a sign there belongs to its operand. Without such texts and such a sign the
tokens are the author's, and perhaps `return`. -/
theorem userTokens_compile (source : String) (columns : List Column) (row : Row) (h : IsReadable source.toList)
    (hclear : IsReturnClear source.toList) :
    let c := compile .expression source columns row
    ∃ kept, c.userTokens = kept.map Spelled.toLocated ∧
      (c.wrapping source.toList).Renders (authorTokens source.toList) kept ∧
      (IsPlainExpression source.toList →
        AtMostReturn ((authorTokens source.toList).map (·.token)) (c.userTokens.map (·.token))) := by
  intro c
  obtain ⟨last, hlast, hrenders⟩ := renders_wrappedText (c.wrapping source.toList) rfl rfl h hclear
  have hfirst : 1 + (c.wrapping source.toList).above = c.firstUserLine := by
    have hpos : 1 ≤ c.firstUserLine := firstUserLine_compile .expression source columns row ▸ Nat.succ_pos _
    exact Nat.add_sub_cancel' hpos
  have hlines : last.line + (c.wrapping source.toList).above + 1 = c.firstUserLine + c.userLines := by
    have huser : c.userLines = (wrappedLines source.toList).length := rfl
    omega
  rw [hfirst] at hrenders
  obtain ⟨kept, hkept, hkeeps⟩ := hrenders.filter hfirst hlines
  have huser : c.userTokens = kept.map Spelled.toLocated := (userTokens_expression source columns row).trans hkept
  refine ⟨kept, huser, hkeeps, fun hplain => ?_⟩
  have hmap : c.userTokens.map (·.token) = kept.map (·.token) := by
    rw [huser, List.map_map]
    rfl
  rw [hmap]
  exact hkeeps.atMostReturn rfl hplain

/-- A text in back quotes that goes on over a line break. -/
theorem userTokens_compile_verbatim :
    let source := "let s = `a\nb`;\ns"
    let c := compile .expression source [] (Row.new "r")
    IsReadable source.toList ∧ IsReturnClear source.toList ∧ ∃ kept, c.userTokens = kept.map Spelled.toLocated ∧
      (c.wrapping source.toList).Renders (authorTokens source.toList) kept := by
  intro source c
  have hreadable : IsReadable source.toList := by decide +kernel
  have hclear : IsReturnClear source.toList := by decide +kernel
  obtain ⟨kept, huser, hrenders, -⟩ := userTokens_compile source [] (Row.new "r") hreadable hclear
  exact ⟨hreadable, hclear, kept, huser, hrenders⟩

/-! ## Tokens that change -/

/-- An expression whose tokens are others in the script, although they are read without a fault. -/
def IsChanged (source : String) (columns : List Column) (row : Row) : Prop :=
  IsReadable source.toList ∧ ¬AtMostReturn ((authorTokens source.toList).map (·.token))
    ((compile .expression source columns row).userTokens.map (·.token))

theorem isChanged_of_mem {source : String} {columns : List Column} {row : Row} {first : Nat} (token : Token)
    (hfirst : (preamble .expression columns row).length + 2 = first) (hreadable : IsReadable source.toList)
    (hscript : token ∈ (((spellAll ⟨⟨first, 1⟩, true, []⟩ false (wrappedText source.toList)).map
      Spelled.toLocated).filter fun t =>
        first ≤ t.place.line ∧ t.place.line < first + (wrappedLines source.toList).length).map (·.token))
    (hauthor : token ∉ (authorTokens source.toList).map (·.token)) (hreturn : token ≠ .keyword .return_) :
    IsChanged source columns row := by
  refine ⟨hreadable, fun h => ?_⟩
  have hcompiled : (compile .expression source columns row).firstUserLine = first :=
    (firstUserLine_compile .expression source columns row).trans hfirst
  replace hscript : token ∈ (compile .expression source columns row).userTokens.map (·.token) := by
    rw [userTokens_expression, hcompiled]
    convert hscript using 3
    funext t
    rw [Bool.eq_iff_iff, isSome_userLine?, hcompiled, decide_eq_true_iff]
    rfl
  rcases h with heq | ⟨before, after, heq, hput⟩
  · exact hauthor (heq ▸ hscript)
  · rw [hput] at hscript
    rw [heq] at hauthor
    simp_all

/-- The tokens of an expression may change: the lines of a text in back quotes are indented, a text in double quotes that
is continued on another line may start further to the right, a minus may become a sign, and `return` may be put into a
text. -/
theorem isChanged_texts : IsChanged "let s = `a\nb`;\ns" [] (Row.new "r") ∧
    IsChanged "\"a\\\n            // b\"" [] (Row.new "r") ∧ IsChanged "a\n- 1" [] (Row.new "r") ∧
    IsChanged "`a\nb`" [] (Row.new "r") := by
  refine ⟨?_, ?_, ?_, ?_⟩
  · exact isChanged_of_mem (.text "a\n    b") rfl
      (by decide +kernel) (by decide +kernel) (by decide +kernel) (by decide)
  · exact isChanged_of_mem (.text "a    // b") rfl
      (by decide +kernel) (by decide +kernel) (by decide +kernel) (by decide)
  · exact isChanged_of_mem .negative rfl
      (by decide +kernel) (by decide +kernel) (by decide +kernel) (by decide)
  · exact isChanged_of_mem (.text "a\n    return b") rfl
      (by decide +kernel) (by decide +kernel) (by decide +kernel) (by decide)

end Worksheet.Formula
