import Worksheet.Proofs.Formula.QuotedText
/-!
# Texts as lexemes

A text with its quotes, or a piece of a text in back quotes.

* `Token.isProper`, `Token.isText`, `lexemeAt`: the lexeme that comes next, within a text or outside;
* `Opening`: the line break that is left out after an opening back quote;
* `SpellsText`: the characters of a text, and the token that they are when they start in a column;
* `SpellsText.lexemeAt`, `exists_spellsText`: these are the texts that the lexer reads.
-/

namespace Worksheet.Formula

open Worksheet.Text

variable {w v rest content : List Char} {c : Char} {ending : TextEnd}

/-- Neither the end of the script nor a fault. -/
def Token.isProper : Token → Bool
  | .fault _ | .finish => false
  | _ => true

/-- The lexeme at the front, where a text goes on if `resume` is set. -/
def lexemeAt (resume operand : Bool) (column : Nat) (cs : List Char) : Lexeme :=
  if resume then pieceLexeme cs else nextLexeme operand column cs

/-- A text or a character, or the fault of one. -/
def Token.isText : Token → Bool
  | .text _ | .piece _ | .char _ | .fault _ => true
  | _ => false

theorem isText_pieceLexeme (cs : List Char) : (pieceLexeme cs).token.isText = true := by
  unfold pieceLexeme
  dsimp only
  split <;> rfl

theorem isText_nextLexeme (hquote : opensText c = true) (operand : Bool) (column : Nat) (cs : List Char) :
    (nextLexeme operand column (c :: cs)).token.isText = true := by
  have hquoted : (quotedLexeme column (c :: cs)).token.isText = true := by
    unfold quotedLexeme
    dsimp only
    split <;> rfl
  have hchar : (charLexeme (c :: cs)).token.isText = true := by
    unfold charLexeme
    dsimp only
    split_ifs
    · rfl
    · split
      · rfl
      · rfl
      · split <;> rfl
  simp only [opensText, Bool.or_eq_true, beq_iff_eq] at hquote
  rcases hquote with (rfl | rfl) | rfl
  · exact hquoted
  · exact hchar
  · exact isText_pieceLexeme _

/-! ## Pieces -/

/-- The token of a text in back quotes, or of a piece of it. -/
def TextEnd.token (ending : TextEnd) (content : List Char) : Token :=
  match ending with
  | .block => .piece (String.ofList content)
  | _ => .text (String.ofList content)

theorem VerbatimText.pieceLexeme (h : VerbatimText ending w content) (hrest : ending.Followed rest) :
    pieceLexeme (w ++ rest) = ⟨ending.token content, w.length, 0⟩ := by
  unfold Formula.pieceLexeme
  rw [h.scan hrest]
  cases ending with
  | closed | block => rfl
  | missing | badEscape => exact hrest.elim

theorem exists_verbatimText (h : (pieceLexeme v).token.isProper = true) :
    ∃ ending w rest content, v = w ++ rest ∧ VerbatimText ending w content ∧ ending.Followed rest := by
  unfold pieceLexeme at h
  rcases hscan : scanVerbatim v with ⟨content, n, ending⟩
  rw [hscan] at h
  have hfound : ending.Found := by
    cases ending with
    | closed => exact .inl rfl
    | block => exact .inr rfl
    | missing | badEscape => cases h
  obtain ⟨w, rest, hv, -, htext, hrest⟩ := VerbatimText.of_scan hscan hfound
  exact ⟨ending, w, rest, content, hv, htext, hrest⟩

/-- The line break between an opening back quote and the characters of the text. -/
inductive Opening : List Char → List Char → Prop
  | none {w : List Char} (hfeed : w.head? ≠ some '\n') (hreturn : w.head? ≠ some '\r') : Opening [] w
  | feed {w : List Char} : Opening ['\n'] w
  | return_ {w : List Char} (hfeed : w.head? ≠ some '\n') : Opening ['\r'] w
  | returnFeed {w : List Char} : Opening ['\r', '\n'] w

theorem leadingBreak_of_head (hfeed : w.head? ≠ some '\n') (hreturn : w.head? ≠ some '\r') : leadingBreak w = 0 := by
  unfold leadingBreak
  split
  · exact absurd rfl hreturn
  · exact absurd rfl hreturn
  · exact absurd rfl hfeed
  · rfl

theorem leadingBreak_return (hfeed : w.head? ≠ some '\n') : leadingBreak ('\r' :: w) = 1 := by
  cases w with
  | nil => rfl
  | cons d w =>
    unfold leadingBreak
    split
    · rename_i heq
      cases heq
      exact absurd rfl hfeed
    · rfl
    · rfl
    · rename_i hnone _
      exact absurd rfl (hnone _)

theorem Opening.leadingBreak {lineBreak : List Char} (h : Opening lineBreak w) :
    leadingBreak (lineBreak ++ w) = lineBreak.length := by
  cases h with
  | none hfeed hreturn => exact leadingBreak_of_head hfeed hreturn
  | feed => rfl
  | return_ hfeed => exact leadingBreak_return hfeed
  | returnFeed => rfl

theorem opening_congr {lineBreak : List Char} (hhead : w.head? = v.head?) (h : Opening lineBreak w) :
    Opening lineBreak v := by
  cases h with
  | none hfeed hreturn => exact .none (hhead ▸ hfeed) (hhead ▸ hreturn)
  | feed => exact .feed
  | return_ hfeed => exact .return_ (hhead ▸ hfeed)
  | returnFeed => exact .returnFeed

theorem exists_opening (v : List Char) : ∃ lineBreak w, v = lineBreak ++ w ∧ Opening lineBreak w := by
  by_cases hfeed : v.head? = some '\n'
  · obtain ⟨w, rfl⟩ := List.head?_eq_some_iff.mp hfeed
    exact ⟨['\n'], w, rfl, .feed⟩
  by_cases hreturn : v.head? = some '\r'
  · obtain ⟨w, rfl⟩ := List.head?_eq_some_iff.mp hreturn
    by_cases hnext : w.head? = some '\n'
    · obtain ⟨w, rfl⟩ := List.head?_eq_some_iff.mp hnext
      exact ⟨['\r', '\n'], w, rfl, .returnFeed⟩
    · exact ⟨['\r'], w, rfl, .return_ hnext⟩
  · exact ⟨[], v, rfl, .none hfeed hreturn⟩

/-! ## Texts with their quotes -/

/-- The characters of a text, or of the next piece of it; the token that they are when they start in a column; and
what may come after them. The first part tells that a text goes on. -/
inductive SpellsText : Bool → List Char → (Nat → Token) → (List Char → Prop) → Prop
  | quoted {w : List Char} {f : Nat → List Char} (h : QuotedText '\"' w f) :
    SpellsText false ('\"' :: w) (fun column => .text (String.ofList (f column))) (·.head? ≠ some '\"')
  | char {w : List Char} {f : Nat → List Char} {c : Char} (h : QuotedText '\'' w f) (hhead : w.head? ≠ some '\'')
    (hf : f 0 = [c]) : SpellsText false ('\'' :: w) (fun _ => .char c) (·.head? ≠ some '\'')
  | verbatim {lineBreak w content : List Char} {ending : TextEnd} (hopening : Opening lineBreak w)
    (h : VerbatimText ending w content) :
    SpellsText false (backQuote :: (lineBreak ++ w)) (fun _ => ending.token content) ending.Followed
  | piece {w content : List Char} {ending : TextEnd} (h : VerbatimText ending w content) :
    SpellsText true w (fun _ => ending.token content) ending.Followed

variable {resume operand : Bool} {column : Nat} {tokenAt : Nat → Token} {follow : List Char → Prop}

/-- Such a text is the next lexeme. -/
theorem SpellsText.lexemeAt (h : SpellsText resume w tokenAt follow) (hrest : follow rest) (operand : Bool) (column : Nat) :
    lexemeAt resume operand column (w ++ rest) = ⟨tokenAt column, w.length, 0⟩ := by
  cases h with
  | @quoted w f h =>
    have hscan : scanQuoted '\"' column ((w ++ rest).length + 1) (w ++ rest) = _ :=
      h.scan (.inl rfl) hrest column (by rw [List.length_append]; omega)
    have hquoted : quotedLexeme column ('\"' :: (w ++ rest)) = ⟨.text (String.ofList (f column)), 1 + w.length, 0⟩ := by
      simp only [quotedLexeme, List.drop_succ_cons, List.drop_zero, hscan]
    rw [List.length_cons, Nat.add_comm]
    exact hquoted
  | @char w f c h hhead hf =>
    have hscan : scanQuoted '\'' 0 ((w ++ rest).length + 1) (w ++ rest) = _ :=
      h.scan (.inr rfl) hrest 0 (by rw [List.length_append]; omega)
    rw [hf] at hscan
    rw [← List.head?_append_of_ne_nil w h.ne_nil] at hhead
    have hchar : charLexeme ('\'' :: (w ++ rest)) = ⟨.char c, 1 + w.length, 0⟩ := by
      simp only [charLexeme, List.drop_succ_cons, List.drop_zero, hscan]
      exact if_neg (by simpa using hhead)
    rw [List.length_cons, Nat.add_comm]
    exact hchar
  | @verbatim lineBreak w content ending hopening h =>
    have hskipped : (backQuote :: (lineBreak ++ w ++ rest)).drop (1 + lineBreak.length) = w ++ rest := by
      rw [Nat.add_comm, List.drop_succ_cons, List.append_assoc, List.drop_left]
    have hverbatim : verbatimLexeme (backQuote :: (lineBreak ++ w ++ rest)) =
        ⟨ending.token content, 1 + lineBreak.length + w.length, 0⟩ := by
      have hhead : (w ++ rest).head? = w.head? := List.head?_append_of_ne_nil _ h.ne_nil
      have hbreak := (opening_congr hhead.symm hopening).leadingBreak
      rw [← List.append_assoc] at hbreak
      simp only [verbatimLexeme, List.drop_succ_cons, List.drop_zero, hbreak, hskipped, h.pieceLexeme hrest]
    rw [List.length_cons, List.length_append, Nat.add_comm, ← Nat.add_assoc]
    exact hverbatim
  | piece h => exact h.pieceLexeme hrest

theorem scanQuoted_ne_block (quote : Char) (margin fuel : Nat) (v : List Char) :
    (scanQuoted quote margin fuel v).ending ≠ .block := by
  have hbefore : ∀ (s : TextScan) cs n, s.ending ≠ .block → (s.before cs n).ending ≠ .block := by
    rintro ⟨chars, length, ending⟩ cs n h
    cases ending <;> simp_all [TextScan.before]
  fun_induction scanQuoted quote margin fuel v
  case case7 escape _ _ _ _ _ ih | case8 escape _ _ _ _ _ _ ih | case9 escape _ _ _ _ _ _ _ ih =>
    -- an escape by hexadecimal digits
    simp only [escape]
    split
    · split
      · exact hbefore _ _ _ (ih _)
      · simp
    · simp
  all_goals first
    | exact hbefore _ _ _ (by assumption)
    | simp

theorem exists_quotedText (h : (quotedLexeme column ('\"' :: v)).token.isProper = true) :
    ∃ w rest tokenAt follow, '\"' :: v = w ++ rest ∧ SpellsText false w tokenAt follow ∧ follow rest := by
  simp only [quotedLexeme, List.drop_succ_cons, List.drop_zero] at h
  rcases hscan : scanQuoted '\"' column (v.length + 1) v with ⟨chars, n, ending⟩
  rw [hscan] at h
  cases ending with
  | closed =>
    obtain ⟨w, rest, f, rfl, -, hw, -, hrest⟩ := QuotedText.of_scan (.inl rfl) hscan
    exact ⟨'\"' :: w, rest, _, _, rfl, .quoted hw, hrest⟩
  | block => exact absurd (congrArg TextScan.ending hscan) (scanQuoted_ne_block _ _ _ _)
  | missing | badEscape => cases h

theorem exists_charText (h : (charLexeme ('\'' :: v)).token.isProper = true) :
    ∃ w rest tokenAt follow, '\'' :: v = w ++ rest ∧ SpellsText false w tokenAt follow ∧ follow rest := by
  simp only [charLexeme, List.drop_succ_cons, List.drop_zero] at h
  split_ifs at h with hhead
  · cases h
  rcases hscan : scanQuoted '\'' 0 (v.length + 1) v with ⟨chars, n, ending⟩
  rw [hscan] at h
  cases ending with
  | closed =>
    obtain ⟨w, rest, f, rfl, -, hw, rfl, hrest⟩ := QuotedText.of_scan (.inr rfl) hscan
    rcases hf : f 0 with _ | ⟨c, _ | ⟨d, more⟩⟩
    · rw [hf] at h
      cases h
    · rw [List.head?_append_of_ne_nil _ hw.ne_nil] at hhead
      exact ⟨'\'' :: w, rest, _, _, rfl, .char hw (by simpa using hhead) hf, hrest⟩
    · rw [hf] at h
      cases h
  | block => exact absurd (congrArg TextScan.ending hscan) (scanQuoted_ne_block _ _ _ _)
  | missing | badEscape => cases h

theorem exists_backQuotedText (h : (verbatimLexeme (backQuote :: v)).token.isProper = true) :
    ∃ w rest tokenAt follow, backQuote :: v = w ++ rest ∧ SpellsText false w tokenAt follow ∧ follow rest := by
  obtain ⟨lineBreak, v, rfl, hopening⟩ := exists_opening v
  have hskipped : (backQuote :: (lineBreak ++ v)).drop (1 + lineBreak.length) = v := by
    rw [Nat.add_comm, List.drop_succ_cons, List.drop_left]
  simp only [verbatimLexeme, List.drop_succ_cons, List.drop_zero, hopening.leadingBreak, hskipped] at h
  obtain ⟨ending, w, rest, content, rfl, htext, hrest⟩ := exists_verbatimText h
  have hopening' := opening_congr (List.head?_append_of_ne_nil _ htext.ne_nil) hopening
  exact ⟨backQuote :: (lineBreak ++ w), rest, _, _, by simp, .verbatim hopening' htext, hrest⟩

/-- A lexeme that starts with a quote, or goes on with a text, is such a text. -/
theorem exists_spellsText (hv : resume = true ∨ ∃ c ∈ v.head?, opensText c = true)
    (h : (lexemeAt resume operand column v).token.isProper = true) :
    ∃ w rest tokenAt follow, v = w ++ rest ∧ SpellsText resume w tokenAt follow ∧ follow rest := by
  cases resume with
  | true =>
    obtain ⟨ending, w, rest, content, rfl, htext, hrest⟩ := exists_verbatimText h
    exact ⟨w, rest, _, _, rfl, .piece htext, hrest⟩
  | false =>
    obtain ⟨c, hc, hopens⟩ := hv.resolve_left nofun
    obtain ⟨v, rfl⟩ := List.head?_eq_some_iff.mp hc
    simp only [opensText, Bool.or_eq_true, beq_iff_eq] at hopens
    rcases hopens with (rfl | rfl) | rfl
    · exact exists_quotedText h
    · exact exists_charText h
    · exact exists_backQuotedText h

end Worksheet.Formula
