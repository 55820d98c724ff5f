import Worksheet.Formula.Compiled
import Worksheet.Proofs.Formula.Spelling
/-!
# Tokens of an indented text

The same text twice: as its author wrote it, and with its lines indented, further down in a script.

* `Token.withText`, `indentedText`, `Spelled.rewrapped`: the token that a token turns into;
* **`SpellsText.rewrapped`**: texts keep their ends, and those in back quotes hold the blanks;
* `Wrapping`: how far down and how far right the text stands in the script;
* `Wrapping.place_after`: the places of the indented characters.
-/

namespace Worksheet.Formula

open Worksheet.Text

/-! ## Tokens -/

/-- The token, with a change made to the characters of a text. -/
def Token.withText (f : List Char → List Char) : Token → Token
  | .text s => .text (String.ofList (f s.toList))
  | .piece s => .piece (String.ofList (f s.toList))
  | token => token

/-- The characters of a text in back quotes that is written with its line breaks indented. The line break that is left out
after the opening back quote is indented as well, and those blanks are not left out. -/
def indentedText (indent spelling content : List Char) : List Char :=
  if spelling.head? = some backQuote then
    match spelling.tail with
    | '\n' :: _ => indent ++ indentBreaks indent content
    | '\r' :: '\n' :: _ => indent ++ indentBreaks indent content
    | '\r' :: '\r' :: '\n' :: _ => indent ++ indentBreaks indent content.tail
    | _ => indentBreaks indent content
  else indentBreaks indent content

/-- What a token turns into when its line breaks are indented and it is moved to the right by `extra` columns besides:
a text in back quotes holds the blanks. A text in double quotes leaves out blanks up to the column where it starts. -/
def Spelled.rewrapped (indent : List Char) (extra : Nat) (t : Spelled) : Token :=
  if '\n' ∉ t.spelling then t.token
  else if t.spelling.getLast? = some '\"' then
    if extra = 0 then t.token else (quotedLexeme (t.place.column + extra) t.spelling).token
  else t.token.withText (indentedText indent t.spelling)

/-! ### Texts -/

variable {indent u v w rest content : List Char} {quote : Char} {ending : TextEnd}

theorem TextEnd.withText_token (f : List Char → List Char) (ending : TextEnd) (content : List Char) :
    (ending.token content).withText f = ending.token (f content) := by
  cases ending <;> simp [token, Token.withText]

/-- A text that goes on after a block has no opening back quote. -/
theorem indentedText_of_piece (h : VerbatimText ending w content) (hw : '\n' ∈ w) :
    indentedText indent w content = indentBreaks indent content := by
  cases h with
  | closed => exact absurd hw (by decide)
  | block => exact absurd hw (by decide)
  | doubled h => exact if_pos rfl
  | returnFeed h => exact if_neg (show some '\r' ≠ some backQuote by decide)
  | char hquote => exact if_neg (by simpa using hquote)

/-- A text in back quotes holds the blanks after its line breaks, those after the opening back quote included. -/
theorem Opening.indented {lineBreak : List Char} (hindent : ∀ c ∈ indent, c = ' ') (hopening : Opening lineBreak w)
    (h : VerbatimText ending w content) :
    ∃ lineBreak' w', indentBreaks indent (lineBreak ++ w) = lineBreak' ++ w' ∧ Opening lineBreak' w' ∧
      VerbatimText ending w' (indentedText indent (backQuote :: (lineBreak ++ w)) content) := by
  have hstart : ∀ v, indentedText indent (backQuote :: v) content = match v with
      | '\n' :: _ => indent ++ indentBreaks indent content
      | '\r' :: '\n' :: _ => indent ++ indentBreaks indent content
      | '\r' :: '\r' :: '\n' :: _ => indent ++ indentBreaks indent content.tail
      | _ => indentBreaks indent content := fun v => if_pos rfl
  have hindented := h.indented hindent
  have hblanks := hindented.blanks hindent
  rw [hstart]
  cases hopening with
  | none hfeed hreturn =>
    have hhead : (indentBreaks indent w).head? = w.head? := head?_indentBreaks fun hhead => by
      obtain ⟨rest, rfl | rfl⟩ := eq_of_head?_indentBreaks hhead
      · exact hfeed rfl
      · exact hreturn rfl
    refine ⟨[], _, rfl, .none (hhead ▸ hfeed) (hhead ▸ hreturn), ?_⟩
    rw [List.nil_append]
    split
    · exact absurd rfl hfeed
    · exact absurd rfl hreturn
    · exact absurd rfl hreturn
    · exact hindented
  | feed => exact ⟨['\n'], _, rfl, .feed, hblanks⟩
  | returnFeed => exact ⟨['\n'], _, rfl, .feed, hblanks⟩
  | return_ hfeed =>
    by_cases hbreak : ∃ rest, w = '\r' :: '\n' :: rest
    · -- only now the carriage returns end the line
      obtain ⟨w, rfl⟩ := hbreak
      cases h with
      | char _ _ hreturn => exact absurd rfl (hreturn rfl)
      | returnFeed h =>
        cases h with
        | char _ _ _ h => exact ⟨['\r', '\n'], _, rfl, .returnFeed, (h.indented hindent).blanks hindent⟩
    · have hhead : (indentBreaks indent w).head? ≠ some '\n' := fun hhead => by
        obtain ⟨rest, rfl | rfl⟩ := eq_of_head?_indentBreaks hhead
        · exact hfeed rfl
        · exact hbreak ⟨rest, rfl⟩
      refine ⟨['\r'], indentBreaks indent w, ?_, .return_ hhead, ?_⟩
      · exact indentBreaks_cons (by decide) fun _ => hfeed
      · split
        · rename_i heq
          cases heq
        · rename_i heq
          cases heq
          exact absurd rfl hfeed
        · rename_i heq
          cases heq
          exact absurd ⟨_, rfl⟩ hbreak
        · exact hindented

theorem SpellsText.column_irrelevant {resume : Bool} {tokenAt : Nat → Token} {follow : List Char → Prop}
    (h : SpellsText resume w tokenAt follow) (hw : '\n' ∉ w) (m m' : Nat) : tokenAt m = tokenAt m' := by
  cases h with
  | @quoted w f h =>
    have hf : f m = f m' := h.margin_irrelevant (fun hmem => hw (List.mem_cons_of_mem _ hmem)) m m'
    simp only [hf]
  | _ => rfl

theorem TextEnd.alike_token (ending : TextEnd) (content content' : List Char) :
    (ending.token content).Alike (ending.token content') := by
  cases ending <;> exact ⟨rfl, rfl, fun _ => rfl⟩

/-- **A text keeps its end when its line breaks are indented.** What it turns into does not depend on how far right it
stands in the script, but by the columns that it is moved besides. -/
theorem SpellsText.rewrapped {resume : Bool} {tokenAt : Nat → Token} {follow : List Char → Prop}
    (hindent : ∀ c ∈ indent, c = ' ') (h : SpellsText resume w tokenAt follow) :
    ∃ tokenAt', SpellsText resume (indentBreaks indent w) tokenAt' follow ∧
      (∀ column column', (tokenAt column).Alike (tokenAt' column')) ∧ ∀ place extra,
        tokenAt' (place.column + indent.length + extra) =
          Spelled.rewrapped indent extra ⟨⟨tokenAt place.column, place⟩, w⟩ := by
  by_cases hbreak : '\n' ∈ w
  · have hsplit : ∀ token place extra, Spelled.rewrapped indent extra ⟨⟨token, place⟩, w⟩ =
        if w.getLast? = some '\"' then
          if extra = 0 then token else (quotedLexeme (place.column + extra) w).token
        else token.withText (indentedText indent w) := fun token place extra => if_neg (not_not.mpr hbreak)
    simp only [hsplit]
    cases h with
    | @quoted w f h =>
      obtain ⟨f', h', hf⟩ := h.indented (.inl rfl) hindent
      have hlast : ('\"' :: w).getLast? = some '\"' := by rw [List.getLast?_cons, h.getLast?]; rfl
      simp only [indentBreaks_cons_of_ne (show '\"' ≠ '\n' by decide) (show '\"' ≠ '\r' by decide), hlast, if_true]
      refine ⟨_, .quoted h', fun _ _ => ⟨rfl, rfl, fun _ => rfl⟩, fun place extra => ?_⟩
      rw [Nat.add_right_comm, hf]
      split_ifs with hextra
      · rw [hextra, Nat.add_zero]
      · have hnothing : ([] : List Char).head? ≠ some '\"' := nofun
        have hquoted := (SpellsText.quoted h).lexemeAt hnothing false (place.column + extra)
        rw [List.append_nil] at hquoted
        exact (congrArg Lexeme.token hquoted).symm
    | char h =>
      have hone := h.newline_not_mem rfl
      simp [hone] at hbreak
    | @verbatim lineBreak w content ending hopening h =>
      have hlast : (backQuote :: (lineBreak ++ w)).getLast? ≠ some '\"' := by
        rw [List.getLast?_cons, List.getLast?_append]
        rcases h.getLast? with hlast | hlast <;> simp [hlast, backQuote]
      obtain ⟨lineBreak', w', heq, hopening', h'⟩ := hopening.indented hindent h
      rw [indentBreaks_cons_of_ne (by decide) (by decide), heq]
      refine ⟨_, .verbatim hopening' h', fun _ _ => ending.alike_token _ _, fun place extra => ?_⟩
      rw [if_neg hlast, TextEnd.withText_token]
    | @piece w content ending h =>
      have hlast : w.getLast? ≠ some '\"' := by
        rcases h.getLast? with hlast | hlast <;> rw [hlast] <;> decide
      refine ⟨_, .piece (h.indented hindent), fun _ _ => ending.alike_token _ _, fun place extra => ?_⟩
      rw [if_neg hlast, TextEnd.withText_token, indentedText_of_piece h hbreak]
  · have hsame : ∀ token place extra, Spelled.rewrapped indent extra ⟨⟨token, place⟩, w⟩ = token :=
      fun token place extra => if_pos hbreak
    rw [indentBreaks_of_not_mem hbreak]
    refine ⟨tokenAt, h, fun column column' => ?_, fun place extra => ?_⟩
    · rw [h.column_irrelevant hbreak column column']
      exact .refl _
    · rw [hsame]
      exact h.column_irrelevant hbreak _ _

/-! ## Places -/

/-- How a text stands in a script. -/
structure Wrapping where
  /-- The number of lines before the text. -/
  above : Nat
  /-- What comes before each line. -/
  indent : List Char
  /-- The line before which `return` is put, behind the indentation. -/
  returnLine? : Option Nat

namespace Wrapping

variable (k : Wrapping)

/-- The number of columns that a line is moved to the right, besides its indentation. -/
def extra (line : Nat) : Nat :=
  if k.returnLine? = some line then returnWord.length else 0

/-- Where a character of the text stands in the script. -/
def place (p : Place) : Place :=
  ⟨p.line + k.above, p.column + k.indent.length + k.extra p.line⟩

/-- The lexer at the same character of the script. -/
def state (st : LexState) : LexState :=
  { st with place := k.place st.place }

/-- The token of the script. -/
def spelled (t : Spelled) : Spelled :=
  ⟨⟨t.rewrapped k.indent (k.extra t.place.line), k.place t.place⟩, indentBreaks k.indent t.spelling⟩

/-- The line that gets `return` does not come later. -/
def PastReturn (p : Place) : Prop :=
  ∀ n, k.returnLine? = some n → n ≤ p.line

variable {k} {p : Place}

theorem PastReturn.after (h : k.PastReturn p) (w : List Char) : k.PastReturn (p.after w) := fun n hn =>
  (h n hn).trans (Place.line_le_after p w)

theorem PastReturn.next_line (h : k.PastReturn p) : k.PastReturn (p.next '\n') :=
  h.after ['\n']

theorem place_next_line (hindent : ∀ c ∈ k.indent, c = ' ') (h : k.PastReturn p) :
    (k.place p).after ('\n' :: k.indent) = k.place (p.next '\n') := by
  have hone : '\n' ∉ k.indent := fun hmem => absurd (hindent _ hmem) (by decide)
  have hextra : k.extra (p.line + 1) = 0 := if_neg fun hn => by
    have := h _ hn
    omega
  rw [← List.singleton_append, Place.after_append, Place.after_of_not_mem _ hone]
  simp only [place, Place.next, Place.after, List.foldl, if_true, hextra]
  simp only [Place.mk.injEq]
  omega

theorem place_next {c : Char} (hc : c ≠ '\n') : (k.place p).next c = k.place (p.next c) := by
  simp only [place, Place.next, hc, if_false, Place.mk.injEq, true_and]
  omega

/-- **The place after the indented characters is the one after the characters.** -/
theorem place_after (hindent : ∀ c ∈ k.indent, c = ' ') (h : k.PastReturn p) (w : List Char) :
    (k.place p).after (indentBreaks k.indent w) = k.place (p.after w) := by
  fun_induction indentBreaks k.indent w generalizing p with
  | case1 => rfl
  | case2 rest ih | case3 rest ih =>
    rw [← List.cons_append, Place.after_append, place_next_line hindent h]
    exact ih h.next_line
  | case4 c rest hfeed hreturn ih =>
    have hnext : (k.place p).after (c :: indentBreaks k.indent rest) =
        ((k.place p).next c).after (indentBreaks k.indent rest) := rfl
    rw [hnext, place_next hfeed]
    exact ih (h.after [c])

variable {st : LexState}

theorem state_moved (hindent : ∀ c ∈ k.indent, c = ' ') (h : k.PastReturn st.place) (w : List Char) :
    (k.state st).moved (indentBreaks k.indent w) = k.state (st.moved w) := by
  simp only [LexState.moved, state, place_after hindent h]

theorem state_fed (hindent : ∀ c ∈ k.indent, c = ' ') (h : k.PastReturn st.place) {token token' : Token}
    (halike : token.Alike token') (w : List Char) :
    (k.state st).fed token' (indentBreaks k.indent w) = k.state (st.fed token w) := by
  simp only [LexState.fed, state, place_after hindent h, halike.operand, halike.braces]

end Wrapping

end Worksheet.Formula
