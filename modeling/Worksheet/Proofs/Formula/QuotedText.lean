import Worksheet.Proofs.Formula.LineBreaks
/-!
# Texts in double and in single quotes

Such a text is on one line, but for line breaks after a backslash. The blanks after such a break are left out up to a
margin, so that they may grow if the margin grows with them.

* `Escapes`: the characters that stand for one other character;
* `QuotedText`: the texts, with `QuotedText.scan` and `QuotedText.of_scan`;
* **`QuotedText.indented`**: such a text does not hold blanks put after its line breaks.
-/

namespace Worksheet.Formula

open Worksheet.Text

variable {indent w v rest : List Char} {c d quote : Char}

/-! ## Escapes -/

/-- The characters stand for one character in a text, in double or in single quotes. -/
structure Escapes (e : List Char) (d : Char) : Prop where
  backslash : ∃ more, e = '\\' :: more
  oneLine : '\n' ∉ e
  noReturn : '\r' ∉ e
  scan : ∀ (quote : Char) (margin fuel : Nat) (rest : List Char), scanQuoted quote margin (fuel + 1) (e ++ rest) =
    (scanQuoted quote margin fuel rest).before [d] e.length

theorem escapes_short {c d : Char} (h : (c, d) ∈ [('n', '\n'), ('r', '\r'), ('t', '\t'), ('\\', '\\'), ('\"', '\"'),
    ('\'', '\'')]) : Escapes ['\\', c] d := by
  simp only [List.mem_cons, Prod.mk.injEq, List.not_mem_nil, or_false] at h
  rcases h with ⟨rfl, rfl⟩ | ⟨rfl, rfl⟩ | ⟨rfl, rfl⟩ | ⟨rfl, rfl⟩ | ⟨rfl, rfl⟩ | ⟨rfl, rfl⟩
  all_goals exact ⟨⟨_, rfl⟩, by decide, by decide, fun quote margin fuel rest => by simp [scanQuoted]⟩

theorem isHexDigit_of_isBlank (hc : isBlank c = true) : isHexDigit c = false := by
  have h := isRadixDigit_of_isBlank 16 hc
  simp only [isRadixDigit, Bool.or_eq_false_iff] at h
  exact h.2

theorem readHex_ok {width n : Nat} {v : List Char} (h : readHex width v = .ok n) :
    ∃ digits rest, v = digits ++ rest ∧ digits.length = width ∧ (∀ c ∈ digits, isHexDigit c = true) ∧
      ∀ rest', readHex width (digits ++ rest') = .ok n := by
  unfold readHex at h
  simp only at h
  split_ifs at h with hlength
  have htake : (v.take width).takeWhile isHexDigit = v.take width :=
    (List.takeWhile_prefix _).eq_of_length_le (by
      have := List.length_take_le width v
      have hlength' : ((v.take width).takeWhile isHexDigit).length = width := hlength
      omega)
  have hdigits : (v.take width).length = width := by
    rw [← htake]
    exact hlength
  refine ⟨v.take width, v.drop width, (List.take_append_drop width v).symm, hdigits, ?_, fun rest' => ?_⟩
  · exact List.takeWhile_eq_self_iff.mp htake
  · have htake' : (v.take width ++ rest').take width = v.take width := List.take_left' hdigits
    unfold readHex
    simp only [htake']
    rw [if_pos hlength]
    exact h

theorem escapes_hex {c d : Char} {width n : Nat} {digits : List Char}
    (hc : (c, width) ∈ [('x', 2), ('u', 4), ('U', 8)]) (hlength : digits.length = width)
    (hdigits : ∀ c ∈ digits, isHexDigit c = true) (hread : ∀ rest, readHex width (digits ++ rest) = .ok n)
    (hchar : charOf? n = some d) : Escapes ('\\' :: c :: digits) d := by
  have hdrop : ∀ rest, (digits ++ rest).drop width = rest := fun rest => List.drop_left' hlength
  have hnot : ∀ b, isBlank b = true → b ∉ digits := fun b hb hmem => by
    exact absurd (hdigits b hmem) (by simp [isHexDigit_of_isBlank hb])
  simp only [List.mem_cons, Prod.mk.injEq, List.not_mem_nil, or_false] at hc
  rcases hc with ⟨rfl, rfl⟩ | ⟨rfl, rfl⟩ | ⟨rfl, rfl⟩
  all_goals
    refine ⟨⟨_, rfl⟩, ?_, ?_, fun quote margin fuel rest => ?_⟩
    · simpa using hnot '\n' (by decide)
    · simpa using hnot '\r' (by decide)
    · simp [scanQuoted, hread, hchar, hdrop, hlength, Nat.add_comm]

/-! ## Steps of the scanner -/

/-- The quote is a double or a single one. -/
def IsQuote (quote : Char) : Prop :=
  quote = '\"' ∨ quote = '\''

theorem IsQuote.ne (h : IsQuote quote) (hd : d ≠ '\"') (hd' : d ≠ '\'') : quote ≠ d := by
  rcases h with rfl | rfl
  · exact hd.symm
  · exact hd'.symm

/-- A blank that may be left out after a line break. -/
def isJoinedBlank (c : Char) : Bool :=
  isBlank c && c != '\n'

variable {margin fuel : Nat}

theorem scanQuoted_cons (hbackslash : c ≠ '\\') (v : List Char) :
    scanQuoted quote margin (fuel + 1) (c :: v) =
      if c == quote then
        match v with
        | d :: more => if d == quote then (scanQuoted quote margin fuel more).before [quote] 2 else ⟨[], 1, .closed⟩
        | [] => ⟨[], 1, .closed⟩
      else if c == '\n' then ⟨[], 0, .missing⟩
      else if c == '\r' && v.head? == some '\n' then (scanQuoted quote margin fuel v).before [] 1
      else (scanQuoted quote margin fuel v).before [c] 1 := by
  cases v with
  | nil => exact scanQuoted.eq_5 quote margin fuel c fun _ _ h _ => hbackslash h
  | cons d v => exact scanQuoted.eq_4 quote margin fuel c d v fun _ _ h _ => hbackslash h

theorem scanQuoted_char (hquote : c ≠ quote) (hbackslash : c ≠ '\\') (hfeed : c ≠ '\n')
    (hreturn : c = '\r' → v.head? ≠ some '\n') :
    scanQuoted quote margin (fuel + 1) (c :: v) = (scanQuoted quote margin fuel v).before [c] 1 := by
  rw [scanQuoted_cons hbackslash, if_neg (by simpa using hquote), if_neg (by simpa using hfeed),
    if_neg (by simpa using hreturn)]

theorem scanQuoted_closed (hquote : IsQuote quote) (hv : v.head? ≠ some quote) :
    scanQuoted quote margin (fuel + 1) (quote :: v) = ⟨[], 1, .closed⟩ := by
  rw [scanQuoted_cons (hquote.ne (by decide) (by decide)), if_pos (beq_self_eq_true _)]
  cases v with
  | nil => rfl
  | cons d v => exact if_neg (by simpa using hv)

theorem scanQuoted_doubled (hquote : IsQuote quote) :
    scanQuoted quote margin (fuel + 1) (quote :: quote :: v) = (scanQuoted quote margin fuel v).before [quote] 2 := by
  rw [scanQuoted_cons (hquote.ne (by decide) (by decide)), if_pos (beq_self_eq_true _)]
  exact if_pos (beq_self_eq_true _)

theorem scanQuoted_joined :
    scanQuoted '\"' margin (fuel + 1) ('\\' :: '\n' :: v) =
      (scanQuoted '\"' margin fuel (v.drop ((v.take margin).takeWhile isJoinedBlank).length)).before []
        (2 + ((v.take margin).takeWhile isJoinedBlank).length) :=
  rfl

theorem isJoinedBlank_ne (hc : isJoinedBlank c = true) (hd : isBlank d = false ∨ d = '\n') : c ≠ d := by
  rintro rfl
  rcases hd with hd | rfl
  · simp [isJoinedBlank, hd] at hc
  · cases hc

theorem isJoinedBlank_ne_quote (hc : isJoinedBlank c = true) (hquote : IsQuote quote) : c ≠ quote := by
  rcases hquote with rfl | rfl <;> exact isJoinedBlank_ne hc (.inl (by decide))

theorem scanQuoted_blanks {blanks cs : List Char} {n : Nat} (hquote : IsQuote quote)
    (hblanks : ∀ c ∈ blanks, isJoinedBlank c = true) (hv : v.head? ≠ some '\n')
    (h : scanQuoted quote margin fuel v = ⟨cs, n, .closed⟩) :
    scanQuoted quote margin (blanks.length + fuel) (blanks ++ v) = ⟨blanks ++ cs, blanks.length + n, .closed⟩ := by
  induction blanks with
  | nil => simpa using h
  | cons c blanks ih =>
    rw [List.forall_mem_cons] at hblanks
    have hne : ∀ d, isBlank d = false ∨ d = '\n' → c ≠ d := fun d hd => isJoinedBlank_ne hblanks.1 hd
    have hc : c ≠ quote := isJoinedBlank_ne_quote hblanks.1 hquote
    have hnext : (blanks ++ v).head? ≠ some '\n' := by
      cases blanks with
      | nil => exact hv
      | cons d blanks => simpa using isJoinedBlank_ne (hblanks.2 d List.mem_cons_self) (.inr rfl)
    rw [List.length_cons, Nat.add_right_comm, List.cons_append,
      scanQuoted_char hc (hne _ (.inl (by decide))) (hne _ (.inr rfl)) fun _ => hnext, ih hblanks.2]
    simp only [TextScan.before, List.nil_append, List.cons_append, Nat.add_comm 1, Nat.add_right_comm]

theorem takeWhile_take {p : Char → Bool} {blanks : List Char} (hblanks : ∀ c ∈ blanks, p c = true)
    (hv : ∀ c ∈ v.head?, p c = false) : ((blanks ++ v).take margin).takeWhile p = blanks.take margin := by
  have hnone : (v.take (margin - blanks.length)).takeWhile p = [] := by
    cases v with
    | nil => rw [List.take_nil, List.takeWhile_nil]
    | cons c v =>
      cases margin - blanks.length with
      | zero => rfl
      | succ n => exact List.takeWhile_cons_of_neg (by simp [hv c rfl])
  rw [List.take_append, List.takeWhile_append_of_pos fun c hc => hblanks c (List.mem_of_mem_take hc), hnone,
    List.append_nil]

theorem drop_length_take (blanks v : List Char) (margin : Nat) :
    (blanks ++ v).drop (blanks.take margin).length = blanks.drop margin ++ v := by
  have hsplit : blanks ++ v = blanks.take margin ++ (blanks.drop margin ++ v) := by
    rw [← List.append_assoc, List.take_append_drop]
  rw [hsplit, List.drop_left]

/-- After a line break the blanks are left out as far as the margin reaches. -/
theorem scanQuoted_joined_blanks {blanks : List Char} (hblanks : ∀ c ∈ blanks, isJoinedBlank c = true)
    (hv : ∀ c ∈ v.head?, isJoinedBlank c = false) :
    scanQuoted '\"' margin (fuel + 1) ('\\' :: '\n' :: (blanks ++ v)) =
      (scanQuoted '\"' margin fuel (blanks.drop margin ++ v)).before [] (2 + (blanks.take margin).length) := by
  rw [scanQuoted_joined, takeWhile_take hblanks hv, drop_length_take]

theorem scanQuoted_backslash (hquote : IsQuote quote) :
    scanQuoted quote margin (fuel + 1) ['\\'] = ⟨['\\'], 1, .missing⟩ := by
  have hmissing : scanQuoted quote margin fuel [] = ⟨[], 0, .missing⟩ := by
    cases fuel <;> rfl
  rw [scanQuoted.eq_5 quote margin fuel '\\' fun _ _ _ h => List.cons_ne_nil _ _ h.symm, hmissing,
    if_neg (by simpa using (hquote.ne (d := '\\') (by decide) (by decide)).symm)]
  rfl

theorem scanQuoted_badEscape {width : Nat} (hwidth : (c, width) ∈ [('x', 2), ('u', 4), ('U', 8)])
    (hbad : ∀ code, readHex width v = .ok code → charOf? code = none) :
    ∃ written n, scanQuoted quote margin (fuel + 1) ('\\' :: c :: v) = ⟨[], 0, .badEscape written n⟩ := by
  simp only [List.mem_cons, Prod.mk.injEq, List.not_mem_nil, or_false] at hwidth
  cases hread : readHex width v with
  | error written =>
    refine ⟨'\\' :: c :: written, 1 + written.length, ?_⟩
    rcases hwidth with ⟨rfl, rfl⟩ | ⟨rfl, rfl⟩ | ⟨rfl, rfl⟩ <;> simp [scanQuoted, hread]
  | ok code =>
    refine ⟨'\\' :: c :: v.take width, 1 + width, ?_⟩
    have hchar := hbad code hread
    rcases hwidth with ⟨rfl, rfl⟩ | ⟨rfl, rfl⟩ | ⟨rfl, rfl⟩ <;> simp [scanQuoted, hread, hchar]

/-- An escape that is no line break stands for one character. -/
theorem exists_escapes {cs : List Char} {n : Nat}
    (h : scanQuoted quote margin (fuel + 1) ('\\' :: c :: v) = ⟨cs, n, .closed⟩) (hc : ¬(c = '\n' ∧ quote = '\"')) :
    ∃ e d rest, '\\' :: c :: v = e ++ rest ∧ Escapes e d ∧
      (scanQuoted quote margin fuel rest).before [d] e.length = ⟨cs, n, .closed⟩ := by
  by_cases hshort : ∃ d, (c, d) ∈ [('n', '\n'), ('r', '\r'), ('t', '\t'), ('\\', '\\'), ('\"', '\"'), ('\'', '\'')]
  · obtain ⟨d, hd⟩ := hshort
    have hescapes := escapes_short hd
    exact ⟨['\\', c], d, v, rfl, hescapes, (hescapes.scan quote margin fuel v).symm.trans h⟩
  by_cases hlong : ∃ width, (c, width) ∈ [('x', 2), ('u', 4), ('U', 8)]
  · obtain ⟨width, hwidth⟩ := hlong
    obtain ⟨code, d, hread, hchar⟩ : ∃ code d, readHex width v = .ok code ∧ charOf? code = some d := by
      by_contra hbad
      have hbad' : ∀ code, readHex width v = .ok code → charOf? code = none := fun code hread =>
        Option.eq_none_iff_forall_not_mem.mpr fun d hchar => hbad ⟨code, d, hread, hchar⟩
      obtain ⟨written, m, hscan⟩ := scanQuoted_badEscape hwidth hbad'
      rw [hscan] at h
      cases h
    obtain ⟨digits, rest, rfl, hlength, hdigits, hread'⟩ := readHex_ok hread
    have hescapes := escapes_hex hwidth hlength hdigits hread' hchar
    exact ⟨'\\' :: c :: digits, d, rest, rfl, hescapes, (hescapes.scan quote margin fuel rest).symm.trans h⟩
  · obtain ⟨hn, hr, ht, hbackslash, hdouble, hsingle⟩ : c ≠ 'n' ∧ c ≠ 'r' ∧ c ≠ 't' ∧ c ≠ '\\' ∧ c ≠ '\"' ∧ c ≠ '\'' := by
      and_intros <;> rintro rfl <;> exact hshort (by simp)
    obtain ⟨hx, hu, hU⟩ : c ≠ 'x' ∧ c ≠ 'u' ∧ c ≠ 'U' := by
      and_intros <;> rintro rfl <;> exact hlong (by simp)
    rw [scanQuoted] at h
    simp [hn, hr, ht, hbackslash, hdouble, hsingle, hx, hu, hU, hc] at h

/-! ## Texts -/

/-- The characters of a text up to its closing quote, and the text for each margin. -/
inductive QuotedText (quote : Char) : List Char → (Nat → List Char) → Prop
  | closed : QuotedText quote [quote] fun _ => []
  | doubled {w : List Char} {f : Nat → List Char} (h : QuotedText quote w f) :
    QuotedText quote (quote :: quote :: w) fun margin => quote :: f margin
  | escape {e w : List Char} {f : Nat → List Char} {d : Char} (he : Escapes e d) (h : QuotedText quote w f) :
    QuotedText quote (e ++ w) fun margin => d :: f margin
  | joined {blanks w : List Char} {f : Nat → List Char} (hquote : quote = '\"')
    (hblanks : ∀ c ∈ blanks, isJoinedBlank c = true) (hhead : ∀ c ∈ w.head?, isJoinedBlank c = false)
    (h : QuotedText quote w f) :
    QuotedText quote ('\\' :: '\n' :: (blanks ++ w)) fun margin => blanks.drop margin ++ f margin
  | char {w : List Char} {f : Nat → List Char} {c : Char} (hquote : c ≠ quote) (hbackslash : c ≠ '\\')
    (hfeed : c ≠ '\n') (h : QuotedText quote w f) : QuotedText quote (c :: w) fun margin => c :: f margin

namespace QuotedText

variable {f : Nat → List Char}

theorem ne_nil (h : QuotedText quote w f) : w ≠ [] := by
  cases h with
  | escape he h =>
    obtain ⟨more, rfl⟩ := he.backslash
    exact List.cons_ne_nil _ _
  | _ => exact List.cons_ne_nil _ _

theorem head?_ne_feed (hquote : IsQuote quote) (h : QuotedText quote w f) : w.head? ≠ some '\n' := by
  have hne : quote ≠ '\n' := hquote.ne (by decide) (by decide)
  cases h with
  | closed | doubled => simpa using hne
  | escape he h =>
    obtain ⟨more, rfl⟩ := he.backslash
    simp
  | joined => simp
  | char _ _ hfeed => simpa using hfeed

theorem getLast? (h : QuotedText quote w f) : w.getLast? = some quote := by
  induction h with
  | closed => rfl
  | doubled h ih => rw [List.getLast?_cons, List.getLast?_cons, ih]; rfl
  | escape he h ih => rw [List.getLast?_append, ih]; rfl
  | joined _ _ _ h ih => rw [List.getLast?_cons, List.getLast?_cons, List.getLast?_append, ih]; rfl
  | char _ _ _ h ih => rw [List.getLast?_cons, ih]; rfl

/-- Only line breaks make the margin count. -/
theorem margin_irrelevant (h : QuotedText quote w f) (hw : '\n' ∉ w) (m m' : Nat) :
    f m = f m' := by
  induction h with
  | closed => rfl
  | doubled h ih => exact congrArg _ (ih fun hmem => hw (List.mem_cons_of_mem _ (List.mem_cons_of_mem _ hmem)))
  | escape he h ih => exact congrArg _ (ih fun hmem => hw (List.mem_append_right _ hmem))
  | joined => exact absurd (List.mem_cons_of_mem _ List.mem_cons_self) hw
  | char _ _ _ h ih => exact congrArg _ (ih fun hmem => hw (List.mem_cons_of_mem _ hmem))

theorem newline_not_mem (hquote : quote = '\'') (h : QuotedText quote w f) : '\n' ∉ w := by
  induction h with
  | closed => simp [hquote]
  | doubled h ih => simp [hquote, ih]
  | escape he h ih =>
    rw [List.mem_append, not_or]
    exact ⟨he.oneLine, ih⟩
  | joined hdouble =>
    rw [hdouble] at hquote
    cases hquote
  | char _ _ hfeed h ih => simp [Ne.symm hfeed, ih]

/-- The scanner reads such a text as a whole. -/
theorem scan (hquote : IsQuote quote) (h : QuotedText quote w f) (hrest : rest.head? ≠ some quote) (margin : Nat)
    {fuel : Nat} (hfuel : w.length ≤ fuel) :
    scanQuoted quote margin fuel (w ++ rest) = ⟨f margin, w.length, .closed⟩ := by
  induction h generalizing fuel with
  | closed =>
    obtain ⟨fuel, rfl⟩ : ∃ n, fuel = n + 1 := ⟨fuel - 1, by simp at hfuel; omega⟩
    exact scanQuoted_closed hquote hrest
  | doubled h ih =>
    simp only [List.length_cons] at hfuel
    obtain ⟨fuel, rfl⟩ : ∃ n, fuel = n + 1 := ⟨fuel - 1, by omega⟩
    rw [List.cons_append, List.cons_append, scanQuoted_doubled hquote, ih (by omega)]
    simp only [TextScan.before, List.singleton_append, List.length_cons, Nat.add_comm 2]
  | @escape e w f d he h ih =>
    have hpos : 0 < e.length := by
      obtain ⟨more, rfl⟩ := he.backslash
      exact Nat.succ_pos _
    rw [List.length_append] at hfuel
    obtain ⟨fuel, rfl⟩ : ∃ n, fuel = n + 1 := ⟨fuel - 1, by omega⟩
    rw [List.append_assoc, he.scan, ih (by omega), List.length_append]
    rfl
  | @joined blanks w f hdouble hblanks hhead h ih =>
    subst hdouble
    simp only [List.length_cons, List.length_append] at hfuel
    obtain ⟨fuel, rfl⟩ : ∃ n, fuel = n + 1 := ⟨fuel - 1, by omega⟩
    have hstop : ∀ c ∈ (w ++ rest).head?, isJoinedBlank c = false := by
      rwa [List.head?_append_of_ne_nil _ h.ne_nil]
    have hfeed : (w ++ rest).head? ≠ some '\n' := by
      rw [List.head?_append_of_ne_nil _ h.ne_nil]
      exact h.head?_ne_feed hquote
    have hleft : ∀ c ∈ blanks.drop margin, isJoinedBlank c = true := fun c hc => hblanks c (List.mem_of_mem_drop hc)
    obtain ⟨more, rfl⟩ : ∃ more, fuel = (blanks.drop margin).length + more :=
      ⟨fuel - (blanks.drop margin).length, by rw [List.length_drop]; omega⟩
    rw [List.length_drop] at hfuel
    rw [List.cons_append, List.cons_append, List.append_assoc, scanQuoted_joined_blanks hblanks hstop,
      scanQuoted_blanks hquote hleft hfeed (ih (by omega))]
    simp only [TextScan.before, List.nil_append, List.length_cons, List.length_append, List.length_take,
      List.length_drop]
    congr 1
    omega
  | @char w f c hne hbackslash hfeed h ih =>
    simp only [List.length_cons] at hfuel
    obtain ⟨fuel, rfl⟩ : ∃ n, fuel = n + 1 := ⟨fuel - 1, by omega⟩
    have hnext : c = '\r' → (w ++ rest).head? ≠ some '\n' := fun _ => by
      rw [List.head?_append_of_ne_nil _ h.ne_nil]
      exact h.head?_ne_feed hquote
    rw [List.cons_append, scanQuoted_char hne hbackslash hfeed hnext, ih (by omega)]
    simp only [TextScan.before, List.singleton_append, List.length_cons, Nat.add_comm 1]

theorem of_blanks (hquote : IsQuote quote) {blanks : List Char} (hblanks : ∀ c ∈ blanks, isJoinedBlank c = true)
    (h : QuotedText quote w f) (heq : w ++ rest = blanks ++ v) :
    ∃ w' f', w = blanks ++ w' ∧ v = w' ++ rest ∧ QuotedText quote w' f' ∧ ∀ margin, f margin = blanks ++ f' margin := by
  induction blanks generalizing w f with
  | nil => exact ⟨w, f, rfl, heq.symm, h, fun _ => rfl⟩
  | cons c blanks ih =>
    rw [List.forall_mem_cons] at hblanks
    have hc : c ≠ quote := isJoinedBlank_ne_quote hblanks.1 hquote
    have hbackslash : c ≠ '\\' := isJoinedBlank_ne hblanks.1 (.inl (by decide))
    cases h with
    | closed | doubled => exact absurd (List.cons.inj heq).1.symm hc
    | escape he h =>
      obtain ⟨more, rfl⟩ := he.backslash
      exact absurd (List.cons.inj heq).1.symm hbackslash
    | joined => exact absurd (List.cons.inj heq).1.symm hbackslash
    | char _ _ _ h =>
      rw [List.cons_append, List.cons_append, List.cons.injEq] at heq
      obtain ⟨rfl, heq⟩ := heq
      obtain ⟨w', f', rfl, rfl, h', hf⟩ := ih hblanks.2 h heq
      exact ⟨w', f', rfl, rfl, h', fun margin => congrArg _ (hf margin)⟩

theorem of_scan (hquote : IsQuote quote) {margin fuel n : Nat} {cs : List Char}
    (h : scanQuoted quote margin fuel v = ⟨cs, n, .closed⟩) :
    ∃ w rest f, v = w ++ rest ∧ n = w.length ∧ QuotedText quote w f ∧ f margin = cs ∧ rest.head? ≠ some quote := by
  induction fuel generalizing v cs n with
  | zero => cases h
  | succ fuel ih =>
    cases v with
    | nil => cases h
    | cons c v =>
      by_cases hbackslash : c = '\\'
      · subst hbackslash
        cases v with
        | nil =>
          rw [scanQuoted_backslash hquote] at h
          cases h
        | cons c v =>
          by_cases hjoined : c = '\n' ∧ quote = '\"'
          · obtain ⟨rfl, rfl⟩ := hjoined
            obtain ⟨blanks, v, rfl, hblanks, hv⟩ := exists_span isJoinedBlank v
            rw [scanQuoted_joined_blanks hblanks hv] at h
            obtain ⟨cs', n', hscan, rfl, rfl⟩ := TextScan.eq_of_before h (.inl rfl)
            obtain ⟨w, rest, f, heq, rfl, hw, rfl, hrest⟩ := ih hscan
            have hleft : ∀ c ∈ blanks.drop margin, isJoinedBlank c = true := fun c hc => hblanks c (List.mem_of_mem_drop hc)
            obtain ⟨w', f', rfl, rfl, hw', hf⟩ := hw.of_blanks hquote hleft heq.symm
            rw [List.head?_append_of_ne_nil _ hw'.ne_nil] at hv
            refine ⟨'\\' :: '\n' :: (blanks ++ w'), rest, _, by simp, ?_, .joined rfl hblanks hv hw', (hf margin).symm, hrest⟩
            simp only [List.length_cons, List.length_append, List.length_take, List.length_drop]
            omega
          · obtain ⟨e, d, rest, heq, he, hbefore⟩ := exists_escapes h hjoined
            obtain ⟨cs', n', hscan, rfl, rfl⟩ := TextScan.eq_of_before hbefore (.inl rfl)
            obtain ⟨w, rest, f, rfl, rfl, hw, rfl, hrest⟩ := ih hscan
            exact ⟨e ++ w, rest, _, by rw [heq, List.append_assoc], by rw [List.length_append], .escape he hw, rfl, hrest⟩
      by_cases hc : c = quote
      · subst hc
        by_cases hdoubled : v.head? = some c
        · obtain ⟨v, rfl⟩ := List.head?_eq_some_iff.mp hdoubled
          rw [scanQuoted_doubled hquote] at h
          obtain ⟨cs', n', hscan, rfl, rfl⟩ := TextScan.eq_of_before h (.inl rfl)
          obtain ⟨w, rest, f, rfl, rfl, hw, rfl, hrest⟩ := ih hscan
          exact ⟨c :: c :: w, rest, _, rfl, Nat.add_comm _ _, .doubled hw, rfl, hrest⟩
        · rw [scanQuoted_closed hquote hdoubled] at h
          cases h
          exact ⟨[c], v, _, rfl, rfl, .closed, rfl, hdoubled⟩
      · rw [scanQuoted_cons hbackslash, if_neg (by simpa using hc)] at h
        split_ifs at h with hfeed hreturn
        · cases h
        · obtain ⟨hr, hhead⟩ : c = '\r' ∧ v.head? = some '\n' := by simpa using hreturn
          obtain ⟨cs', n', hscan, -, -⟩ := TextScan.eq_of_before h (.inl rfl)
          obtain ⟨w, rest, f, rfl, -, hw, -, -⟩ := ih hscan
          rw [List.head?_append_of_ne_nil _ hw.ne_nil] at hhead
          exact absurd hhead (hw.head?_ne_feed hquote)
        · obtain ⟨cs', n', hscan, rfl, rfl⟩ := TextScan.eq_of_before h (.inl rfl)
          obtain ⟨w, rest, f, rfl, rfl, hw, rfl, hrest⟩ := ih hscan
          exact ⟨c :: w, rest, _, rfl, Nat.add_comm _ _, .char hc hbackslash (by simpa using hfeed) hw, rfl, hrest⟩

/-- **Blanks put after its line breaks are not in the text, if its margin grows by their number.** -/
theorem indented (hquote : IsQuote quote) (hindent : ∀ c ∈ indent, c = ' ') (h : QuotedText quote w f) :
    ∃ f', QuotedText quote (indentBreaks indent w) f' ∧ ∀ margin, f' (margin + indent.length) = f margin := by
  have hfeed : quote ≠ '\n' := hquote.ne (by decide) (by decide)
  have hreturn : quote ≠ '\r' := hquote.ne (by decide) (by decide)
  induction h with
  | closed =>
    rw [indentBreaks_cons_of_ne hfeed hreturn]
    exact ⟨_, .closed, fun _ => rfl⟩
  | doubled h ih =>
    obtain ⟨f', h', hf⟩ := ih
    rw [indentBreaks_cons_of_ne hfeed hreturn, indentBreaks_cons_of_ne hfeed hreturn]
    exact ⟨_, .doubled h', fun margin => congrArg _ (hf margin)⟩
  | @escape e w f d he h ih =>
    obtain ⟨f', h', hf⟩ := ih
    rw [indentBreaks_append fun hlast => absurd (List.mem_of_getLast? hlast) he.noReturn, indentBreaks_of_not_mem he.oneLine]
    exact ⟨_, .escape he h', fun margin => congrArg _ (hf margin)⟩
  | @joined blanks w f hdouble hblanks hhead h ih =>
    obtain ⟨f', h', hf⟩ := ih
    have hblanks' : ∀ c ∈ indent ++ blanks, isJoinedBlank c = true := by
      rw [List.forall_mem_append]
      exact ⟨fun c hc => by rw [hindent c hc]; decide, hblanks⟩
    have hcut : blanks.getLast? = some '\r' → w.head? ≠ some '\n' := fun _ => h.head?_ne_feed hquote
    have hone : '\n' ∉ blanks := fun hmem => isJoinedBlank_ne (hblanks _ hmem) (.inr rfl) rfl
    rw [indentBreaks_cons_of_ne (by decide) (by decide), indentBreaks_feed, indentBreaks_append hcut,
      indentBreaks_of_not_mem hone, ← List.append_assoc]
    refine ⟨_, .joined hdouble hblanks' ?_ h', fun margin => ?_⟩
    · intro c hc
      by_cases hfeed : c = '\n'
      · rw [hfeed]
        rfl
      · rw [head?_indentBreaks (by rw [hc]; simpa using hfeed)] at hc
        exact hhead c hc
    · simp [hf, List.drop_append]
  | @char w f c hne hbackslash hc h ih =>
    obtain ⟨f', h', hf⟩ := ih
    rw [indentBreaks_cons hc fun _ => h.head?_ne_feed hquote]
    exact ⟨_, .char hne hbackslash hc h', fun margin => congrArg _ (hf margin)⟩

end QuotedText

end Worksheet.Formula
