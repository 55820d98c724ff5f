import Mathlib.Data.List.Basic
import Worksheet.Proofs.Decimal.Notation
import Worksheet.Proofs.Decimal.Range
import Worksheet.Proofs.Json.Text
/-!
# Reading what was written

A value of texts and integers of 64 bits is read back from its text, in both layouts.

* `Json.Plain`: such a value, its brackets not nested deeper than a bound;
* `scanNumber_integerText`: integers;
* `readItems_chars`, `readMembers_chars`, `readValue_chars`: a value inside of a longer text, by induction on how
  deep brackets are nested;
* **`read?_print`**: the text of a value.
-/

namespace Worksheet.Json

/-- A value of texts, integers of 64 bits, truth values and nulls, its brackets nested `depth` deep at most. -/
def Plain : Nat → Json → Prop
  | _, null => True
  | _, bool _ => True
  | _, integer n => Word.fits n = true
  | _, text _ => True
  | depth + 1, array items => ∀ j ∈ items, Plain depth j
  | depth + 1, object members => ∀ m ∈ members, Plain depth m.2
  | _, _ => False

/-! ## What may follow a value -/

/-- A value ends where the rest starts. -/
def Ends (rest : List Char) : Prop :=
  ∀ c ∈ rest.head?, isSpace c = true ∨ c ∈ [',', ']', '\x7d']

variable {rest : List Char}

theorem ends_nil : Ends [] := nofun

theorem ends_cons {c : Char} (hc : c ∈ [',', ']', '\x7d']) (rest : List Char) : Ends (c :: rest) := by
  rintro d ⟨⟩
  exact .inr hc

theorem Ends.not_number (h : Ends rest) :
    ∀ c ∈ rest.head?, c.isDigit = false ∧ c ≠ '.' ∧ c ≠ 'e' ∧ c ≠ 'E' := by
  intro c hc
  have hmem : c ∈ [' ', '\t', '\n', '\r', ',', ']', '\x7d'] := by
    have := h c hc
    simp only [isSpace, Bool.or_eq_true, beq_iff_eq, List.mem_cons, List.not_mem_nil, or_false] at this ⊢
    tauto
  simp only [List.mem_cons, List.not_mem_nil, or_false] at hmem
  rcases hmem with rfl | rfl | rfl | rfl | rfl | rfl | rfl <;> decide

/-! ## Integers -/

theorem head_toDigits {n : Nat} (hn : 0 < n) : ∃ d ds, Nat.toDigits 10 n = d :: ds ∧ d ≠ '0' := by
  induction n using Nat.strongRecOn with
  | _ n ih =>
    rw [Nat.toDigits_eq_if (by decide)]
    split_ifs with hlt
    · have key : ∀ m < 10, 0 < m → Nat.digitChar m ≠ '0' := by decide
      exact ⟨_, _, rfl, key n hlt hn⟩
    · obtain ⟨d, ds, hds, hd⟩ := ih (n / 10) (by omega) (by omega)
      exact ⟨d, ds ++ [Nat.digitChar (n % 10)], by rw [hds]; rfl, hd⟩

theorem scanWhole_toDigits (n : Nat) (hrest : ∀ c ∈ rest.head?, c.isDigit = false) :
    scanWhole (Nat.toDigits 10 n ++ rest) = some (Nat.toDigits 10 n, rest) := by
  rcases Nat.eq_zero_or_pos n with rfl | hn
  · rfl
  · have hspan := span_digits (allDigits_toDigits n) hrest
    obtain ⟨d, ds, hds, hd⟩ := head_toDigits hn
    rw [hds, List.cons_append] at hspan ⊢
    unfold scanWhole
    split
    · rename_i heq
      exact absurd (List.cons.inj heq).1 hd
    · rw [hspan]
      rfl

theorem numberOf_toDigits {n : Int} (hn : Word.fits n = true) :
    numberOf (decide (n < 0)) (Nat.toDigits 10 n.natAbs) none none = integer n := by
  have hsmall : n.natAbs < 2 ^ 64 := by
    simp only [Word.fits, Bool.and_eq_true, decide_eq_true_eq] at hn
    unfold Word.least Word.greatest at hn
    omega
  have hfinite := Binary64.isFinite_ofDecimal_natural hsmall (decide (n < 0))
  have hzero : (decide (n < 0) && n.natAbs == 0) = false := by
    simp only [Bool.and_eq_false_iff, decide_eq_false_iff_not, beq_eq_false_iff_ne]
    omega
  have hvalue : (if n < 0 then -(n.natAbs : Int) else n.natAbs) = n := by
    split_ifs <;> omega
  have hexponent : (0 : Int) - (([] : List Char).length : Int) = 0 := rfl
  simp only [numberOf, Decimal.toBinary64, Option.getD_none, List.append_nil, digitsValue_toDigits, hexponent, hfinite,
    Bool.not_true, Bool.false_eq_true, if_false, Option.isNone_none, Bool.and_self, hzero, Bool.not_false, if_true,
    decide_eq_true_eq, hvalue]

/-- **An integer is read back.** -/
theorem scanNumber_integerText {n : Int} (hn : Word.fits n = true) (hrest : Ends rest) :
    scanNumber (integerText n ++ rest) = some (integer n, rest) := by
  have hhead := hrest.not_number
  have hfraction : scanFraction rest = some (none, rest) := by
    unfold scanFraction
    split
    · exact absurd rfl (hhead '.' rfl).2.1
    · rfl
  have hexponent : scanExponent rest = some (none, rest) := by
    cases rest with
    | nil => rfl
    | cons c rest => simp [scanExponent, hhead c rfl]
  have hwhole := scanWhole_toDigits n.natAbs fun c hc => (hhead c hc).1
  have hnumber := numberOf_toDigits hn
  unfold integerText
  split_ifs with hneg
  · rw [decide_eq_true hneg] at hnumber
    simp [scanNumber, hwhole, hfraction, hexponent, hnumber]
  · rw [decide_eq_false hneg] at hnumber
    obtain ⟨d, ds, hds⟩ := List.exists_cons_of_ne_nil (Nat.toDigits_ne_nil (b := 10) (n := n.natAbs))
    have hd : d ≠ '-' := by
      rintro rfl
      exact absurd (allDigits_toDigits n.natAbs '-' (by rw [hds]; exact List.mem_cons_self)) (by decide)
    rw [hds, List.cons_append] at hwhole ⊢
    rw [hds] at hnumber
    simp [scanNumber, hd, hwhole, hfraction, hexponent, hnumber]

/-! ## White space -/

theorem isSpace_nil : ∀ c ∈ ([] : List Char), isSpace c = true := nofun

theorem skipSpace_append {ws cs : List Char} (hws : ∀ c ∈ ws, isSpace c = true)
    (hcs : ∀ c ∈ cs.head?, isSpace c = false) : skipSpace (ws ++ cs) = cs := by
  rw [skipSpace, List.dropWhile_append_of_pos hws]
  cases cs with
  | nil => rfl
  | cons c cs => rw [List.dropWhile_cons_of_neg (by simp [hcs c rfl])]

theorem isSpace_newLine (l : Layout) (level : Nat) : ∀ c ∈ l.newLine level, isSpace c = true := by
  cases l with
  | compact => nofun
  | pretty =>
    intro c hc
    rcases List.mem_cons.mp hc with rfl | hc
    · rfl
    · rw [List.eq_of_mem_replicate hc]
      rfl

theorem ends_newLine (l : Layout) (level : Nat) {c : Char} (hc : c ∈ [',', ']', '\x7d']) (rest : List Char) :
    Ends (l.newLine level ++ c :: rest) := by
  cases l with
  | compact => exact ends_cons hc rest
  | pretty =>
    rintro d ⟨⟩
    exact .inl rfl

/-! ## Values -/

/-- The characters that a value other than a number starts with, white space, and closing brackets. -/
def nonNumeric : List Char :=
  ['n', 't', 'f', '\"', '[', '\x7b', ' ', '\t', '\n', '\r', ']', '\x7d']

theorem head_integerText (n : Int) : ∃ c rest, integerText n = c :: rest ∧ c ∉ nonNumeric := by
  unfold integerText
  split_ifs
  · exact ⟨'-', _, rfl, by decide⟩
  · obtain ⟨d, ds, hds⟩ := List.exists_cons_of_ne_nil (Nat.toDigits_ne_nil (b := 10) (n := n.natAbs))
    have hd : d.isDigit = true := allDigits_toDigits n.natAbs d (by rw [hds]; exact List.mem_cons_self)
    have key : nonNumeric.all (!·.isDigit) = true := by decide
    refine ⟨d, ds, hds, fun hmem => ?_⟩
    have hnot := List.all_eq_true.mp key d hmem
    rw [hd] at hnot
    cases hnot

/-- A value starts with a character that is neither white space nor a closing bracket. -/
theorem head_chars (l : Layout) (level : Nat) {depth : Nat} {j : Json} (hj : j.Plain depth) :
    ∃ c rest, j.chars l level = c :: rest ∧ isSpace c = false ∧ c ≠ ']' := by
  cases j with
  | null => exact ⟨'n', _, rfl, by decide, by decide⟩
  | bool b => cases b <;> exact ⟨_, _, rfl, by decide, by decide⟩
  | integer n =>
    obtain ⟨c, rest, hcons, hc⟩ := head_integerText n
    refine ⟨c, rest, hcons, ?_, ?_⟩
    · by_contra hspace
      simp only [isSpace, Bool.not_eq_false, Bool.or_eq_true, beq_iff_eq] at hspace
      rcases hspace with ((rfl | rfl) | rfl) | rfl <;> exact hc (by decide)
    · rintro rfl
      exact hc (by decide)
  | decimal d => cases depth <;> exact hj.elim
  | text s => exact ⟨'\"', _, rfl, by decide, by decide⟩
  | array items => cases items <;> exact ⟨'[', _, rfl, by decide, by decide⟩
  | object members => cases members <;> exact ⟨'\x7b', _, rfl, by decide, by decide⟩
  | unusable => cases depth <;> exact hj.elim

/-- The value is read from its text, wherever it stands. -/
def ReadsBack (l : Layout) (depth : Nat) (j : Json) : Prop :=
  ∀ level fuel ws rest, (j.chars l level).length ≤ fuel → (∀ c ∈ ws, isSpace c = true) → Ends rest →
    readValue fuel depth (ws ++ (j.chars l level ++ rest)) = some (j, rest)

variable {l : Layout} {depth : Nat}

theorem itemChars_cons_cons (level : Nat) (j k : Json) (rest : List Json) :
    itemChars l level (j :: k :: rest) = j.chars l level ++ ',' :: (l.newLine level ++ itemChars l level (k :: rest)) := by
  rw [itemChars]
  nofun

theorem memberChars_cons_cons (level : Nat) (name : String) (j : Json) (m : String × Json)
    (rest : List (String × Json)) :
    memberChars l level ((name, j) :: m :: rest) = quoted name ++ (l.colon ++
      (j.chars l level ++ ',' :: (l.newLine level ++ memberChars l level (m :: rest)))) := by
  rw [memberChars]
  nofun

theorem quoted_append (name : String) (cs : List Char) :
    quoted name ++ cs = '\"' :: (name.toList.flatMap escaped ++ '\"' :: cs) := by
  simp [quoted]

theorem readItems_chars {items : List Json} (hne : items ≠ []) (hitems : ∀ j ∈ items, ReadsBack l depth j)
    (level : Nat) {fuel : Nat} (hfuel : (itemChars l level items).length < fuel) {ws ws' : List Char}
    (hws : ∀ c ∈ ws, isSpace c = true) (hws' : ∀ c ∈ ws', isSpace c = true) (hends : Ends (ws' ++ ']' :: rest)) :
    readItems fuel depth (ws ++ (itemChars l level items ++ (ws' ++ ']' :: rest))) = some (items, rest) := by
  induction items generalizing fuel ws with
  | nil => exact absurd rfl hne
  | cons j items ih =>
    obtain ⟨fuel, rfl⟩ : ∃ n, fuel = n + 1 := ⟨fuel - 1, by omega⟩
    rw [List.forall_mem_cons] at hitems
    cases items with
    | nil =>
      rw [itemChars] at hfuel ⊢
      have hvalue := hitems.1 level fuel ws (ws' ++ ']' :: rest) (by omega) hws hends
      have hclose : skipSpace (ws' ++ ']' :: rest) = ']' :: rest := skipSpace_append hws' (by rintro c ⟨⟩; rfl)
      rw [readItems, hvalue, Option.bind_eq_bind, Option.bind_some]
      simp only [hclose]
    | cons k more =>
      rw [itemChars_cons_cons] at hfuel ⊢
      rw [List.length_append, List.length_cons, List.length_append] at hfuel
      simp only [List.append_assoc, List.cons_append]
      have hvalue := fun tail => hitems.1 level fuel ws (',' :: tail) (by omega) hws (ends_cons (by decide) tail)
      have hcomma : ∀ cs, skipSpace (',' :: cs) = ',' :: cs := fun cs => rfl
      have hmore := ih nofun hitems.2 (show _ < fuel by omega) (isSpace_newLine l level)
      rw [readItems, hvalue, Option.bind_eq_bind, Option.bind_some]
      simp only [hcomma, hmore, Option.bind_eq_bind, Option.bind_some]

/-- What is read after a member. -/
def membersAfter (fuel depth : Nat) (member : Option String × Json) : List Char →
    Option (List (Option String × Json) × List Char)
  | ',' :: rest => do
    let (members, rest) ← readMembers fuel depth rest
    some (member :: members, rest)
  | '\x7d' :: rest => some ([member], rest)
  | _ => none

theorem readMembers_member {name : String} {j : Json} (hj : ReadsBack l depth j) {level fuel : Nat}
    (hfuel : (j.chars l level).length ≤ fuel) {ws tail : List Char} (hws : ∀ c ∈ ws, isSpace c = true)
    (htail : Ends tail) :
    readMembers (fuel + 1) depth (ws ++ (quoted name ++ (l.colon ++ (j.chars l level ++ tail)))) =
      membersAfter fuel depth (some name, j) (skipSpace tail) := by
  obtain ⟨blank, hblank, hcolon⟩ : ∃ blank, (∀ c ∈ blank, isSpace c = true) ∧ l.colon = ':' :: blank := by
    cases l with
    | compact => exact ⟨[], by simp, rfl⟩
    | pretty => exact ⟨[' '], by simp [isSpace], rfl⟩
  have hvalue := hj level fuel blank tail hfuel hblank htail
  have hquote : ∀ cs, skipSpace (ws ++ '\"' :: cs) = '\"' :: cs := fun cs => skipSpace_append hws (by rintro c ⟨⟩; rfl)
  have hskip : ∀ cs, skipSpace (':' :: cs) = ':' :: cs := fun cs => rfl
  rw [readMembers, quoted_append]
  simp only [hquote, scanText_escaped, hcolon, List.cons_append, joinPieces_pieces, hskip, hvalue, Option.bind_eq_bind,
    Option.bind_some, Option.map_some, String.ofList_toList]
  rfl

theorem readMembers_chars {members : List (String × Json)} (hne : members ≠ [])
    (hmembers : ∀ m ∈ members, ReadsBack l depth m.2) (level : Nat) {fuel : Nat}
    (hfuel : (memberChars l level members).length < fuel) {ws ws' : List Char}
    (hws : ∀ c ∈ ws, isSpace c = true) (hws' : ∀ c ∈ ws', isSpace c = true) (hends : Ends (ws' ++ '\x7d' :: rest)) :
    readMembers fuel depth (ws ++ (memberChars l level members ++ (ws' ++ '\x7d' :: rest))) =
      some (members.map fun m => (some m.1, m.2), rest) := by
  induction members generalizing fuel ws with
  | nil => exact absurd rfl hne
  | cons m members ih =>
    obtain ⟨name, j⟩ := m
    obtain ⟨fuel, rfl⟩ : ∃ n, fuel = n + 1 := ⟨fuel - 1, by omega⟩
    obtain ⟨hj, hmembers⟩ : ReadsBack l depth j ∧ ∀ m ∈ members, ReadsBack l depth m.2 := List.forall_mem_cons.mp hmembers
    cases members with
    | nil =>
      rw [memberChars] at hfuel ⊢
      rw [List.length_append, List.length_append] at hfuel
      have hclose : skipSpace (ws' ++ '\x7d' :: rest) = '\x7d' :: rest := skipSpace_append hws' (by rintro c ⟨⟩; rfl)
      rw [List.append_assoc, List.append_assoc, readMembers_member hj (by omega) hws hends, hclose]
      rfl
    | cons m' more =>
      rw [memberChars_cons_cons] at hfuel ⊢
      simp only [List.length_append, List.length_cons] at hfuel
      have hcomma : ∀ cs, skipSpace (',' :: cs) = ',' :: cs := fun cs => rfl
      have hmore := ih nofun hmembers (show _ < fuel by omega) (isSpace_newLine l level)
      rw [List.append_assoc, List.append_assoc, List.append_assoc, List.cons_append, List.append_assoc,
        readMembers_member hj (by omega) hws (ends_cons (by decide) _), hcomma]
      rw [membersAfter, hmore]
      rfl

theorem readValue_number {c : Char} (hc : c ∉ nonNumeric) (fuel depth : Nat) (cs : List Char) :
    readValue (fuel + 1) depth (c :: cs) = scanNumber (c :: cs) := by
  have hskip : skipSpace (c :: cs) = c :: cs := List.dropWhile_cons_of_neg fun hspace => hc <| by
    simp only [isSpace, Bool.or_eq_true, beq_iff_eq] at hspace
    rcases hspace with ((rfl | rfl) | rfl) | rfl <;> decide
  rw [readValue, hskip]
  split
  all_goals first
    | rfl
    | rename_i heq
      obtain rfl := (List.cons.inj heq).1
      exact absurd (by decide) hc

theorem readValue_append {ws cs : List Char} (hws : ∀ c ∈ ws, isSpace c = true)
    (hcs : ∀ c ∈ cs.head?, isSpace c = false) (fuel depth : Nat) :
    readValue fuel depth (ws ++ cs) = readValue fuel depth cs := by
  have hskip : skipSpace cs = cs := skipSpace_append isSpace_nil hcs
  cases fuel with
  | zero => rfl
  | succ fuel => rw [readValue, readValue, skipSpace_append hws hcs, hskip]

theorem readValue_array {items : List Json} (hplain : ∀ j ∈ items, j.Plain depth)
    (hitems : ∀ j ∈ items, ReadsBack l depth j) {level fuel : Nat}
    (hfuel : ((array items).chars l level).length ≤ fuel + 1) (rest : List Char) :
    readValue (fuel + 1) (depth + 1) ((array items).chars l level ++ rest) = some (array items, rest) := by
  cases items with
  | nil => rfl
  | cons j items =>
    obtain ⟨c, cs, hcons, hspace, hclose⟩ : ∃ c cs, itemChars l (level + 1) (j :: items) = c :: cs ∧
        isSpace c = false ∧ c ≠ ']' := by
      obtain ⟨c, cs, hcons, hc⟩ := head_chars l (level + 1) (hplain j List.mem_cons_self)
      cases items with
      | nil => exact ⟨c, cs, hcons, hc⟩
      | cons k more => exact ⟨c, _, by rw [itemChars_cons_cons, hcons]; rfl, hc⟩
    have hchars : (array (j :: items)).chars l level = '[' :: (l.newLine (level + 1) ++
      (itemChars l (level + 1) (j :: items) ++ (l.newLine level ++ [']']))) := by
        rw [chars]
        nofun
    rw [hchars] at hfuel ⊢
    simp only [List.length_cons, List.length_append, List.length_nil] at hfuel
    have hread := readItems_chars (List.cons_ne_nil j items) hitems (level + 1) (show _ < fuel by omega)
      isSpace_nil (isSpace_newLine l level) (ends_newLine l level (by decide) rest)
    have hopen : ∀ cs, skipSpace ('[' :: cs) = '[' :: cs := fun cs => rfl
    have hskip : ∀ tail, skipSpace (l.newLine (level + 1) ++ (c :: cs ++ tail)) = c :: (cs ++ tail) := fun tail =>
      skipSpace_append (isSpace_newLine l (level + 1)) (by rintro d ⟨⟩; exact hspace)
    rw [hcons] at hread ⊢
    simp only [List.cons_append, List.append_assoc, List.nil_append] at hread ⊢
    rw [readValue, hopen]
    simp only [List.cons_append] at hskip
    simp only [hskip]
    split
    · rename_i heq
      exact absurd (List.cons.inj heq).1 hclose
    · rw [Nat.add_sub_cancel, hread]
      rfl

theorem objectAt_names (depth : Nat) (members : List (String × Json)) :
    objectAt (depth + 1) (members.map fun m => (some m.1, m.2)) = object members := by
  have hnames : (members.map fun m => (some m.1, m.2)).mapM (fun m => m.1.map (·, m.2)) = some members := by
    induction members with
    | nil => rfl
    | cons m members ih => simp [ih]
  simp only [objectAt, hnames]

theorem readValue_object {members : List (String × Json)} (hmembers : ∀ m ∈ members, ReadsBack l depth m.2)
    {level fuel : Nat} (hfuel : ((object members).chars l level).length ≤ fuel + 1) (rest : List Char) :
    readValue (fuel + 1) (depth + 1) ((object members).chars l level ++ rest) = some (object members, rest) := by
  cases members with
  | nil => rfl
  | cons m members =>
    obtain ⟨tail, hhead⟩ : ∃ tail, memberChars l (level + 1) (m :: members) = '\"' :: tail := by
      obtain ⟨name, j⟩ := m
      cases members with
      | nil => exact ⟨_, rfl⟩
      | cons m' more => exact ⟨_, by rw [memberChars_cons_cons, quoted_append]⟩
    have hchars : (object (m :: members)).chars l level = '\x7b' :: (l.newLine (level + 1) ++
      (memberChars l (level + 1) (m :: members) ++ (l.newLine level ++ ['\x7d']))) := by
        rw [chars]
        nofun
    rw [hchars] at hfuel ⊢
    simp only [List.length_cons, List.length_append, List.length_nil] at hfuel
    have hread := readMembers_chars (List.cons_ne_nil m members) hmembers (level + 1) (show _ < fuel by omega)
      isSpace_nil (isSpace_newLine l level) (ends_newLine l level (by decide) rest)
    have hopen : ∀ cs, skipSpace ('\x7b' :: cs) = '\x7b' :: cs := fun cs => rfl
    have hskip : ∀ cs, skipSpace (l.newLine (level + 1) ++ '\"' :: cs) = '\"' :: cs := fun cs =>
      skipSpace_append (isSpace_newLine l (level + 1)) (by rintro d ⟨⟩; rfl)
    rw [hhead] at hread ⊢
    simp only [List.cons_append, List.append_assoc, List.nil_append] at hread ⊢
    rw [readValue, hopen]
    simp only [hskip]
    split
    · rename_i heq
      exact absurd (List.cons.inj heq).1 (by decide)
    · rw [Nat.add_sub_cancel, hread, Option.bind_eq_bind, Option.bind_some, objectAt_names]

/-- It remains to read arrays and objects: the other values have no parts. -/
theorem readsBack_of_parts {j : Json} (hj : j.Plain depth)
    (harray : ∀ items, j = array items → ∀ level fuel rest, (j.chars l level).length ≤ fuel + 1 →
      readValue (fuel + 1) depth (j.chars l level ++ rest) = some (j, rest))
    (hobject : ∀ members, j = object members → ∀ level fuel rest, (j.chars l level).length ≤ fuel + 1 →
      readValue (fuel + 1) depth (j.chars l level ++ rest) = some (j, rest)) : ReadsBack l depth j := by
  intro level fuel ws rest hfuel hws hrest
  obtain ⟨c, cs, hcons, hspace, -⟩ := head_chars l level hj
  obtain ⟨fuel, rfl⟩ : ∃ n, fuel = n + 1 := by
    rw [hcons, List.length_cons] at hfuel
    exact ⟨fuel - 1, by omega⟩
  rw [readValue_append hws (by rw [hcons]; rintro d ⟨⟩; exact hspace)]
  cases j with
  | null => rfl
  | bool b => cases b <;> rfl
  | integer n =>
    obtain ⟨d, ds, hds, hd⟩ := head_integerText n
    have hnumber := scanNumber_integerText (n := n) (by cases depth <;> exact hj) hrest
    have hchars : (integer n).chars l level = integerText n := rfl
    rw [hds, List.cons_append] at hnumber
    rw [hchars, hds, List.cons_append, readValue_number hd, hnumber]
  | text s =>
    have hchars : (text s).chars l level = quoted s := rfl
    have hskip : ∀ cs, skipSpace ('\"' :: cs) = '\"' :: cs := fun cs => rfl
    rw [hchars, quoted_append, readValue, hskip]
    simp only [scanText_escaped, joinPieces_pieces, Option.bind_eq_bind, Option.bind_some, String.ofList_toList]
  | decimal d => cases depth <;> exact hj.elim
  | unusable => cases depth <;> exact hj.elim
  | array items => exact harray items rfl level fuel rest hfuel
  | object members => exact hobject members rfl level fuel rest hfuel

/-- **A value is read back from its text**, whatever white space stands before it and whatever ends it. -/
theorem readValue_chars (l : Layout) {depth : Nat} {j : Json} (hj : j.Plain depth) : ReadsBack l depth j := by
  induction depth generalizing j with
  | zero => exact readsBack_of_parts hj (by rintro items rfl; exact hj.elim) (by rintro members rfl; exact hj.elim)
  | succ depth ih =>
    refine readsBack_of_parts hj ?_ ?_
    · rintro items rfl
      exact fun level fuel rest hfuel => readValue_array hj (fun j hmem => ih (hj j hmem)) hfuel rest
    · rintro members rfl
      exact fun level fuel rest hfuel => readValue_object (fun m hmem => ih (hj m hmem)) hfuel rest

/-- **A value is read back from its text, in both layouts.** -/
theorem read?_print (l : Layout) {j : Json} (hj : j.Plain maxDepth) : read? (j.print l) = some j := by
  have hlength : (j.chars l 0).length ≤ (j.print l).length + 1 := by
    rw [print, String.length_ofList]
    omega
  have hread := readValue_chars l hj 0 _ [] [] hlength (by simp) ends_nil
  rw [List.nil_append, List.append_nil] at hread
  rw [read?, show (j.print l).toList = j.chars l 0 from String.toList_ofList, hread]
  rfl

end Worksheet.Json
