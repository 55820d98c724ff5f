import Worksheet.Proofs.Formula.Comments
import Worksheet.Proofs.Formula.ExpressionText
/-!
# The line that holds the value

The value of an expression is that of its last line of code, and this line gets `return`. Which line it is, and whether
it returns already, is guessed from how lines start and end. The rule itself goes by what the lexer sees. It is kept
where the guesses are right, and they are on lines of a usual form.

* `code`, `Placed`: what is left of a line without its comments, and the rule for the lines of an expression;
* `Plain`: lines of a usual form;
* `Plain.guess`, `isCodeLine_of_comment`: what is guessed of them;
* **`placed_wrappedLines`**: `return` is put where the rule wants it;
* `Placed.eq_ruledLines`, `not_placed_wrappedLines`: the rule leaves no choice, and other lines break it.
-/

namespace Worksheet.Formula

open Worksheet.Text

/-! ## The rule -/

/-- A character as code: one of a comment counts as white space. -/
def asCode (x : Char × Role) : Char :=
  if x.2.isComment then ' ' else x.1

/-- The characters as code. -/
def uncommented (m : Marked) : List Char :=
  m.map asCode

/-- What is left of a line from its first code on. -/
def code (line : Marked) : List Char :=
  trimStart (uncommented line)

/-- The code needs no `return` before it: it starts with that word, or with a closing brace. -/
def Returns (code : List Char) : Prop :=
  code.head? = some '\x7d' ∨ "return".toList <+: code ∧ ∀ c ∈ (code.drop 6).head?, isNameChar c = false

-- The instance for the next character is named, as another one would go through all characters there are.
instance (code : List Char) : Decidable (Returns code) :=
  @instDecidableOr _ _ _ (@instDecidableAnd _ _ _ (Option.decidableForallMem _))

/-- The lines of an expression, and as they should stand in the script: if there is code, the last line with code gets
`return` after its leading white space, unless it needs none. -/
inductive Placed : List Marked → List (List Char) → Prop
  | codeless {kept : List Marked} (hcode : ∀ line ∈ kept, code line = []) : Placed kept (kept.map characters)
  | unchanged {before after : List Marked} {line : Marked} (hcode : code line ≠ [])
    (hafter : ∀ line ∈ after, code line = []) (hreturns : Returns (code line)) :
    Placed (before ++ line :: after) ((before ++ line :: after).map characters)
  | inserted {before after : List Marked} {line : Marked} {indent text : List Char} (hcode : code line ≠ [])
    (hafter : ∀ line ∈ after, code line = []) (hreturns : ¬Returns (code line))
    (hline : characters line = indent ++ text) (hindent : isAllBlank indent = true)
    (htext : ∀ c ∈ text.head?, isBlank c = false) :
    Placed (before ++ line :: after)
      (before.map characters ++ (indent ++ "return ".toList ++ text) :: after.map characters)

/-- The lines of a text up to the last one that is not blank. -/
def writtenLines (source : List Char) : List Marked :=
  (markedLines (marked source)).rdropWhile fun line => isAllBlank (characters line)

theorem map_characters_writtenLines (source : List Char) :
    (writtenLines source).map characters = dropBlankEnd (lines source) := by
  have hlines := map_characters_markedLines (marked source)
  rw [characters_marked] at hlines
  rw [← hlines, dropBlankEnd, ← List.map_reverse, List.dropWhile_map, ← List.map_reverse]
  rfl

theorem rdropWhile_append_cons {α : Type} {p : α → Bool} {a : α} (ha : ¬p a = true) (u w : List α) :
    (u ++ a :: w).rdropWhile p = u ++ a :: w.rdropWhile p := by
  rw [List.rdropWhile, List.rdropWhile, List.reverse_append, List.reverse_cons, List.append_assoc,
    List.dropWhile_append]
  split_ifs with h
  · rw [List.isEmpty_iff.mp h, List.singleton_append, List.dropWhile_cons_of_neg ha]
    simp
  · simp

/-! ## Lines of a usual form -/

/-- The role of the first character of a line that is not white space. -/
def firstRole (line : Marked) : Option Role :=
  ((line.dropWhile fun x => isBlank x.1).head?).map (·.2)

/-- The lines after the last one with code. -/
def remarks (kept : List Marked) : List Marked :=
  kept.rtakeWhile fun line => code line = []

/-- The last line with code. -/
def valueLine? (kept : List Marked) : Option Marked :=
  (kept.rdropWhile fun line => code line = []).getLast?

/-- The last line with code starts with a token, and `return` there is followed by a blank, a semicolon or a
parenthesis. Or it starts with a block comment, does not end with one, and its code needs a `return`. Every line after
it is blank or starts with a comment, and one that starts with a block comment ends with one. -/
structure Plain (kept : List Marked) : Prop where
  first : ∀ line ∈ valueLine? kept, firstRole line = some .first ∨ "/*".toList <+: trim (characters line) ∧
    ¬"*/".toList <:+ trim (characters line) ∧ ¬Returns (code line)
  word : ∀ line ∈ valueLine? kept, "return".toList <+: trimStart (characters line) →
    ∀ c ∈ ((trimStart (characters line)).drop 6).head?, isNameChar c = true ∨ c = ' ' ∨ c = ';' ∨ c = '('
  remark : ∀ line ∈ remarks kept, isAllBlank (characters line) = true ∨ firstRole line = some .commentFirst ∧
    ("/*".toList <+: trim (characters line) → "*/".toList <:+ trim (characters line))

theorem asCode_of_code {x : Char × Role} (h : x.2.isComment = false) : asCode x = x.1 :=
  if_neg (by rw [h]; exact Bool.false_ne_true)

theorem asCode_of_comment {x : Char × Role} (h : x.2.isComment = true) : asCode x = ' ' :=
  if_pos h

variable {m t line : Marked} {w u cs : List Char} {c : Char} {r : Role}

/-! ## The first code of a line -/

theorem exists_first (h : firstRole line = some r) :
    ∃ b c t, line = b ++ (c, r) :: t ∧ (∀ x ∈ b, isBlank x.1 = true) ∧ isBlank c = false := by
  induction line with
  | nil => cases h
  | cons x line ih =>
    by_cases hx : isBlank x.1 = true
    · rw [firstRole, List.dropWhile_cons_of_pos (p := fun x : Char × Role => isBlank x.1) hx] at h
      obtain ⟨b, c, t, rfl, hb, hc⟩ := ih h
      exact ⟨x :: b, c, t, rfl, List.forall_mem_cons.mpr ⟨hx, hb⟩, hc⟩
    · rw [firstRole, List.dropWhile_cons_of_neg (p := fun x : Char × Role => isBlank x.1) hx] at h
      obtain rfl := Option.some.inj h
      exact ⟨[], x.1, line, rfl, List.forall_mem_nil _, Bool.not_eq_true _ ▸ hx⟩

theorem Coherent.drop (h : Coherent (m ++ t)) : Coherent t := by
  induction m with
  | nil => exact h
  | cons x m ih => exact ih h.2

theorem trimStart_append (hu : ∀ d ∈ u, isBlank d = true) (hc : isBlank c = false) (cs : List Char) :
    trimStart (u ++ c :: cs) = c :: cs := by
  rw [trimStart, List.dropWhile_append_of_pos hu, List.dropWhile_cons_of_neg (by simp [hc])]

theorem trimStart_characters {b : Marked} (hb : ∀ x ∈ b, isBlank x.1 = true) (hc : isBlank c = false) (r : Role)
    (t : Marked) : trimStart (characters (b ++ (c, r) :: t)) = c :: characters t := by
  rw [characters_append]
  exact trimStart_append (List.forall_mem_map.mpr hb) hc _

theorem code_of_first {b : Marked} (hb : ∀ x ∈ b, isBlank x.1 = true) (hc : isBlank c = false)
    (hr : r.isComment = false) (t : Marked) : code (b ++ (c, r) :: t) = c :: uncommented t := by
  have hblank : ∀ d ∈ uncommented b, isBlank d = true := by
    refine List.forall_mem_map.mpr fun x hx => ?_
    rw [asCode]
    split_ifs
    · decide
    · exact hb x hx
  have hfirst : uncommented ((c, r) :: t) = c :: uncommented t := congrArg (· :: uncommented t) (asCode_of_code hr)
  rw [code, uncommented, List.map_append]
  exact (congrArg (fun cs => trimStart (uncommented b ++ cs)) hfirst).trans (trimStart_append hblank hc _)

/-- After a character of the code, only a new comment can come. -/
theorem Coherent.opens {x : Char × Role} (h : Coherent ((c, r) :: m)) (hr : r.isComment = false) (hx : m.head? = some x)
    (hcomment : x.2.isComment = true) : x.1 = '/' := by
  obtain ⟨m, rfl⟩ := List.head?_eq_some_iff.mp hx
  obtain ⟨hfollows, hnext, -⟩ := h
  obtain ⟨d, r'⟩ := x
  cases r' with
  | first | more => cases hcomment
  | commentFirst => exact hnext.1
  | commentMore =>
    cases r with
    | first => exact absurd rfl (hfollows _ rfl).1
    | more => exact absurd rfl (hfollows _ rfl)
    | commentFirst | commentMore => cases hr

theorem prefix_characters (hw : ∀ d ∈ w, isBlank d = false) (h : w <+: uncommented m) : w <+: characters m := by
  induction w generalizing m with
  | nil => exact List.nil_prefix
  | cons d w ih =>
    obtain ⟨hd, hw⟩ := List.forall_mem_cons.mp hw
    cases m with
    | nil => simp [uncommented] at h
    | cons x m =>
      obtain ⟨hx, h⟩ := List.cons_prefix_cons.mp h
      have hcode : x.2.isComment = false := by
        by_contra hcomment
        rw [hx, asCode_of_comment (Bool.not_eq_false _ ▸ hcomment)] at hd
        cases hd
      exact List.cons_prefix_cons.mpr ⟨hx.trans (asCode_of_code hcode), ih hw h⟩

/-- A word after a character of the code is in no comment, and what comes after it opens one if it is in one. -/
theorem exists_after_word (h : Coherent ((c, r) :: m)) (hr : r.isComment = false) (hw : ∀ d ∈ w, d ≠ '/')
    (hleads : w <+: characters m) : ∃ m', characters m = w ++ characters m' ∧ uncommented m = w ++ uncommented m' ∧
      ∀ x ∈ m'.head?, x.2.isComment = true → x.1 = '/' := by
  induction w generalizing c r m with
  | nil =>
    exact ⟨m, rfl, rfl, fun x hx hcomment => h.opens hr hx hcomment⟩
  | cons d w ih =>
    obtain ⟨hd, hw⟩ := List.forall_mem_cons.mp hw
    cases m with
    | nil => simp [characters] at hleads
    | cons x m =>
      obtain ⟨hx, hleads⟩ := List.cons_prefix_cons.mp hleads
      have hcode : x.2.isComment = false := by
        by_contra hcomment
        exact hd (hx.trans (h.opens hr rfl (Bool.not_eq_false _ ▸ hcomment)))
      obtain ⟨m', htext, hcode', hnext⟩ := ih h.2 hcode hw hleads
      exact ⟨m', congrArg₂ List.cons hx.symm htext,
        congrArg₂ List.cons ((asCode_of_code hcode).trans hx.symm) hcode', hnext⟩

theorem exists_after_first (h : Coherent ((c, r) :: t)) (hr : r.isComment = false) (hne : w ≠ [])
    (hw : ∀ d ∈ w, d ≠ '/') (hleads : w <+: c :: characters t) : ∃ m, c :: characters t = w ++ characters m ∧
      c :: uncommented t = w ++ uncommented m ∧ ∀ x ∈ m.head?, x.2.isComment = true → x.1 = '/' := by
  obtain ⟨d, w, rfl⟩ := List.exists_cons_of_ne_nil hne
  obtain ⟨rfl, hrest⟩ := List.cons_prefix_cons.mp hleads
  obtain ⟨m, htext, hcode, hnext⟩ := exists_after_word h hr (List.forall_mem_cons.mp hw).2 hrest
  exact ⟨m, congrArg (d :: ·) htext, congrArg (d :: ·) hcode, hnext⟩

/-! ## The guesses -/

theorem returns_iff (cs : List Char) : returns cs = true ↔
    ∃ u, trimStart cs = "return".toList ++ u ∧ ∀ c ∈ u.head?, c = ' ' ∨ c = ';' ∨ c = '(' := by
  simp only [returns, Bool.or_eq_true, beq_iff_eq, List.isPrefixOf_iff_prefix]
  constructor
  · rintro (((h | ⟨u, h⟩) | ⟨u, h⟩) | ⟨u, h⟩)
    · exact ⟨[], h, nofun⟩
    · exact ⟨' ' :: u, h.symm, by rintro c ⟨⟩; simp⟩
    · exact ⟨';' :: u, h.symm, by rintro c ⟨⟩; simp⟩
    · exact ⟨'(' :: u, h.symm, by rintro c ⟨⟩; simp⟩
  · rintro ⟨u, h, hu⟩
    cases u with
    | nil => exact .inl (.inl (.inl h))
    | cons c u =>
      rcases hu c rfl with rfl | rfl | rfl
      · exact .inl (.inl (.inr ⟨u, h.symm⟩))
      · exact .inl (.inr ⟨u, h.symm⟩)
      · exact .inr ⟨u, h.symm⟩

theorem closesBlock_iff (cs : List Char) : closesBlock cs = true ↔ (trimStart cs).head? = some '\x7d' :=
  beq_iff_eq

theorem isCommentLine_iff (cs : List Char) : isCommentLine cs = true ↔
    "//".toList <+: trim cs ∨ "/*".toList <+: trim cs ∧ "*/".toList <:+ trim cs := by
  simp [isCommentLine]

theorem trimEnd_append (hc : isBlank c = false) (u w : List Char) : trimEnd (u ++ c :: w) = u ++ c :: trimEnd w :=
  rdropWhile_append_cons (by simp [hc]) u w

theorem isAllBlank_eq_false (hc : isBlank c = false) (hmem : c ∈ cs) : isAllBlank cs = false :=
  List.all_eq_false.mpr ⟨c, hmem, by simp [hc]⟩

theorem trim_prefix_trimStart (cs : List Char) : trim cs <+: trimStart cs :=
  List.rdropWhile_prefix isBlank _

theorem mem_characters (b : Marked) (c : Char) (r : Role) (t : Marked) : c ∈ characters (b ++ (c, r) :: t) :=
  List.mem_map_of_mem (List.mem_append_right b List.mem_cons_self)

/-- **A line that starts with a token is no comment.** -/
theorem isCodeLine_of_first (h : Coherent line) (hfirst : firstRole line = some .first) :
    isCodeLine (characters line) = true := by
  obtain ⟨b, c, t, rfl, hb, hc⟩ := exists_first hfirst
  -- The first two characters would open a comment.
  have hopens : ∀ d, d = '/' ∨ d = '*' → ¬['/', d] <+: trim (characters (b ++ (c, .first) :: t)) := by
    intro d hd hleads
    have hstart := hleads.trans (trim_prefix_trimStart _)
    rw [trimStart_characters hb hc] at hstart
    obtain ⟨rfl, ht⟩ := List.cons_prefix_cons.mp hstart
    cases t with
    | nil => simp [characters] at ht
    | cons x t =>
      obtain ⟨rfl, -⟩ := List.cons_prefix_cons.mp ht
      exact (h.drop.1 x rfl).2 ⟨rfl, hd⟩
  have hcomment : isCommentLine (characters (b ++ (c, .first) :: t)) = false := by
    rw [← Bool.not_eq_true, isCommentLine_iff, not_or, not_and]
    exact ⟨hopens '/' (.inl rfl), fun hblock => absurd hblock (hopens '*' (.inr rfl))⟩
  rw [isCodeLine, hcomment, isAllBlank_eq_false hc (mem_characters b c .first t)]
  rfl

/-- **A line that starts with a comment is one**, if it does not end otherwise. -/
theorem isCodeLine_of_comment (h : Coherent line) (hfirst : firstRole line = some .commentFirst)
    (hend : "/*".toList <+: trim (characters line) → "*/".toList <:+ trim (characters line)) :
    isCodeLine (characters line) = false := by
  obtain ⟨b, c, t, rfl, hb, hc⟩ := exists_first hfirst
  obtain ⟨rfl, ht⟩ := h.drop.1
  have hopens : ∀ d, isBlank d = false → t.head? = some (d, .commentMore) →
      ['/', d] <+: trim (characters (b ++ ('/', .commentFirst) :: t)) := fun d hd ht => by
    obtain ⟨t, rfl⟩ := List.head?_eq_some_iff.mp ht
    rw [trim, trimStart_characters hb hc]
    exact ⟨_, (trimEnd_append hd ['/'] (characters t)).symm⟩
  have hcomment : isCommentLine (characters (b ++ ('/', .commentFirst) :: t)) = true := by
    rw [isCommentLine_iff]
    rcases ht with ht | ht
    · exact .inl (hopens '/' (by decide) ht)
    · have hblock := hopens '*' (by decide) ht
      exact .inr ⟨hblock, hend hblock⟩
  rw [isCodeLine, hcomment, Bool.not_true, Bool.and_false]

/-- A word is over where it seems to be, unless a mark comes right after it. -/
theorem wordEnds_iff (hslash : ∀ x ∈ m.head?, x.2.isComment = true → x.1 = '/')
    (hword : ∀ c ∈ (characters m).head?, isNameChar c = true ∨ c = ' ' ∨ c = ';' ∨ c = '(') :
    (∀ c ∈ (uncommented m).head?, isNameChar c = false) ↔ ∀ c ∈ (characters m).head?, c = ' ' ∨ c = ';' ∨ c = '(' := by
  cases m with
  | nil => exact iff_of_true nofun nofun
  | cons x m =>
    simp only [uncommented, characters, List.map_cons, List.head?_cons, Option.mem_some_iff, forall_eq'] at hword ⊢
    have hcode : x.2.isComment = false := by
      by_contra hcomment
      rw [hslash x rfl (Bool.not_eq_false _ ▸ hcomment)] at hword
      exact absurd hword (by decide)
    rw [asCode_of_code hcode]
    refine ⟨fun hname => hword.resolve_left (by simp [hname]), ?_⟩
    rintro (hx | hx | hx) <;> rw [hx] <;> decide

/-- **A line that starts with a token returns if it seems to.** -/
theorem returns_code_iff (h : Coherent line) (hfirst : firstRole line = some .first)
    (hword : "return".toList <+: trimStart (characters line) →
      ∀ c ∈ ((trimStart (characters line)).drop 6).head?, isNameChar c = true ∨ c = ' ' ∨ c = ';' ∨ c = '(') :
    Returns (code line) ↔ (returns (characters line) || closesBlock (characters line)) = true := by
  obtain ⟨b, c, t, rfl, hb, hc⟩ := exists_first hfirst
  have hcode := code_of_first hb hc (r := .first) rfl t
  have htext := trimStart_characters hb hc .first t
  rw [Bool.or_eq_true, closesBlock_iff, returns_iff, or_comm, Returns, hcode]
  rw [htext] at hword ⊢
  have hsplit : "return".toList <+: c :: characters t → _ :=
    exists_after_first h.drop (r := .first) rfl (by decide) (by decide)
  have hdrop : ∀ v, ("return".toList ++ v).drop 6 = v := fun v => List.drop_left' (by decide)
  refine or_congr Iff.rfl ⟨?_, ?_⟩
  · rintro ⟨hleads, hnext⟩
    have hleads' : "return".toList <+: c :: characters t :=
      prefix_characters (m := (c, .first) :: t) (by decide) hleads
    obtain ⟨m, hm, hm', hslash⟩ := hsplit hleads'
    replace hword := hword hleads'
    rw [hm, hdrop] at hword
    rw [hm', hdrop] at hnext
    exact ⟨characters m, hm, (wordEnds_iff hslash hword).mp hnext⟩
  · rintro ⟨u, hu, hnext⟩
    obtain ⟨m, hm, hm', hslash⟩ := hsplit ⟨u, hu.symm⟩
    obtain rfl : u = characters m := List.append_cancel_left (hu.symm.trans hm)
    replace hword := hword ⟨_, hu.symm⟩
    rw [hm, hdrop] at hword
    refine ⟨⟨_, hm'.symm⟩, ?_⟩
    rw [hm', hdrop]
    exact (wordEnds_iff hslash hword).mpr hnext

/-- **A line that only starts with a comment is none**, and does not seem to return. -/
theorem isCodeLine_of_opened (hopen : "/*".toList <+: trim (characters line))
    (hend : ¬"*/".toList <:+ trim (characters line)) :
    isCodeLine (characters line) = true ∧ (returns (characters line) || closesBlock (characters line)) = false := by
  obtain ⟨u, hu⟩ := hopen.trans (trim_prefix_trimStart _)
  have htext : trimStart (characters line) = ['/', '*'] ++ u := hu.symm
  refine ⟨?_, ?_⟩
  · have hcomment : isCommentLine (characters line) = false := by
      rw [← Bool.not_eq_true, isCommentLine_iff]
      rintro (hslash | ⟨-, hend'⟩)
      · exact absurd (List.prefix_of_prefix_length_le hslash hopen le_rfl) (by decide)
      · exact hend hend'
    have hmem : '/' ∈ trimStart (characters line) := by simp [htext]
    rw [isCodeLine, hcomment, isAllBlank_eq_false (by decide) ((List.dropWhile_suffix isBlank).subset hmem)]
    rfl
  · rw [← Bool.not_eq_true, Bool.or_eq_true, returns_iff, closesBlock_iff, htext]
    rintro (⟨v, hv, -⟩ | hbrace)
    · simp at hv
    · simp at hbrace

/-- What is guessed of the last line with code is right. -/
theorem Plain.guess {kept : List Marked} (hplain : Plain kept) (hvalue : line ∈ valueLine? kept) (h : Coherent line) :
    isCodeLine (characters line) = true ∧
      (Returns (code line) ↔ (returns (characters line) || closesBlock (characters line)) = true) := by
  rcases hplain.first line hvalue with hfirst | ⟨hopen, hend, hreturns⟩
  · exact ⟨isCodeLine_of_first h hfirst, returns_code_iff h hfirst (hplain.word line hvalue)⟩
  · obtain ⟨hguess, hguess'⟩ := isCodeLine_of_opened hopen hend
    exact ⟨hguess, iff_of_false hreturns (by simp [hguess'])⟩

/-! ## The lines of an expression -/

theorem changeLast_of_none {α : Type} {p : α → Bool} {f : α → α} {l : List α} (h : ∀ a ∈ l, p a = false) :
    changeLast p f l = l := by
  rcases changeLast_cases p f l with ⟨-, heq⟩ | ⟨before, a, after, rfl, ha, -⟩
  · exact heq
  · rw [h a (by simp)] at ha
    cases ha

theorem changeLast_append {α : Type} {p : α → Bool} {f : α → α} {a : α} {after : List α} (ha : p a = true)
    (hafter : ∀ b ∈ after, p b = false) (before : List α) :
    changeLast p f (before ++ a :: after) = before ++ f a :: after := by
  induction before with
  | nil =>
    have hany : after.any p = false := List.any_eq_false.mpr fun b hb => by simp [hafter b hb]
    rw [List.nil_append, changeLast, hany, ha]
    rfl
  | cons b before ih =>
    have hany : (before ++ a :: after).any p = true := List.any_eq_true.mpr ⟨a, by simp, ha⟩
    rw [List.cons_append, changeLast, hany, ih]
    rfl

theorem wrappedLines_eq {source : List Char} (hsource : ∃ c ∈ source, isBlank c = false) :
    wrappedLines source = changeLast isCodeLine returning ((writtenLines source).map characters) := by
  rw [map_characters_writtenLines, wrappedLines]
  split
  · rename_i hnil
    obtain ⟨c, hc, hsolid⟩ := hsource
    rw [linesOf_blank (linesOf_lines source) (List.rdropWhile_eq_nil_iff.mp hnil) c hc] at hsolid
    cases hsolid
  · rfl

theorem code_of_remark {kept : List Marked} (h : line ∈ remarks kept) : code line = [] := by
  simpa using List.mem_rtakeWhile_imp h

theorem kept_cases (kept : List Marked) : remarks kept = kept ∨
    ∃ before, ∃ line ∈ valueLine? kept, kept = before ++ line :: remarks kept ∧ code line ≠ [] := by
  have hsplit : (kept.rdropWhile fun line => code line = []) ++ remarks kept = kept :=
    List.rdropWhile_append_rtakeWhile
  by_cases hnil : (kept.rdropWhile fun line => code line = []) = []
  · rw [hnil, List.nil_append] at hsplit
    exact .inl hsplit
  · refine .inr ⟨(kept.rdropWhile fun line => code line = []).dropLast, _, List.getLast?_eq_some_getLast hnil, ?_, ?_⟩
    · rw [← List.singleton_append, ← List.append_assoc, List.dropLast_append_getLast hnil, hsplit]
    · simpa using List.rdropWhile_last_not (fun line => decide (code line = [])) kept hnil

theorem isCodeLine_of_remark {kept : List Marked} (hcoherent : ∀ line ∈ kept, Coherent line) (hplain : Plain kept) :
    ∀ line ∈ (remarks kept).map characters, isCodeLine line = false := by
  refine List.forall_mem_map.mpr fun line hline => ?_
  rcases hplain.remark line hline with hblank | ⟨hfirst, hend⟩
  · rw [isCodeLine, hblank]
    rfl
  · have hmem : line ∈ kept := (List.rtakeWhile_suffix _ _).subset hline
    exact isCodeLine_of_comment (hcoherent line hmem) hfirst hend

/-- **The rule is kept where the guesses are right.** -/
theorem placed_changeLast {kept : List Marked} (hcoherent : ∀ line ∈ kept, Coherent line) (hplain : Plain kept) :
    Placed kept (changeLast isCodeLine returning (kept.map characters)) := by
  have hremark := isCodeLine_of_remark hcoherent hplain
  have hcode : ∀ line ∈ remarks kept, code line = [] := fun line hline => code_of_remark hline
  rcases kept_cases kept with hall | ⟨before, line, hvalue, hkept, hline⟩
  · rw [hall] at hcode hremark
    rw [changeLast_of_none hremark]
    exact .codeless hcode
  · have hmem : line ∈ kept := hkept ▸ List.mem_append_right before List.mem_cons_self
    obtain ⟨hguess, hreturns⟩ := hplain.guess hvalue (hcoherent line hmem)
    generalize remarks kept = after at hkept hcode hremark
    subst hkept
    rw [List.map_append, List.map_cons, changeLast_append hguess hremark, returning]
    split_ifs with h
    · rw [← List.map_cons, ← List.map_append]
      exact .unchanged hline hcode (hreturns.mpr h)
    · refine .inserted hline hcode (fun hself => h (hreturns.mp hself)) List.takeWhile_append_dropWhile.symm
        List.all_takeWhile fun c hc => ?_
      have hsolid := List.head?_dropWhile_not isBlank (characters line)
      rwa [show (List.dropWhile isBlank (characters line)).head? = some c from hc] at hsolid

/-- **`return` is put where the value is.** Lines of a usual form are guessed right: the last line with code gets
`return` if it needs one, and no other line changes. These are the lines between the header and the entry of the
script. -/
theorem placed_wrappedLines {source : String} (hsource : ∃ c ∈ source.toList, isBlank c = false)
    (hplain : Plain (writtenLines source.toList)) (columns : List Column) (row : Row) :
    Placed (writtenLines source.toList) (wrappedLines source.toList) ∧
      (compile .expression source columns row).script = unlines ((preamble .expression columns row).map String.toList ++
        headerLines .expression ++ (wrappedLines source.toList).map (indentation ++ ·) ++
        entryLines source.toList .expression) := by
  refine ⟨?_, script_expression source columns row⟩
  have hcoherent : ∀ line ∈ writtenLines source.toList, Coherent line := fun line hline =>
    (coherent_marked source.toList).lines line ((List.rdropWhile_prefix _ _).subset hline)
  rw [wrappedLines_eq hsource]
  exact placed_changeLast hcoherent hplain

/-- An expression with comments around its value. -/
def doubled : String :=
  "let a = 2;\n/* twice\n   a */\n  a * 2 // done\n\n/* end */\n\n"

theorem placed_doubled : (∃ c ∈ doubled.toList, isBlank c = false) ∧ Plain (writtenLines doubled.toList) ∧
    Placed (writtenLines doubled.toList) (["let a = 2;", "/* twice", "   a */", "  return a * 2 // done", "",
      "/* end */"].map String.toList) := by
  have hsource : ∃ c ∈ doubled.toList, isBlank c = false := ⟨'l', by decide +kernel, by decide⟩
  have hplain : Plain (writtenLines doubled.toList) :=
    ⟨by decide +kernel, by decide +kernel, by decide +kernel⟩
  have hlines : wrappedLines doubled.toList = ["let a = 2;", "/* twice", "   a */", "  return a * 2 // done", "",
      "/* end */"].map String.toList := by decide +kernel
  refine ⟨hsource, hplain, ?_⟩
  rw [← hlines]
  exact (placed_wrappedLines hsource hplain [] (Row.new "r")).1

/-! ## Lines that are guessed wrong -/

/-- The lines that the rule asks for. -/
def ruledLines (kept : List Marked) : List (List Char) :=
  match valueLine? kept with
  | none => kept.map characters
  | some line =>
    if Returns (code line) then kept.map characters
    else (kept.rdropWhile fun line => code line = []).dropLast.map characters ++
      ((characters line).takeWhile isBlank ++ "return ".toList ++ trimStart (characters line)) ::
        (remarks kept).map characters

theorem rdropWhile_code {before after : List Marked} (hline : code line ≠ [])
    (hafter : ∀ line ∈ after, code line = []) :
    (before ++ line :: after).rdropWhile (fun line => code line = []) = before ++ [line] := by
  rw [rdropWhile_append_cons (by simpa using hline), List.rdropWhile_eq_nil_iff.mpr (by simpa using hafter)]

theorem remarks_append {before after : List Marked} (hline : code line ≠ []) (hafter : ∀ line ∈ after, code line = []) :
    remarks (before ++ line :: after) = after := by
  have hsplit : (before ++ line :: after).rdropWhile (fun line => code line = []) ++ remarks (before ++ line :: after) =
      before ++ line :: after := List.rdropWhile_append_rtakeWhile
  rw [rdropWhile_code hline hafter, List.append_assoc, List.append_right_inj] at hsplit
  exact List.cons_injective hsplit

theorem trimStart_indent (hu : isAllBlank u = true) (hw : ∀ c ∈ w.head?, isBlank c = false) :
    (u ++ w).takeWhile isBlank = u ∧ trimStart (u ++ w) = w := by
  have hblank : ∀ c ∈ u, isBlank c = true := List.all_eq_true.mp hu
  rw [trimStart, List.takeWhile_append_of_pos hblank, List.dropWhile_append_of_pos hblank]
  cases w with
  | nil => exact ⟨List.append_nil u, rfl⟩
  | cons c w =>
    have hc : ¬isBlank c = true := by simp [hw c rfl]
    rw [List.takeWhile_cons_of_neg hc, List.dropWhile_cons_of_neg hc]
    exact ⟨List.append_nil u, rfl⟩

/-- **The rule leaves no choice.** -/
theorem Placed.eq_ruledLines {kept : List Marked} {body : List (List Char)} (h : Placed kept body) :
    body = ruledLines kept := by
  cases h with
  | codeless hcode =>
    rw [ruledLines, valueLine?, List.rdropWhile_eq_nil_iff.mpr (by simpa using hcode)]
    rfl
  | unchanged hcode hafter hreturns =>
    rw [ruledLines, valueLine?, rdropWhile_code hcode hafter, List.getLast?_concat]
    exact (if_pos hreturns).symm
  | @inserted before after line indent text hcode hafter hreturns hline hindent htext =>
    obtain ⟨hfront, hback⟩ := trimStart_indent hindent htext
    rw [ruledLines, valueLine?, rdropWhile_code hcode hafter, List.getLast?_concat]
    dsimp only
    rw [if_neg hreturns, List.dropLast_concat, remarks_append hcode hafter, hline, hfront, hback]

/-- A tab after `return` is not expected, and neither is code between comments. -/
theorem not_placed_wrappedLines :
    ¬Placed (writtenLines "return\t5".toList) (wrappedLines "return\t5".toList) ∧
    ¬Placed (writtenLines "let a = 2;\n/* twice */ a * 2 /* done */".toList)
      (wrappedLines "let a = 2;\n/* twice */ a * 2 /* done */".toList) :=
  ⟨fun h => absurd h.eq_ruledLines (by decide +kernel), fun h => absurd h.eq_ruledLines (by decide +kernel)⟩

end Worksheet.Formula
