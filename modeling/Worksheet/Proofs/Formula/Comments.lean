import Worksheet.Proofs.Formula.Spelling
import Worksheet.Proofs.Text.Lines
/-!
# Code and comments

Which characters of a text are in comments is decided by the lexer: what looks like a comment may stand in a text of
the formula language. Every character gets a role, and characters with roles are cut into lines as characters are.

* `Role`, `marked`: the characters of a text with their roles;
* `solid_marked`: what is in no comment are the characters of the tokens;
* `Coherent`, **`coherent_marked`**: what the role of a character tells about the next one;
* `markedLines`, `Coherent.lines`: the same within each line.
-/

namespace Worksheet.Formula

open Worksheet.Text

/-! ## Roles -/

/-- The part that a character has in a text. -/
inductive Role
  /-- It is the first one of a token, or spoils one. -/
  | first
  /-- It belongs to the token before, or is white space between tokens. -/
  | more
  /-- It is the first one of a comment. -/
  | commentFirst
  | commentMore
  deriving DecidableEq

/-- The character is in a comment. -/
def Role.isComment : Role → Bool
  | first | more => false
  | commentFirst | commentMore => true

/-- Characters with their roles. -/
abbrev Marked : Type :=
  List (Char × Role)

/-- The characters alone. -/
def characters (m : Marked) : List Char :=
  m.map (·.1)

/-- One role for the first character and another one for the others. -/
def part (roles : Role × Role) : List Char → Marked
  | [] => []
  | c :: cs => (c, roles.1) :: cs.map (·, roles.2)

/-- What the lexer takes in one round: so many characters, with these roles, and how it goes on. -/
structure Round where
  length : Nat
  roles : Role × Role
  state : LexState
  resume : Bool

/-- A round of the lexer takes white space, a comment or a lexeme. A fault does not end the text: one character is
passed over. -/
def round (st : LexState) (resume : Bool) (cs : List Char) : Round :=
  let skipped := if resume then 0 else skipLength cs
  if skipped ≠ 0 then
    ⟨skipped, if cs.head? = some '/' then (.commentFirst, .commentMore) else (.more, .more),
      st.moved (cs.take skipped), false⟩
  else
    let l := lexemeAt resume st.operand st.place.column cs
    let roles := (if resume then .more else .first, .more)
    if l.token.isProper then ⟨l.length, roles, st.fed l.token (cs.take l.length), st.closes l.token⟩
    else ⟨1, roles, st.moved (cs.take 1), false⟩

/-- The rest of a text, round by round. -/
def markFrom : Nat → LexState → Bool → List Char → Marked
  | 0, _, _, cs => part (.more, .more) cs
  | fuel + 1, st, resume, cs =>
    let r := round st resume cs
    part r.roles (cs.take r.length) ++ markFrom fuel r.state r.resume (cs.drop r.length)

/-- The characters of a text with their roles. -/
def marked (source : List Char) : Marked :=
  markFrom (source.length + 1) ⟨Place.start, true, []⟩ false source

variable {m rest : Marked} {c d : Char} {r : Role} {fuel : Nat} {st : LexState} {resume : Bool} {cs : List Char}

@[simp] theorem characters_append (m rest : Marked) : characters (m ++ rest) = characters m ++ characters rest :=
  List.map_append

@[simp] theorem characters_part (roles : Role × Role) (cs : List Char) : characters (part roles cs) = cs := by
  cases cs with
  | nil => rfl
  | cons c cs => simp [characters, part, Function.comp_def]

theorem characters_markFrom (fuel : Nat) (st : LexState) (resume : Bool) (cs : List Char) :
    characters (markFrom fuel st resume cs) = cs := by
  induction fuel generalizing st resume cs with
  | zero => exact characters_part _ _
  | succ fuel ih => rw [markFrom, characters_append, characters_part, ih, List.take_append_drop]

/-- **The characters are those of the text.** -/
theorem characters_marked (source : List Char) : characters (marked source) = source :=
  characters_markFrom _ _ _ _

/-! ## Rounds -/

theorem round_skipped (h : skipLength cs ≠ 0) (st : LexState) : round st false cs =
    ⟨skipLength cs, if cs.head? = some '/' then (.commentFirst, .commentMore) else (.more, .more),
      st.moved (cs.take (skipLength cs)), false⟩ :=
  if_pos h

theorem round_lexeme (hstart : resume = true ∨ skipLength cs = 0) (st : LexState) : round st resume cs =
    let l := lexemeAt resume st.operand st.place.column cs
    let roles := (if resume then .more else .first, .more)
    if l.token.isProper then ⟨l.length, roles, st.fed l.token (cs.take l.length), st.closes l.token⟩
    else ⟨1, roles, st.moved (cs.take 1), false⟩ := by
  have hskipped : (if resume then 0 else skipLength cs) = 0 := by
    rcases hstart with rfl | hskip
    · rfl
    · rw [hskip, ite_self]
  rw [round]
  simp only [hskipped, ne_eq, not_true_eq_false, if_false]

/-- The characters that are in no comment, without white space. -/
def solid (m : Marked) : List Char :=
  (m.filter fun x => !x.2.isComment && !isBlank x.1).map (·.1)

theorem solid_append (m rest : Marked) : solid (m ++ rest) = solid m ++ solid rest := by
  rw [solid, List.filter_append, List.map_append]
  rfl

theorem solid_comment (cs : List Char) : solid (part (.commentFirst, .commentMore) cs) = [] := by
  cases cs with
  | nil => rfl
  | cons c cs => simp [solid, part, Role.isComment]

theorem solid_code {roles : Role × Role} (h1 : roles.1.isComment = false) (h2 : roles.2.isComment = false)
    (cs : List Char) : solid (part roles cs) = cs.filter (!isBlank ·) := by
  cases cs with
  | nil => rfl
  | cons c cs => by_cases hc : isBlank c = true <;> simp [solid, part, h1, h2, hc, List.filter_map, Function.comp_def]

theorem take_skipLength (hhead : cs.head? ≠ some '/') : cs.take (skipLength cs) = cs.takeWhile isBlank := by
  cases cs with
  | nil => rfl
  | cons c cs =>
    have hc : c ≠ '/' := fun heq => hhead (congrArg some heq)
    rw [skipLength_eq hc]
    exact (List.prefix_iff_eq_take.mp (List.takeWhile_prefix isBlank)).symm

theorem markFrom_nil (fuel : Nat) (st : LexState) (resume : Bool) : markFrom fuel st resume [] = [] :=
  List.map_eq_nil_iff.mp (characters_markFrom fuel st resume [])

theorem solid_markFrom (hfuel : cs.length < fuel) (h : ∀ t ∈ spellFrom fuel st resume cs, ∀ f, t.token ≠ .fault f) :
    solid (markFrom fuel st resume cs) =
      (spellFrom fuel st resume cs).flatMap fun t => t.spelling.filter (!isBlank ·) := by
  induction fuel generalizing st resume cs with
  | zero => exact absurd hfuel (Nat.not_lt_zero _)
  | succ fuel ih =>
    rw [markFrom, solid_append]
    by_cases hstart : resume = true ∨ skipLength cs = 0
    · by_cases hproper : (lexemeAt resume st.operand st.place.column cs).token.isProper = true
      · have hbounds := lexemeAt_bounds hproper
        rw [spellFrom_lexeme hstart rfl hproper] at h ⊢
        rw [round_lexeme hstart]
        simp only [hproper, if_true]
        rw [solid_code (by split_ifs <;> rfl) rfl, List.flatMap_cons,
          ih (by rw [List.length_drop]; omega) (List.forall_mem_cons.mp h).2]
      · obtain ⟨place, -, hlast⟩ := exists_spellFrom_last hstart rfl (Bool.not_eq_true _ ▸ hproper)
        rw [hlast] at h ⊢
        have hfinish : (lexemeAt resume st.operand st.place.column cs).token = .finish := by
          cases htoken : (lexemeAt resume st.operand st.place.column cs).token with
          | finish => rfl
          | fault f => exact absurd htoken (h _ List.mem_cons_self f)
          | _ => exact absurd (htoken ▸ rfl) hproper
        obtain ⟨rfl, rfl⟩ := lexemeAt_eq_finish hfinish
        rw [List.take_nil, List.drop_nil, markFrom_nil]
        rfl
    · obtain ⟨hresume, hskip⟩ := not_or.mp hstart
      obtain rfl : resume = false := by simpa using hresume
      rw [spellFrom_skipped hskip] at h ⊢
      have hpos : 0 < cs.length := by
        cases cs with
        | nil => exact absurd rfl hskip
        | cons c cs => exact Nat.succ_pos _
      rw [round_skipped hskip]
      dsimp only
      rw [ih (by rw [List.length_drop]; omega) h]
      split_ifs with hhead
      · rw [solid_comment, List.nil_append]
      · have hblank : (cs.takeWhile isBlank).filter (!isBlank ·) = [] :=
          List.filter_eq_nil_iff.mpr fun c hc => by simpa using List.mem_takeWhile_imp hc
        rw [solid_code rfl rfl, take_skipLength hhead, hblank, List.nil_append]

/-- **White space and comments aside, a text without fault is what its tokens are written with.** -/
theorem solid_marked {source : List Char} (h : ∀ t ∈ spell source, ∀ f, t.token ≠ .fault f) :
    solid (marked source) = (spell source).flatMap fun t => t.spelling.filter (!isBlank ·) :=
  solid_markFrom (Nat.lt_succ_self _) h

/-! ## What comes after a character -/

/-- What the role of a character tells about the next one. The first character of a token does not open a comment with
the next one, and what opens a comment is not torn apart. -/
def Follows (c : Char) (next : Option (Char × Role)) : Role → Prop
  | .first => ∀ x ∈ next, x.2 ≠ .commentMore ∧ ¬(c = '/' ∧ (x.1 = '/' ∨ x.1 = '*'))
  | .more => ∀ x ∈ next, x.2 ≠ .commentMore
  | .commentFirst => c = '/' ∧ (next = some ('/', .commentMore) ∨ next = some ('*', .commentMore))
  | .commentMore => True

/-- The roles of characters go together, one after the other. -/
def Coherent : Marked → Prop
  | [] => True
  | (c, r) :: m => Follows c m.head? r ∧ Coherent m

/-- A comment does not go on here. -/
def Fresh (m : Marked) : Prop :=
  ∀ x ∈ m.head?, x.2 ≠ .commentMore

theorem Coherent.more (h : Coherent m) (hfresh : Fresh m) (cs : List Char) :
    Coherent (cs.map (·, .more) ++ m) ∧ Fresh (cs.map (·, .more) ++ m) := by
  induction cs with
  | nil => exact ⟨h, hfresh⟩
  | cons c cs ih =>
    refine ⟨⟨ih.2, ih.1⟩, ?_⟩
    rintro x ⟨⟩
    exact nofun

theorem Coherent.commentMore (h : Coherent m) (cs : List Char) : Coherent (cs.map (·, .commentMore) ++ m) := by
  induction cs with
  | nil => exact h
  | cons c cs ih => exact ⟨trivial, ih⟩

/-- A comment is opened here. -/
def OpensComment (cs : List Char) : Prop :=
  ∃ d rest, (d = '/' ∨ d = '*') ∧ cs = '/' :: d :: rest

theorem OpensComment.two_le (h : OpensComment cs) : 2 ≤ skipLength cs := by
  obtain ⟨d, rest, rfl | rfl, rfl⟩ := h <;> exact Nat.le_add_right _ _

theorem opensComment_of_skipped (hskip : skipLength cs ≠ 0) (hhead : cs.head? = some '/') : OpensComment cs := by
  unfold skipLength at hskip
  split at hskip
  · exact ⟨'/', _, .inl rfl, rfl⟩
  · exact ⟨'*', _, .inr rfl, rfl⟩
  · obtain ⟨rest, rfl⟩ := List.head?_eq_some_iff.mp hhead
    exact absurd rfl hskip

/-- A round takes a comment, or characters that are in none. What opens a comment is not taken for a token. -/
theorem round_cases (st : LexState) (resume : Bool) (cs : List Char) :
    ((round st resume cs).roles = (.commentFirst, .commentMore) ∧ 2 ≤ (round st resume cs).length ∧ OpensComment cs) ∨
    (round st resume cs).roles = (.more, .more) ∨
    (round st resume cs).roles = (.first, .more) ∧ ¬OpensComment cs := by
  by_cases hstart : resume = true ∨ skipLength cs = 0
  · have hroles : (round st resume cs).roles = (if resume then .more else .first, .more) := by
      rw [round_lexeme hstart]
      dsimp only
      split_ifs <;> rfl
    rw [hroles]
    cases resume with
    | true => exact .inr (.inl rfl)
    | false =>
      refine .inr (.inr ⟨rfl, fun hopens => ?_⟩)
      have hskip := hstart.resolve_left Bool.false_ne_true
      have htwo := hopens.two_le
      omega
  · obtain ⟨hresume, hskip⟩ := not_or.mp hstart
    obtain rfl : resume = false := by simpa using hresume
    rw [round_skipped hskip]
    by_cases hhead : cs.head? = some '/'
    · have hopens := opensComment_of_skipped hskip hhead
      exact .inl ⟨if_pos hhead, hopens.two_le, hopens⟩
    · exact .inr (.inl (if_neg hhead))

theorem Coherent.token (h : Coherent m) (hfresh : Fresh m) (hopens : ¬OpensComment (cs ++ characters m)) :
    Coherent (part (.first, .more) cs ++ m) ∧ Fresh (part (.first, .more) cs ++ m) := by
  cases cs with
  | nil => exact ⟨h, hfresh⟩
  | cons c cs =>
    obtain ⟨hmore, hfresh'⟩ := h.more hfresh cs
    refine ⟨⟨fun x hx => ⟨hfresh' x hx, ?_⟩, hmore⟩, ?_⟩
    · rintro ⟨rfl, hd⟩
      obtain ⟨l, hl⟩ := List.head?_eq_some_iff.mp hx
      have htext : cs ++ characters m = x.1 :: characters l := by
        simpa [characters, Function.comp_def] using congrArg characters hl
      exact hopens ⟨x.1, characters l, hd, congrArg ('/' :: ·) htext⟩
    · rintro x ⟨⟩
      exact nofun

theorem part_same (r : Role) (cs : List Char) : part (r, r) cs = cs.map (·, r) := by
  cases cs <;> rfl

theorem coherent_markFrom (fuel : Nat) (st : LexState) (resume : Bool) (cs : List Char) :
    Coherent (markFrom fuel st resume cs) ∧ Fresh (markFrom fuel st resume cs) := by
  induction fuel generalizing st resume cs with
  | zero =>
    rw [markFrom, part_same, ← List.append_nil (cs.map _)]
    exact Coherent.more (m := []) trivial nofun cs
  | succ fuel ih =>
    rw [markFrom]
    obtain ⟨hrest, hfresh⟩ := ih (round st resume cs).state (round st resume cs).resume
      (cs.drop (round st resume cs).length)
    have htext := characters_markFrom fuel (round st resume cs).state (round st resume cs).resume
      (cs.drop (round st resume cs).length)
    generalize markFrom fuel _ _ (cs.drop (round st resume cs).length) = m at hrest hfresh htext ⊢
    rcases round_cases st resume cs with ⟨hroles, hlength, d, rest, hd, rfl⟩ | hroles | ⟨hroles, hopens⟩
    · obtain ⟨n, hn⟩ := Nat.exists_eq_add_of_le' hlength
      rw [hroles, hn, List.take_succ_cons, List.take_succ_cons]
      refine ⟨⟨⟨rfl, ?_⟩, trivial, hrest.commentMore _⟩, ?_⟩
      · rcases hd with rfl | rfl
        · exact .inl rfl
        · exact .inr rfl
      · rintro x ⟨⟩
        exact nofun
    · rw [hroles, part_same]
      exact hrest.more hfresh _
    · rw [hroles]
      exact hrest.token hfresh (by rwa [htext, List.take_append_drop])

/-- **The roles of the characters of a text go together.** -/
theorem coherent_marked (source : List Char) : Coherent (marked source) :=
  (coherent_markFrom _ _ _ _).1

/-! ## Lines -/

/-- The lines of a text, each without its line ending. -/
def markedLines : Marked → List Marked
  | [] => []
  | ('\n', _) :: rest => [] :: markedLines rest
  | ('\r', _) :: ('\n', _) :: rest => [] :: markedLines rest
  | x :: rest =>
    match markedLines rest with
    | [] => [[x]]
    | line :: others => (x :: line) :: others

theorem lines_cons (hfeed : c ≠ '\n') (hreturn : ∀ rest, c = '\r' → cs = '\n' :: rest → False) :
    lines (c :: cs) = match lines cs with
      | [] => [[c]]
      | line :: others => (c :: line) :: others :=
  lines.eq_4 c cs hfeed hreturn

/-- **The lines are those of the characters.** -/
theorem map_characters_markedLines (m : Marked) : (markedLines m).map characters = lines (characters m) := by
  fun_induction markedLines m with
  | case1 => rfl
  | case2 r rest ih => exact congrArg ([] :: ·) ih
  | case3 r r' rest ih => exact congrArg ([] :: ·) ih
  | case4 x rest hfeed hreturn hrest ih | case5 x rest hfeed hreturn line others hrest ih =>
    have hfeed' : x.1 ≠ '\n' := fun hx => hfeed x.2 (Prod.ext hx rfl)
    have hreturn' : ∀ l, x.1 = '\r' → characters rest = '\n' :: l → False := fun l hx hl => by
      obtain ⟨y, more, rfl, hy, -⟩ := List.map_eq_cons_iff.mp hl
      exact hreturn x.2 y.2 more (Prod.ext hx rfl) (congrArg (· :: more) (Prod.ext hy rfl))
    have hlines : lines (x.1 :: characters rest) = _ := lines_cons hfeed' hreturn'
    refine Eq.trans ?_ hlines.symm
    rw [← ih, hrest]
    rfl

theorem markedLines_eq_nil (h : markedLines m = []) : m = [] := by
  have hlines := map_characters_markedLines m
  rw [h] at hlines
  exact List.map_eq_nil_iff.mp ((linesOf_lines (characters m)).eq_nil_iff.mp hlines.symm)

theorem head?_markedLines {line : Marked} {others : List Marked} (h : markedLines m = line :: others) :
    line.head? = m.head? ∨ line = [] ∧ ∃ x ∈ m.head?, x.1 = '\n' ∨ x.1 = '\r' := by
  fun_cases markedLines m with
  | case1 => cases h
  | case2 r rest =>
    obtain ⟨rfl, -⟩ := List.cons.inj h
    exact .inr ⟨rfl, _, rfl, .inl rfl⟩
  | case3 r r' rest =>
    obtain ⟨rfl, -⟩ := List.cons.inj h
    exact .inr ⟨rfl, _, rfl, .inr rfl⟩
  | case4 x rest hfeed hreturn hrest | case5 x rest hfeed hreturn line' others' hrest =>
    rw [markedLines, hrest] at h
    · obtain ⟨rfl, -⟩ := List.cons.inj h
      exact .inl rfl
    · exact hfeed
    · exact hreturn

theorem Follows.none_of_break {x : Char × Role} (h : Follows c (some x) r) (hx : x.1 = '\n' ∨ x.1 = '\r') :
    Follows c none r := by
  cases r with
  | first | more => exact nofun
  | commentFirst => obtain ⟨-, h | h⟩ := h <;> obtain rfl := Option.some.inj h <;> simp at hx
  | commentMore => trivial

/-- Within each line the roles of characters go together. -/
theorem Coherent.lines (h : Coherent m) : ∀ line ∈ markedLines m, Coherent line := by
  fun_induction markedLines m with
  | case1 => exact List.forall_mem_nil _
  | case2 r rest ih => exact List.forall_mem_cons.mpr ⟨trivial, ih h.2⟩
  | case3 r r' rest ih => exact List.forall_mem_cons.mpr ⟨trivial, ih h.2.2⟩
  | case4 x rest hfeed hreturn hrest ih =>
    obtain rfl := markedLines_eq_nil hrest
    exact List.forall_mem_singleton.mpr h
  | case5 x rest hfeed hreturn line others hrest ih =>
    have hlines := ih h.2
    rw [hrest] at hlines
    obtain ⟨hline, hothers⟩ := List.forall_mem_cons.mp hlines
    refine List.forall_mem_cons.mpr ⟨⟨?_, hline⟩, hothers⟩
    rcases head?_markedLines hrest with hhead | ⟨rfl, y, hy, hbreak⟩
    · rw [hhead]
      exact h.1
    · have hfollows := h.1
      rw [Option.mem_def.mp hy] at hfollows
      exact hfollows.none_of_break hbreak

end Worksheet.Formula
