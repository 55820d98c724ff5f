import Worksheet.Proofs.Formula.LineBreaks
/-!
# What is skipped between tokens

Blanks and comments, one piece after the other.

* `CommentText`: the characters of a comment after its opening, with `commentLength_append`;
* `CommentText.indented`, `CommentText.insert`: a comment stays one when its lines are indented, or a word is put in;
* `Skips`: a blank, a line break, or a comment with its line break;
* `exists_skips`, `Skips.skipLength_pos`.
-/

namespace Worksheet.Formula

open Worksheet.Text

variable {indent u v w x rest : List Char} {c : Char} {closed : Bool} {depth : Nat}

/-! ## Comments -/

/-- The characters of a comment in which so many comments are open besides it. A comment that is not closed may end
after any of them. -/
inductive CommentText : Bool → Nat → List Char → Prop
  | unended {depth : Nat} : CommentText false depth []
  | ended : CommentText true 0 ['*', '/']
  | opens {closed : Bool} {depth : Nat} {w : List Char} (h : CommentText closed (depth + 1) w) :
    CommentText closed depth ('/' :: '*' :: w)
  | closes {closed : Bool} {depth : Nat} {w : List Char} (h : CommentText closed depth w) :
    CommentText closed (depth + 1) ('*' :: '/' :: w)
  | char {closed : Bool} {depth : Nat} {w : List Char} {c : Char} (hopen : c = '/' → w.head? ≠ some '*')
    (hclose : c = '*' → w.head? ≠ some '/') (h : CommentText closed depth w) : CommentText closed depth (c :: w)

theorem commentLength_char (hopen : c = '/' → w.head? ≠ some '*') (hclose : c = '*' → w.head? ≠ some '/') :
    commentLength depth (c :: w) = 1 + commentLength depth w := by
  rw [commentLength]
  · rintro rest rfl rfl
    exact hopen rfl rfl
  · rintro rest rfl rfl
    exact hclose rfl rfl

/-- What comes after a comment does not count, unless it is not closed. -/
theorem CommentText.commentLength_append (h : CommentText closed depth w) (hrest : closed = false → rest = []) :
    commentLength depth (w ++ rest) = w.length := by
  induction h with
  | unended => rw [hrest rfl]; rfl
  | ended => rfl
  | opens h ih =>
    rw [List.cons_append, List.cons_append, commentLength, ih hrest, List.length_cons, List.length_cons]
    omega
  | closes h ih =>
    rw [List.cons_append, List.cons_append, commentLength, if_neg (Nat.succ_ne_zero _), Nat.add_sub_cancel, ih hrest,
      List.length_cons, List.length_cons]
    omega
  | @char closed depth w c hopen hclose h ih =>
    have hhead : (w ++ rest).head? = w.head? := by
      cases h with
      | unended => rw [hrest rfl]; rfl
      | _ => rfl
    rw [List.cons_append, commentLength_char (hhead ▸ hopen) (hhead ▸ hclose), ih hrest, List.length_cons, Nat.add_comm]

theorem exists_commentText (depth : Nat) (v : List Char) :
    ∃ closed w rest, v = w ++ rest ∧ CommentText closed depth w ∧ (closed = false → rest = []) := by
  fun_induction commentLength depth v with
  | case1 depth => exact ⟨false, [], [], rfl, .unended, fun _ => rfl⟩
  | case2 depth rest ih =>
    obtain ⟨closed, w, rest, rfl, h, hrest⟩ := ih
    exact ⟨closed, _, rest, rfl, .opens h, hrest⟩
  | case3 depth rest ih =>
    cases depth with
    | zero => exact ⟨true, ['*', '/'], rest, rfl, .ended, nofun⟩
    | succ depth =>
      obtain ⟨closed, w, rest, rfl, h, hrest⟩ := ih
      exact ⟨closed, _, rest, rfl, .closes h, hrest⟩
  | case4 depth c rest hopen hclose ih =>
    obtain ⟨closed, w, rest, rfl, h, hrest⟩ := ih
    refine ⟨closed, c :: w, rest, rfl, .char ?_ ?_ h, hrest⟩
    · rintro rfl hhead
      obtain ⟨w, rfl⟩ := List.head?_eq_some_iff.mp hhead
      exact hopen _ rfl rfl
    · rintro rfl hhead
      obtain ⟨w, rfl⟩ := List.head?_eq_some_iff.mp hhead
      exact hclose _ rfl rfl

theorem append_eq_pair {a b : Char} (h : u ++ v = a :: b :: w) :
    (u = [] ∧ v = a :: b :: w) ∨ (u = [a] ∧ v = b :: w) ∨ ∃ u', u = a :: b :: u' ∧ u' ++ v = w := by
  rcases u with _ | ⟨c, _ | ⟨d, u⟩⟩
  · exact .inl ⟨rfl, h⟩
  · obtain ⟨rfl, rfl⟩ := List.cons.inj h
    exact .inr (.inl ⟨rfl, rfl⟩)
  · simp only [List.cons_append, List.cons.injEq] at h
    obtain ⟨rfl, rfl, h⟩ := h
    exact .inr (.inr ⟨u, rfl, h⟩)

namespace CommentText

theorem getLast?_of_closed (h : CommentText true depth w) : w.getLast? = some '/' := by
  generalize hclosed : true = closed at h
  induction h with
  | unended => cases hclosed
  | ended => rfl
  | opens h ih | closes h ih => rw [List.getLast?_cons, List.getLast?_cons, ih hclosed]; rfl
  | char _ _ h ih => rw [List.getLast?_cons, ih hclosed]; rfl

/-- Characters that neither open nor close a comment. -/
def IsPlain (x : List Char) : Prop :=
  ∀ c ∈ x, c ≠ '/' ∧ c ≠ '*'

theorem plain (hx : IsPlain x) (h : CommentText closed depth w) : CommentText closed depth (x ++ w) := by
  induction x with
  | nil => exact h
  | cons c x ih =>
    rw [IsPlain, List.forall_mem_cons] at hx
    exact .char (fun hc => absurd hc hx.1.1) (fun hc => absurd hc hx.1.2) (ih hx.2)

theorem append_plain (hx : IsPlain x) (h : CommentText false depth w) : CommentText false depth (w ++ x) := by
  generalize hclosed : false = closed at h ⊢
  induction h with
  | unended =>
    rw [List.nil_append, ← List.append_nil x]
    exact plain hx .unended
  | ended => cases hclosed
  | opens h ih => exact .opens (ih hclosed)
  | closes h ih => exact .closes (ih hclosed)
  | @char closed depth w c hopen hclose h ih =>
    have hhead : ∀ d, d = '/' ∨ d = '*' → w.head? ≠ some d → (w ++ x).head? ≠ some d := fun d hd hw heq => by
      rw [List.head?_append, Option.or_eq_some_iff] at heq
      rcases heq with heq | ⟨-, heq⟩
      · exact hw heq
      · have hplain := hx d (List.mem_of_head? heq)
        exact hd.elim hplain.1 hplain.2
    exact .char (fun hc => hhead _ (.inr rfl) (hopen hc)) (fun hc => hhead _ (.inl rfl) (hclose hc)) (ih hclosed)

/-- A word may be put where no opening and no closing of a comment is torn apart. -/
theorem insert (hx : IsPlain x) (hu : ∀ c ∈ u.getLast?, c ≠ '/' ∧ c ≠ '*') (h : CommentText closed depth (u ++ v)) :
    CommentText closed depth (u ++ (x ++ v)) := by
  generalize hw : u ++ v = w at h
  induction h generalizing u with
  | unended =>
    obtain ⟨rfl, rfl⟩ := List.append_eq_nil_iff.mp hw
    rw [List.nil_append]
    exact plain hx .unended
  | ended =>
    rcases append_eq_pair hw with ⟨rfl, rfl⟩ | ⟨rfl, -⟩ | ⟨u, rfl, hrest⟩
    · rw [List.nil_append]
      exact plain hx .ended
    · exact absurd rfl (hu '*' rfl).2
    · obtain ⟨rfl, -⟩ := List.append_eq_nil_iff.mp hrest
      exact absurd rfl (hu '/' rfl).1
  | opens h ih =>
    rcases append_eq_pair hw with ⟨rfl, rfl⟩ | ⟨rfl, -⟩ | ⟨u, rfl, hrest⟩
    · rw [List.nil_append]
      exact plain hx (.opens h)
    · exact absurd rfl (hu '/' rfl).1
    · cases u with
      | nil => exact absurd rfl (hu '*' rfl).2
      | cons d u => exact .opens (ih (by simpa using hu) hrest)
  | closes h ih =>
    rcases append_eq_pair hw with ⟨rfl, rfl⟩ | ⟨rfl, -⟩ | ⟨u, rfl, hrest⟩
    · rw [List.nil_append]
      exact plain hx (.closes h)
    · exact absurd rfl (hu '*' rfl).2
    · cases u with
      | nil => exact absurd rfl (hu '/' rfl).1
      | cons d u => exact .closes (ih (by simpa using hu) hrest)
  | char hopen hclose h ih =>
    rcases List.append_eq_cons_iff.mp hw with ⟨rfl, rfl⟩ | ⟨u, rfl, rfl⟩
    · rw [List.nil_append]
      exact plain hx (.char hopen hclose h)
    · cases u with
      | nil =>
        have hmore : CommentText _ _ (x ++ ([] ++ v)) := plain hx h
        exact .char (fun hc => absurd hc (hu _ rfl).1) (fun hc => absurd hc (hu _ rfl).2) hmore
      | cons d u => exact .char hopen hclose (ih (by simpa using hu) rfl)

theorem start (h : CommentText false depth (u ++ v)) : CommentText false depth u := by
  generalize hw : u ++ v = w at h
  generalize hclosed : false = closed at h ⊢
  induction h generalizing u with
  | unended =>
    obtain ⟨rfl, -⟩ := List.append_eq_nil_iff.mp hw
    exact .unended
  | ended => cases hclosed
  | opens h ih =>
    subst hclosed
    rcases append_eq_pair hw with ⟨rfl, -⟩ | ⟨rfl, -⟩ | ⟨u, rfl, hrest⟩
    · exact .unended
    · exact .char nofun nofun .unended
    · exact .opens (ih hrest rfl)
  | closes h ih =>
    subst hclosed
    rcases append_eq_pair hw with ⟨rfl, -⟩ | ⟨rfl, -⟩ | ⟨u, rfl, hrest⟩
    · exact .unended
    · exact .char nofun nofun .unended
    · exact .closes (ih hrest rfl)
  | char hopen hclose h ih =>
    subst hclosed
    rcases List.append_eq_cons_iff.mp hw with ⟨rfl, -⟩ | ⟨u, rfl, rfl⟩
    · exact .unended
    · cases u with
      | nil => exact .char nofun nofun .unended
      | cons d u => exact .char hopen hclose (ih rfl rfl)

/-- A comment stays one when its lines are indented. -/
theorem indented (hindent : ∀ c ∈ indent, c = ' ') (h : CommentText closed depth w) :
    CommentText closed depth (indentBreaks indent w) := by
  have hplain : IsPlain indent := fun c hc => by
    rw [hindent c hc]
    decide
  induction h with
  | unended => exact .unended
  | ended => exact .ended
  | opens h ih =>
    rw [indentBreaks_cons_of_ne (by decide) (by decide), indentBreaks_cons_of_ne (by decide) (by decide)]
    exact .opens ih
  | closes h ih =>
    rw [indentBreaks_cons_of_ne (by decide) (by decide), indentBreaks_cons_of_ne (by decide) (by decide)]
    exact .closes ih
  | @char closed depth w c hopen hclose h ih =>
    by_cases hfeed : c = '\n'
    · subst hfeed
      exact .char nofun nofun (plain hplain ih)
    by_cases hbreak : c = '\r' ∧ w.head? = some '\n'
    · obtain ⟨rfl, hhead⟩ := hbreak
      obtain ⟨w, rfl⟩ := List.head?_eq_some_iff.mp hhead
      exact ih
    · have hhead : ∀ d, d ≠ '\n' → w.head? ≠ some d → (indentBreaks indent w).head? ≠ some d := fun d hd hw heq => by
        rw [head?_indentBreaks (by rw [heq]; simpa using hd)] at heq
        exact hw heq
      rw [indentBreaks_cons hfeed fun hc hw => hbreak ⟨hc, hw⟩]
      exact .char (fun hc => hhead _ (by decide) (hopen hc)) (fun hc => hhead _ (by decide) (hclose hc)) ih

end CommentText

/-! ## Pieces that are skipped -/

/-- Characters that are skipped, and what comes after them. A line break is not torn apart, and the comment on the rest
of a line includes the line feed. -/
inductive Skips : List Char → List Char → Prop
  | blank {c : Char} {rest : List Char} (hc : isBlank c = true) (hcut : c = '\r' → rest.head? ≠ some '\n') : Skips [c] rest
  | returnFeed {rest : List Char} : Skips ['\r', '\n'] rest
  | lineComment {w rest : List Char} (hw : '\n' ∉ w) : Skips ('/' :: '/' :: (w ++ ['\n'])) rest
  | lastComment {w : List Char} (hw : '\n' ∉ w) : Skips ('/' :: '/' :: w) []
  | comment {closed : Bool} {w rest : List Char} (h : CommentText closed 0 w) (hrest : closed = false → rest = []) :
    Skips ('/' :: '*' :: w) rest

theorem Skips.ne_nil (h : Skips w rest) : w ≠ [] := by
  cases h <;> exact List.cons_ne_nil _ _

theorem exists_skips (h : skipLength v ≠ 0) : ∃ w rest, v = w ++ rest ∧ Skips w rest := by
  unfold skipLength at h
  split at h
  · rename_i rest
    have hone : '\n' ∉ rest.takeWhile (· != '\n') := fun hmem => by simpa using List.mem_takeWhile_imp hmem
    have hsplit : rest.takeWhile (· != '\n') ++ rest.dropWhile (· != '\n') = rest := List.takeWhile_append_dropWhile
    cases hdrop : rest.dropWhile (· != '\n') with
    | nil =>
      rw [hdrop, List.append_nil] at hsplit
      rw [hsplit] at hone
      exact ⟨_, [], (List.append_nil _).symm, .lastComment hone⟩
    | cons d more =>
      have hd := List.head?_dropWhile_not (· != '\n') rest
      obtain rfl : d = '\n' := by simpa [hdrop] using hd
      refine ⟨_, more, ?_, .lineComment hone⟩
      rw [hdrop] at hsplit
      rw [List.cons_append, List.cons_append, List.append_assoc, List.singleton_append, hsplit]
  · rename_i rest
    obtain ⟨closed, w, rest, rfl, hcomment, hrest⟩ := exists_commentText 0 rest
    exact ⟨_, rest, rfl, .comment hcomment hrest⟩
  · cases v with
    | nil => exact absurd rfl h
    | cons c v =>
      have hc : isBlank c = true := by
        by_contra hc
        exact h (by rw [List.takeWhile_cons_of_neg hc]; rfl)
      by_cases hbreak : c = '\r' ∧ v.head? = some '\n'
      · obtain ⟨rfl, hhead⟩ := hbreak
        obtain ⟨v, rfl⟩ := List.head?_eq_some_iff.mp hhead
        exact ⟨['\r', '\n'], v, rfl, .returnFeed⟩
      · exact ⟨[c], v, rfl, .blank hc fun heq hhead => hbreak ⟨heq, hhead⟩⟩

end Worksheet.Formula
