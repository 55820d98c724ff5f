import Worksheet.Formula.Grammar.Statement
import Worksheet.Proofs.Formula.NumberLiteral
/-!
# Reading values that are written out

What the grammar makes of the tokens of a value: a literal, an array of values or a record of values.

* `Parse.bind_ok` and the lemmas after it: one reader after the other;
* `Datum` and `Expr.datum?`: the value that an expression writes out;
* `Reads`: these tokens are read as this value, wherever they stand;
* `Reads.literal`, **`Reads.array`**, **`Reads.record`**: how values are written.
-/

namespace Worksheet.Formula

/-! ## Readers -/

/-- The state with other tokens to come. -/
def ParseState.at (st : ParseState) (tokens : List Located) : ParseState :=
  { st with tokens := tokens }

namespace Parse

variable {α β : Type} {st st' : ParseState} {t next : Located} {rest : List Located}

theorem bind_ok {p : Parse α} {f : α → Parse β} {a : α} (h : p st = .ok (a, st')) :
    (p >>= f) st = f a st' := by
  show (p st >>= fun r => f r.1 r.2) = f a st'
  rw [h]
  rfl

theorem bind_congr_at {α β : Type} {p q : Parse α} {st st' : ParseState} (h : p st = q st') (f : α → Parse β) :
    (p >>= f) st = (q >>= f) st' := by
  show (p st >>= fun r => f r.1 r.2) = (q st' >>= fun r => f r.1 r.2)
  rw [h]

theorem pure_ok (a : α) (st : ParseState) : (pure a : Parse α) st = .ok (a, st) :=
  rfl

theorem peek_ok (st : ParseState) (t : Located) (rest : List Located) :
    peek (st.at (t :: rest)) = .ok (t, st.at (t :: rest)) :=
  rfl

theorem advance_ok (st : ParseState) (t next : Located) (rest : List Located) :
    advance (st.at (t :: next :: rest)) = .ok (t, st.at (next :: rest)) :=
  rfl

theorem remaining_ok (st : ParseState) (tokens : List Located) :
    remaining (st.at tokens) = .ok (tokens.length, st.at tokens) :=
  rfl

theorem accept_ok (st : ParseState) {token : Token} (h : t.token = token) :
    accept token (st.at (t :: next :: rest)) = .ok (true, st.at (next :: rest)) := by
  unfold accept
  rw [bind_ok (peek_ok st t _), if_pos h, bind_ok (advance_ok st t next rest)]
  rfl

theorem accept_no (st : ParseState) {token : Token} (h : t.token ≠ token) :
    accept token (st.at (t :: rest)) = .ok (false, st.at (t :: rest)) := by
  unfold accept
  rw [bind_ok (peek_ok st t _), if_neg h]
  rfl

theorem expect_ok (st : ParseState) {token : Token} (h : t.token = token) (reason : String) :
    expect token reason (st.at (t :: next :: rest)) = .ok ((), st.at (next :: rest)) := by
  unfold expect
  rw [bind_ok (accept_ok st h)]
  rfl

theorem variableName_ok (st : ParseState) {name : String} (h : t.token = .word name) :
    variableName (st.at (t :: next :: rest)) = .ok ((name, t.place), st.at (next :: rest)) := by
  unfold variableName
  rw [bind_ok (advance_ok st t next rest)]
  simp only [h]
  rfl

end Parse

/-! ## Values -/

/-- A value that is written out with all its parts. -/
inductive Datum
  | literal (value : Literal)
  | array (items : List Datum)
  | record (fields : List (String × Datum))
  deriving Inhabited

mutual

/-- The value that an expression writes out, if it is one. -/
def Expr.datum? : Expr → Option Datum
  | .literal value _ => some (.literal value)
  | .array items _ => (exprsData? items).map .array
  | .record fields _ => (fieldsData? fields).map .record
  | _ => none

/-- The values that expressions write out, if all are ones. -/
def exprsData? : List Expr → Option (List Datum)
  | [] => some []
  | e :: rest => do
    let d ← e.datum?
    let ds ← exprsData? rest
    pure (d :: ds)

/-- The values that the fields of a record write out, if all are ones. -/
def fieldsData? : List (String × Expr) → Option (List (String × Datum))
  | [] => some []
  | (name, e) :: rest => do
    let d ← e.datum?
    let ds ← fieldsData? rest
    pure ((name, d) :: ds)

end

/-- A token that may stand after a value in a list or in a call, or at the end of a statement. -/
def Token.endsValue (t : Token) : Prop :=
  t ∈ [Token.mark .comma, .mark .closeBracket, .mark .closeBrace, .mark .semicolon, .mark .closeParen]

instance : DecidablePred Token.endsValue := fun _ => inferInstanceAs (Decidable (_ ∈ _))

/-- The tokens are read as the value, whatever stands before them and after them, as long as the next token
ends a value. Each token lets the grammar descend by two levels. -/
structure Reads (ts : List Token) (d : Datum) : Prop where
  head : ∃ t ∈ ts.head?, t.startsExpr = true
  read : ∀ {located : List Located}, located.map (·.token) = ts → ∀ {n : Nat}, 2 * ts.length ≤ n →
    ∀ (c : Context) (st : ParseState) {next : Located}, next.token.endsValue → ∀ rest : List Located,
      ∃ e, (grammar n).expr c (st.at (located ++ next :: rest)) = .ok (e, st.at (next :: rest)) ∧
        e.datum? = some d

namespace Grammar

open Parse

variable {g : Grammar} {c : Context} {st : ParseState} {next : Located} {rest : List Located} {e : Expr}

theorem accesses_ok (hnext : next.token.endsValue) (fuel : Nat) :
    accesses g c e fuel (st.at (next :: rest)) = .ok (e, st.at (next :: rest)) := by
  have hdot : next.token ≠ .mark .dot := fun h => absurd (h ▸ hnext) (by decide)
  have hbracket : next.token ≠ .mark .openBracket := fun h => absurd (h ▸ hnext) (by decide)
  cases fuel with
  | zero => rfl
  | succ fuel =>
    unfold accesses
    rw [bind_ok (accept_no st hdot), if_neg (by decide)]
    split_ifs
    · rw [bind_ok (accept_no st hbracket)]
      rfl
    · rfl

theorem operatorAhead_ok (hnext : next.token.endsValue) :
    operatorAhead c (st.at (next :: rest)) = .ok (none, st.at (next :: rest)) := by
  unfold operatorAhead
  rw [bind_ok (peek_ok st next rest)]
  simp only [Token.endsValue, List.mem_cons, List.not_mem_nil, or_false] at hnext
  rcases hnext with h | h | h | h | h <;> rw [h] <;> rfl

theorem operatorRow_ok (hnext : next.token.endsValue) (least fuel : Nat) :
    operatorRow g c least e fuel (st.at (next :: rest)) = .ok (e, st.at (next :: rest)) := by
  cases fuel with
  | zero => rfl
  | succ fuel =>
    unfold operatorRow
    rw [bind_ok (operatorAhead_ok hnext)]
    rfl

def isUnsigned : Token → Bool
  | .operator .sub | .negative | .operator .add | .positive | .mark .bang => false
  | _ => true

/-- An operand without signs and accesses is an expression, two levels up. -/
theorem expr_ok {n : Nat} {t : Located} {tokens : List Located} (ht : isUnsigned t.token = true)
    (hnext : next.token.endsValue)
    (hprimary : primary (grammar n) { c with outermost := false } (st.at (t :: tokens)) =
      .ok (e, st.at (next :: rest))) :
    (grammar (n + 2)).expr c (st.at (t :: tokens)) = .ok (e, st.at (next :: rest)) := by
  have hoperand : (grammar (n + 1)).operand { c with outermost := false } (st.at (t :: tokens)) =
      .ok (e, st.at (next :: rest)) := by
    have hread : (do
        let e ← primary (grammar n) { c with outermost := false }
        accesses (grammar n) { c with outermost := false } e (← remaining)) (st.at (t :: tokens)) =
          .ok (e, st.at (next :: rest)) := by
      rw [bind_ok hprimary, bind_ok (remaining_ok st _)]
      exact accesses_ok hnext _
    show readOperand (grammar n) { c with outermost := false } (st.at (t :: tokens)) = _
    unfold readOperand
    rw [bind_ok (peek_ok st t tokens)]
    obtain ⟨token, place⟩ := t
    cases token with
    | operator op => cases op <;> first | exact hread | cases ht
    | mark m => cases m <;> first | exact hread | cases ht
    | negative => cases ht
    | positive => cases ht
    | _ => exact hread
  show readExpr (grammar (n + 1)) c (st.at (t :: tokens)) = _
  unfold readExpr
  rw [bind_ok hoperand]
  show readOperators (grammar n) { c with outermost := false } 1 e (st.at (next :: rest)) = _
  unfold readOperators
  rw [bind_ok (remaining_ok st _)]
  exact operatorRow_ok hnext _ _

end Grammar

open Grammar Parse

/-! ## Literals -/

theorem primary_literal {g : Grammar} {c : Context} {st : ParseState} {t next : Located} (l : Literal)
    (ht : t.token = l.token) (rest : List Located) :
    primary g c (st.at (t :: next :: rest)) = .ok (.literal l t.place, st.at (next :: rest)) := by
  unfold primary
  rw [bind_ok (peek_ok st t _)]
  obtain ⟨token, place⟩ := t
  cases l with
  | bool b => cases b <;> (cases ht; rfl)
  | _ => cases ht; rfl

theorem Reads.literal (l : Literal) : Reads [l.token] (.literal l) := by
  refine ⟨⟨l.token, rfl, by cases l with | bool b => cases b <;> rfl | _ => rfl⟩, ?_⟩
  intro located hlocated n hn c st next hnext rest
  obtain ⟨t, rfl, ht⟩ := List.map_eq_singleton_iff.mp hlocated
  obtain ⟨n, rfl⟩ : ∃ m, n = m + 2 := ⟨n - 2, by simp at hn; omega⟩
  have hunsigned : isUnsigned t.token = true := by
    rw [ht]
    cases l with
    | bool b => cases b <;> rfl
    | _ => rfl
  exact ⟨_, expr_ok hunsigned hnext (primary_literal l ht rest), rfl⟩

/-! ## Arrays -/

variable {n fuel : Nat} {c : Context} {st : ParseState} {next : Located} {located : List Located}
  {tss : List (List Token)} {ds : List Datum}

theorem Reads.accept_close {ts : List Token} {d : Datum} (h : Reads ts d) (hlocated : located.map (·.token) = ts)
    {token : Token} (htoken : token.startsExpr = false) (rest : List Located) :
    accept token (st.at (located ++ rest)) = .ok (false, st.at (located ++ rest)) := by
  obtain ⟨t, ht, hstarts⟩ := h.head
  cases located with
  | nil =>
    rw [← hlocated] at ht
    cases ht
  | cons first more =>
    rw [← hlocated] at ht
    cases ht
    refine accept_no st fun heq => ?_
    have hnot : first.token.startsExpr = false := heq ▸ htoken
    exact absurd (hnot ▸ hstarts) (by decide)

/-- After an item of a row the row is closed, or a comma and the rest of the row follow. -/
theorem row_cons {ts : List Token} {closing : Token}
    (h : located.map (·.token) = [Token.mark .comma].intercalate (ts :: tss) ++ [closing]) :
    ∃ first, first.map (·.token) = ts ∧
      ((tss = [] ∧ ∃ close, located = first ++ [close] ∧ close.token = closing) ∨
        ∃ comma second others, located = first ++ comma :: second :: others ∧ comma.token = .mark .comma ∧
          (second :: others).map (·.token) = [Token.mark .comma].intercalate tss ++ [closing]) := by
  cases tss with
  | nil =>
    rw [List.intercalate_singleton] at h
    obtain ⟨first, last, rfl, hfirst, hlast⟩ := List.map_eq_append_iff.mp h
    obtain ⟨close, rfl, hclose⟩ := List.map_eq_singleton_iff.mp hlast
    exact ⟨first, hfirst, .inl ⟨rfl, close, rfl, hclose⟩⟩
  | cons ts' tss =>
    rw [List.intercalate_cons_cons, List.append_assoc, List.append_assoc] at h
    obtain ⟨first, others, rfl, hfirst, hothers⟩ := List.map_eq_append_iff.mp h
    obtain ⟨comma, others, rfl, hcomma, hothers⟩ := List.map_eq_cons_iff.mp hothers
    obtain ⟨second, others, rfl⟩ : ∃ t ts, others = t :: ts := by
      refine List.exists_cons_of_ne_nil ?_
      rintro rfl
      simp at hothers
    exact ⟨first, hfirst, .inr ⟨comma, second, others, rfl, hcomma, hothers⟩⟩

theorem items_ok (h : List.Forall₂ Reads tss ds) (hdepth : ∀ ts ∈ tss, 2 * ts.length ≤ n)
    (hlocated : located.map (·.token) = [Token.mark .comma].intercalate tss ++ [.mark .closeBracket])
    (hfuel : tss.length < fuel) (c : Context) (st : ParseState) (next : Located) (rest : List Located) :
    ∃ es, items (grammar n) c fuel (st.at (located ++ next :: rest)) = .ok (es, st.at (next :: rest)) ∧
      exprsData? es = some ds := by
  induction h generalizing located fuel with
  | nil =>
    obtain ⟨fuel, rfl⟩ : ∃ m, fuel = m + 1 := ⟨fuel - 1, by omega⟩
    obtain ⟨close, rfl, hclose⟩ := List.map_eq_singleton_iff.mp hlocated
    refine ⟨[], ?_, rfl⟩
    unfold items
    rw [List.singleton_append, bind_ok (accept_ok st hclose)]
    rfl
  | cons hitem hitems ih =>
    obtain ⟨fuel, rfl⟩ : ∃ m, fuel = m + 1 := ⟨fuel - 1, by omega⟩
    obtain ⟨hitemDepth, hrestDepth⟩ := List.forall_mem_cons.mp hdepth
    obtain ⟨first, hfirst, ⟨rfl, close, rfl, hclose⟩ | ⟨comma, second, others, rfl, hcomma, hothers⟩⟩ :=
      row_cons hlocated
    · -- the last item
      obtain rfl := List.forall₂_nil_left_iff.mp hitems
      have hcomma : close.token ≠ .mark .comma := by rw [hclose]; decide
      have hends : close.token.endsValue := by rw [hclose]; decide
      obtain ⟨e, he, hdatum⟩ := hitem.read hfirst hitemDepth c.inner st hends (next :: rest)
      refine ⟨[e], ?_, by simp [exprsData?, hdatum]⟩
      unfold items
      rw [List.append_assoc, List.singleton_append, bind_ok (hitem.accept_close hfirst rfl _),
        if_neg (by decide), bind_ok he, bind_ok (accept_no st hcomma), if_neg (by decide),
        bind_ok (accept_ok st hclose)]
      rfl
    · -- an item before a comma
      have hends : comma.token.endsValue := by rw [hcomma]; decide
      obtain ⟨e, he, hdatum⟩ :=
        hitem.read hfirst hitemDepth c.inner st hends (second :: others ++ next :: rest)
      obtain ⟨es, hes, hdata⟩ := ih hrestDepth hothers (by simpa using hfuel)
      refine ⟨e :: es, ?_, by simp [exprsData?, hdatum, hdata]⟩
      unfold items
      rw [List.append_assoc, List.cons_append, bind_ok (hitem.accept_close hfirst rfl _),
        if_neg (by decide), bind_ok he, List.cons_append, bind_ok (accept_ok st hcomma), if_pos rfl,
        ← List.cons_append, bind_ok hes]
      rfl

theorem primary_array {g : Grammar} {t : Located} {tokens : List Located} {es : List Expr} {st' : ParseState}
    (ht : t.token = .mark .openBracket) (hne : tokens ≠ [])
    (h : items g c tokens.length (st.at tokens) = .ok (es, st')) :
    primary g c (st.at (t :: tokens)) = .ok (.array es t.place, st') := by
  obtain ⟨second, tokens, rfl⟩ := List.exists_cons_of_ne_nil hne
  obtain ⟨token, place⟩ := t
  cases ht
  unfold primary
  rw [bind_ok (peek_ok st _ _)]
  show (advance >>= fun _ => remaining >>= fun fuel => items g c fuel >>= fun es =>
    pure (Expr.array es place)) (st.at (⟨.mark .openBracket, place⟩ :: second :: tokens)) = _
  rw [bind_ok (advance_ok st _ second tokens), bind_ok (remaining_ok st _), bind_ok h]
  rfl

theorem length_intercalate (tss : List (List Token)) (sep : Token) :
    tss.length ≤ ([sep].intercalate tss).length + 1 ∧
      ∀ ts ∈ tss, ts.length ≤ ([sep].intercalate tss).length := by
  induction tss with
  | nil => simp
  | cons ts tss ih =>
    cases tss with
    | nil => simp
    | cons ts' tss =>
      obtain ⟨hcount, hlength⟩ := ih
      rw [List.intercalate_cons_cons, List.length_append, List.length_append, List.length_singleton]
      refine ⟨by simp only [List.length_cons] at hcount ⊢; omega, fun us hus => ?_⟩
      rcases List.mem_cons.mp hus with rfl | hus
      · omega
      · exact (hlength us hus).trans (by omega)

/-- Inside a row in brackets there are two levels of nesting less, and the tokens are enough for all rounds. -/
theorem row_bounds {opening closing : Token} {tokens : List Located}
    (htokens : tokens.map (·.token) = [Token.mark .comma].intercalate tss ++ [closing])
    (hn : 2 * (opening :: ([Token.mark .comma].intercalate tss ++ [closing])).length ≤ n) (next : Located)
    (rest : List Located) :
    ∃ m, n = m + 2 ∧ (∀ ts ∈ tss, 2 * ts.length ≤ m) ∧ tss.length < (tokens ++ next :: rest).length := by
  obtain ⟨hcount, hlength⟩ := length_intercalate tss (.mark .comma)
  have htotal := congrArg List.length htokens
  rw [List.length_map, List.length_append, List.length_singleton] at htotal
  rw [List.length_cons, List.length_append, List.length_singleton] at hn
  refine ⟨n - 2, by omega, fun ts hts => ?_, ?_⟩
  · have := hlength ts hts
    omega
  · rw [List.length_append, List.length_cons]
    omega

/-- **An array of values is read as the array.** -/
theorem Reads.array (h : List.Forall₂ Reads tss ds) :
    Reads (.mark .openBracket :: ([Token.mark .comma].intercalate tss ++ [.mark .closeBracket])) (.array ds) := by
  refine ⟨⟨_, rfl, rfl⟩, ?_⟩
  intro located hlocated n hn c st next hnext rest
  obtain ⟨t, tokens, rfl, ht, htokens⟩ := List.map_eq_cons_iff.mp hlocated
  obtain ⟨n, rfl, hdepth, hfuel⟩ := row_bounds htokens hn next rest
  obtain ⟨es, hes, hdata⟩ := items_ok h hdepth htokens hfuel { c with outermost := false } st next rest
  refine ⟨.array es t.place, ?_, by simp [Expr.datum?, hdata]⟩
  exact expr_ok (by rw [ht]; rfl) hnext (primary_array ht (by simp) hes)

/-! ## Records -/

/-- The tokens are read as a field with this name and value. -/
def ReadsField (ts : List Token) (f : String × Datum) : Prop :=
  ∃ vs, ts = .word f.1 :: .mark .colon :: vs ∧ Reads vs f.2

theorem fieldName_ok {seen : List String} {name : String} {t : Located} (ht : t.token = .word name)
    (hseen : name ∉ seen) (rest : List Located) :
    fieldName seen (st.at (t :: next :: rest)) = .ok (name, st.at (next :: rest)) := by
  obtain ⟨token, place⟩ := t
  cases ht
  unfold fieldName
  rw [bind_ok (peek_ok st _ _)]
  show (advance >>= fun _ => if seen.contains name then fail (.repeatedProperty name) place else pure name)
    (st.at (⟨.word name, place⟩ :: next :: rest)) = _
  rw [bind_ok (advance_ok st _ next rest), if_neg (by simpa using hseen)]
  rfl

theorem field_ok {ts : List Token} {f : String × Datum} (h : ReadsField ts f) (hdepth : 2 * ts.length ≤ n)
    (hlocated : located.map (·.token) = ts) {seen : List String} (hseen : f.1 ∉ seen)
    (hnext : next.token.endsValue) (c : Context) (st : ParseState) (rest : List Located) :
    ∃ e, e.datum? = some f.2 ∧ ∀ k : String → Expr → Parse (List (String × Expr)),
      (do
        if ← accept (.mark .closeBrace) then pure []
        else
          let name ← fieldName seen
          expect (.mark .colon) ("to follow the property '" ++ name ++ "' in this object map literal")
          let e ← (grammar n).expr c.inner
          k name e) (st.at (located ++ next :: rest)) = k f.1 e (st.at (next :: rest)) := by
  obtain ⟨vs, rfl, hvalue⟩ := h
  obtain ⟨name, located, rfl, hname, hlocated⟩ := List.map_eq_cons_iff.mp hlocated
  obtain ⟨colon, located, rfl, hcolon, hlocated⟩ := List.map_eq_cons_iff.mp hlocated
  have hvalueDepth : 2 * vs.length ≤ n := by
    rw [List.length_cons, List.length_cons] at hdepth
    omega
  obtain ⟨e, he, hdatum⟩ := hvalue.read hlocated hvalueDepth c.inner st hnext rest
  obtain ⟨second, tail, htail⟩ : ∃ t ts, located ++ next :: rest = t :: ts :=
    List.exists_cons_of_ne_nil (by simp)
  have hclose : name.token ≠ .mark .closeBrace := by rw [hname]; exact fun h => nomatch h
  refine ⟨e, hdatum, fun k => ?_⟩
  rw [List.cons_append, List.cons_append, htail]
  rw [htail] at he
  rw [bind_ok (accept_no st hclose), if_neg (by decide), bind_ok (fieldName_ok hname hseen _),
    bind_ok (expect_ok st hcolon _), bind_ok he]

theorem fields_ok {fs : List (String × Datum)} (h : List.Forall₂ ReadsField tss fs)
    (hdepth : ∀ ts ∈ tss, 2 * ts.length ≤ n) {seen : List String} (hnames : (seen ++ fs.map (·.1)).Nodup)
    (hlocated : located.map (·.token) = [Token.mark .comma].intercalate tss ++ [.mark .closeBrace])
    (hfuel : tss.length < fuel) (c : Context) (st : ParseState) (next : Located) (rest : List Located) :
    ∃ es, fields (grammar n) c seen fuel (st.at (located ++ next :: rest)) = .ok (es, st.at (next :: rest)) ∧
      fieldsData? es = some fs := by
  induction h generalizing located seen fuel with
  | nil =>
    obtain ⟨fuel, rfl⟩ : ∃ m, fuel = m + 1 := ⟨fuel - 1, by omega⟩
    obtain ⟨close, rfl, hclose⟩ := List.map_eq_singleton_iff.mp hlocated
    refine ⟨[], ?_, rfl⟩
    unfold fields
    rw [List.singleton_append, bind_ok (accept_ok st hclose)]
    rfl
  | @cons ts f tss fs hfield hfields ih =>
    obtain ⟨fuel, rfl⟩ : ∃ m, fuel = m + 1 := ⟨fuel - 1, by omega⟩
    obtain ⟨hfieldDepth, hrestDepth⟩ := List.forall_mem_cons.mp hdepth
    have hseen : f.1 ∉ seen := fun hmem =>
      (List.nodup_append.mp hnames).2.2 _ hmem _ List.mem_cons_self rfl
    obtain ⟨first, hfirst, ⟨rfl, close, rfl, hclose⟩ | ⟨comma, second, others, rfl, hcomma, hothers⟩⟩ :=
      row_cons hlocated
    · -- the last field
      obtain rfl := List.forall₂_nil_left_iff.mp hfields
      have hcomma : close.token ≠ .mark .comma := by rw [hclose]; decide
      have hends : close.token.endsValue := by rw [hclose]; decide
      obtain ⟨e, hdatum, hk⟩ := field_ok hfield hfieldDepth hfirst hseen hends c st (next :: rest)
      refine ⟨[(f.1, e)], ?_, by simp [fieldsData?, hdatum]⟩
      unfold fields
      rw [List.append_assoc, List.singleton_append]
      refine (hk _).trans ?_
      rw [bind_ok (accept_no st hcomma), if_neg (by decide), bind_ok (accept_ok st hclose)]
      rfl
    · -- a field before a comma
      have hends : comma.token.endsValue := by rw [hcomma]; decide
      obtain ⟨e, hdatum, hk⟩ :=
        field_ok hfield hfieldDepth hfirst hseen hends c st (second :: others ++ next :: rest)
      have hnames' : ((seen ++ [f.1]) ++ fs.map (·.1)).Nodup := by
        rw [List.append_assoc]
        exact hnames
      obtain ⟨es, hes, hdata⟩ := ih hrestDepth hnames' hothers (by simpa using hfuel)
      refine ⟨(f.1, e) :: es, ?_, by simp [fieldsData?, hdatum, hdata]⟩
      unfold fields
      rw [List.append_assoc]
      refine (hk _).trans ?_
      rw [List.cons_append, bind_ok (accept_ok st hcomma), if_pos rfl, ← List.cons_append, bind_ok hes]
      rfl

theorem primary_record {g : Grammar} {t : Located} {tokens : List Located} {es : List (String × Expr)}
    {st' : ParseState} (ht : t.token = .mark .openRecord) (hne : tokens ≠ [])
    (h : fields g c [] tokens.length (st.at tokens) = .ok (es, st')) :
    primary g c (st.at (t :: tokens)) = .ok (.record es t.place, st') := by
  obtain ⟨second, tokens, rfl⟩ := List.exists_cons_of_ne_nil hne
  obtain ⟨token, place⟩ := t
  cases ht
  unfold primary
  rw [bind_ok (peek_ok st _ _)]
  show (advance >>= fun _ => remaining >>= fun fuel => fields g c [] fuel >>= fun es =>
    pure (Expr.record es place)) (st.at (⟨.mark .openRecord, place⟩ :: second :: tokens)) = _
  rw [bind_ok (advance_ok st _ second tokens), bind_ok (remaining_ok st _), bind_ok h]
  rfl

/-- **A record of values is read as the record.** -/
theorem Reads.record {fs : List (String × Datum)} (h : List.Forall₂ ReadsField tss fs)
    (hnames : (fs.map (·.1)).Nodup) :
    Reads (.mark .openRecord :: ([Token.mark .comma].intercalate tss ++ [.mark .closeBrace])) (.record fs) := by
  refine ⟨⟨_, rfl, rfl⟩, ?_⟩
  intro located hlocated n hn c st next hnext rest
  obtain ⟨t, tokens, rfl, ht, htokens⟩ := List.map_eq_cons_iff.mp hlocated
  obtain ⟨n, rfl, hdepth, hfuel⟩ := row_bounds htokens hn next rest
  have hnames' : (([] : List String) ++ fs.map (·.1)).Nodup := hnames
  obtain ⟨es, hes, hdata⟩ := fields_ok h hdepth hnames' htokens hfuel { c with outermost := false } st next rest
  refine ⟨.record es t.place, ?_, by simp [Expr.datum?, hdata]⟩
  exact expr_ok (by rw [ht]; rfl) hnext (primary_record ht (by simp) hes)

end Worksheet.Formula
