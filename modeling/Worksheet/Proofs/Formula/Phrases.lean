import Worksheet.Proofs.Formula.Declaration
import Worksheet.Proofs.Formula.Library
/-!
# Reading phrases

What the grammar makes of the expressions and statements that a function is written with, wherever their tokens stand.
Each rule reads a phrase from its parts, and four levels of the grammar are enough for each token.

* `placed`: tokens at their places;
* `ReadsOperand`, `ReadsExpr`: **`ReadsExpr.binary`** and `ReadsExpr.either` for expressions with operators;
* `ReadsStmt`: `declare`, `branch`, `loop` and the other statements;
* `ReadsItems`, **`ReadsBlock.of_items`**: statements one after the other, and the block around them.
-/

namespace Worksheet.Formula

open Grammar Parse Library

/-! ## Tokens at their places -/

/-- The tokens at the places where they stand, the first one being token `k`. -/
def placed (p : Nat → Place) (k : Nat) (ts : List Token) : List Located :=
  (ts.zipIdx k).map fun t => ⟨t.1, p t.2⟩

theorem placed_cons (p : Nat → Place) (k : Nat) (t : Token) (ts : List Token) :
    placed p k (t :: ts) = ⟨t, p k⟩ :: placed p (k + 1) ts := by
  rw [placed, List.zipIdx_cons, List.map_cons]
  rfl

theorem placed_append (p : Nat → Place) (k : Nat) (ts us : List Token) :
    placed p k (ts ++ us) = placed p k ts ++ placed p (k + ts.length) us := by
  rw [placed, List.zipIdx_append, List.map_append]
  rfl

theorem length_placed (p : Nat → Place) (k : Nat) (ts : List Token) : (placed p k ts).length = ts.length := by
  rw [placed, List.length_map, List.length_zipIdx]

theorem length_le_placed (p : Nat → Place) (k : Nat) (ts : List Token) (rest : List Located) :
    ts.length ≤ (placed p k ts ++ rest).length := by
  rw [List.length_append, length_placed]
  exact Nat.le_add_right _ _

theorem exists_placed (located : List Located) : ∃ p, placed p 0 (located.map (·.token)) = located := by
  refine ⟨fun i => (located[i]?.map (·.place)).getD Place.start, List.ext_getElem? fun i => ?_⟩
  rw [placed, List.getElem?_map, List.getElem?_zipIdx, List.getElem?_map]
  cases h : located[i]? with
  | none => rfl
  | some t => simp [h]

/-! ## Expressions -/

/-- The tokens from token `k` on are read as the operand, when a given token comes after them. -/
def ReadsOperand (scope : List LocalName) (k : Nat) (ts : List Token) (follow : Token) (e : (Nat → Place) → Expr) : Prop :=
  ∀ n c p place rest functions, (grammar (n + 3 * ts.length)).operand (Context.inner c)
      (ParseState.at ⟨[], scope, [], functions⟩ (placed p k ts ++ ⟨follow, place⟩ :: rest)) =
    .ok (e p, ParseState.at ⟨[], scope, [], functions⟩ (⟨follow, place⟩ :: rest))

/-- The tokens from token `k` on are read as the expression, when a given token comes after them. -/
def ReadsExpr (scope : List LocalName) (k : Nat) (ts : List Token) (follow : Token) (e : (Nat → Place) → Expr) : Prop :=
  ∀ n c p place rest functions, 4 * ts.length ≤ n →
    (grammar n).expr (Context.inner c)
      (ParseState.at ⟨[], scope, [], functions⟩ (placed p k ts ++ ⟨follow, place⟩ :: rest)) =
    .ok (e p, ParseState.at ⟨[], scope, [], functions⟩ (⟨follow, place⟩ :: rest))

/-- No operator stands at the token. -/
def Token.endsRow : Token → Bool
  | .operator _ | .reserved _ => false
  | _ => true

section Rows

variable {scope : List LocalName} {k n least fuel : Nat} {ts us : List Token} {follow : Token} {c : Context}
  {st st₁ st₂ : ParseState} {g : Grammar} {op other : Operator} {lhs rhs operand : Expr} {t u next : Located}
  {rest tokens : List Located} {a b : (Nat → Place) → Expr}

theorem operatorAhead_none (h : t.token.endsRow = true) :
    operatorAhead c (st.at (t :: rest)) = .ok (none, st.at (t :: rest)) := by
  unfold operatorAhead
  rw [bind_ok (peek_ok st t rest)]
  obtain ⟨token, place⟩ := t
  cases token <;> first | rfl | cases h

theorem operatorAhead_some (c : Context) (h : t.token = .operator op) :
    operatorAhead c.inner (st.at (t :: rest)) = .ok (some (op, t.place), st.at (t :: rest)) := by
  unfold operatorAhead
  rw [bind_ok (peek_ok st t rest)]
  obtain ⟨token, place⟩ := t
  cases h
  rfl

theorem operatorRow_ends (h : t.token.endsRow = true) (least fuel : Nat) :
    operatorRow g c least lhs fuel (st.at (t :: rest)) = .ok (lhs, st.at (t :: rest)) := by
  cases fuel with
  | zero => rfl
  | succ fuel =>
    unfold operatorRow
    rw [bind_ok (operatorAhead_none h)]
    rfl

/-- No operator that binds as strongly stands at the token. -/
def Token.Yields (op : Operator) (t : Token) : Prop :=
  t.endsRow = true ∨ ∃ other, t = .operator other ∧ other.strength < op.strength

theorem operatorRow_step (ht : t.token = .operator op) (hstrength : least < op.strength)
    (hoperand : g.operand c.inner (st.at (next :: tokens)) = .ok (operand, st₁.at (u :: rest)))
    (hu : u.token.Yields op) :
    operatorRow g c.inner least lhs (fuel + 1) (st.at (t :: next :: tokens)) =
      operatorRow g c.inner least (.binary op lhs operand t.place) fuel (st₁.at (u :: rest)) := by
  unfold operatorRow
  rw [bind_ok (operatorAhead_some c ht)]
  dsimp only
  rw [if_neg (by simp [hstrength.le, hstrength.ne']), bind_ok (advance_ok st t next tokens), bind_ok hoperand]
  rcases hu with hends | ⟨other, hother, hweak⟩
  · rw [bind_ok (operatorAhead_none hends)]
    cases fuel <;> rfl
  · rw [bind_ok (operatorAhead_some c hother)]
    dsimp only
    rw [if_neg (by simp [hweak.le, hweak.ne']), bind_ok (pure_ok _ _)]
    cases fuel <;> rfl

/-- An operator whose right operand goes on with an operator that binds more strongly. -/
theorem operatorRow_deeper (ht : t.token = .operator op) (hstrength : least < op.strength)
    (hoperand : g.operand c.inner (st.at (next :: tokens)) = .ok (operand, st₁.at (u :: rest)))
    (hu : u.token = .operator other) (hother : op.strength < other.strength)
    (hrhs : g.operators c.inner op.strength operand (st₁.at (u :: rest)) = .ok (rhs, st₂)) :
    operatorRow g c.inner least lhs (fuel + 1) (st.at (t :: next :: tokens)) =
      operatorRow g c.inner least (.binary op lhs rhs t.place) fuel st₂ := by
  unfold operatorRow
  rw [bind_ok (operatorAhead_some c ht)]
  dsimp only
  rw [if_neg (by simp [hstrength.le, hstrength.ne']), bind_ok (advance_ok st t next tokens), bind_ok hoperand,
    bind_ok (operatorAhead_some c hu)]
  dsimp only
  rw [if_pos (by simp [hother]), bind_ok hrhs]
  cases fuel <;> rfl

end Rows

/-- The rest of an expression, from an operator at token `k` on, after its first operand. -/
def ReadsRow (scope : List LocalName) (least k : Nat) (ts : List Token) (follow : Token) (lhs e : (Nat → Place) → Expr) :
    Prop :=
  ∀ n c p place rest functions fuel, 3 * ts.length ≤ n → ts.length ≤ fuel →
    operatorRow (grammar n) (Context.inner c) least (lhs p) fuel
      (ParseState.at ⟨[], scope, [], functions⟩ (placed p k ts ++ ⟨follow, place⟩ :: rest)) =
    .ok (e p, ParseState.at ⟨[], scope, [], functions⟩ (⟨follow, place⟩ :: rest))

section Expressions

variable {scope : List LocalName} {least k : Nat} {ts us : List Token} {follow : Token}
  {a b e lhs rhs : (Nat → Place) → Expr} {op other : Operator}

theorem exists_next (p : Nat → Place) (k : Nat) (us : List Token) (follow : Token) (place : Place) (rest : List Located) :
    ∃ place' rest', placed p k us ++ ⟨follow, place⟩ :: rest = ⟨us.headD follow, place'⟩ :: rest' := by
  cases us with
  | nil => exact ⟨place, rest, rfl⟩
  | cons u us => exact ⟨_, _, rfl⟩

theorem ReadsOperand.read (h : ReadsOperand scope k ts follow a) {n : Nat} (hn : 3 * ts.length ≤ n) (c : Context)
    (p : Nat → Place) (place : Place) (rest : List Located) (functions : List Function) :
    (grammar n).operand (Context.inner c)
        (ParseState.at ⟨[], scope, [], functions⟩ (placed p k ts ++ ⟨follow, place⟩ :: rest)) =
      .ok (a p, ParseState.at ⟨[], scope, [], functions⟩ (⟨follow, place⟩ :: rest)) := by
  obtain ⟨m, rfl⟩ := Nat.exists_eq_add_of_le' hn
  exact h m c p place rest functions

theorem ReadsRow.ends (hfollow : follow.endsRow = true) (lhs : (Nat → Place) → Expr) :
    ReadsRow scope least k [] follow lhs lhs :=
  fun _ _ _ _ _ _ _ _ _ => operatorRow_ends hfollow least _

theorem ReadsRow.step (hstrength : least < op.strength) (hb : ReadsOperand scope (k + 1) ts (us.headD follow) b)
    (hyields : (us.headD follow).Yields op)
    (h : ReadsRow scope least (k + 1 + ts.length) us follow (fun p => .binary op (lhs p) (b p) (p k)) e) :
    ReadsRow scope least k (.operator op :: (ts ++ us)) follow lhs e := by
  intro n c p place rest functions fuel hn hfuel
  rw [List.length_cons, List.length_append] at hn hfuel
  obtain ⟨fuel, rfl⟩ : ∃ m, fuel = m + 1 := ⟨fuel - 1, by omega⟩
  obtain ⟨place', rest', hnext⟩ := exists_next p (k + 1 + ts.length) us follow place rest
  have hoperand := hb.read (show 3 * ts.length ≤ n by omega) c p place' rest' functions
  have hrow := h n c p place rest functions fuel (by omega) (by omega)
  obtain ⟨t, tokens, htokens⟩ : ∃ t tokens, placed p (k + 1) ts ++ ⟨us.headD follow, place'⟩ :: rest' = t :: tokens :=
    List.exists_cons_of_ne_nil (by simp)
  rw [hnext] at hrow
  rw [htokens] at hoperand
  rw [placed_cons, placed_append, List.cons_append, List.append_assoc, hnext, htokens]
  exact (operatorRow_step rfl hstrength hoperand hyields).trans hrow

theorem ReadsRow.last (hstrength : least < op.strength) (hb : ReadsOperand scope (k + 1) ts follow b)
    (hfollow : follow.endsRow = true) :
    ReadsRow scope least k (.operator op :: ts) follow lhs fun p => .binary op (lhs p) (b p) (p k) := by
  have hrow : ReadsRow scope least k (.operator op :: (ts ++ [])) follow lhs fun p => .binary op (lhs p) (b p) (p k) :=
    .step hstrength hb (.inl hfollow) (.ends hfollow _)
  rwa [List.append_nil] at hrow

theorem ReadsRow.deeper (hstrength : least < op.strength) (hb : ReadsOperand scope (k + 1) ts (.operator other) b)
    (hother : op.strength < other.strength)
    (h : ReadsRow scope op.strength (k + 1 + ts.length) (.operator other :: us) follow b rhs)
    (hfollow : follow.endsRow = true) :
    ReadsRow scope least k (.operator op :: (ts ++ .operator other :: us)) follow lhs
      fun p => .binary op (lhs p) (rhs p) (p k) := by
  intro n c p place rest functions fuel hn hfuel
  rw [List.length_cons, List.length_append, List.length_cons] at hn hfuel
  obtain ⟨fuel, rfl⟩ : ∃ m, fuel = m + 1 := ⟨fuel - 1, by omega⟩
  obtain ⟨n, rfl⟩ : ∃ m, n = m + 1 := ⟨n - 1, by omega⟩
  have hoperand := hb.read (show 3 * ts.length ≤ n + 1 by omega) c p (p (k + 1 + ts.length))
    (placed p (k + 1 + ts.length + 1) us ++ ⟨follow, place⟩ :: rest) functions
  have hrow := h n c p place rest functions
    (placed p (k + 1 + ts.length) (.operator other :: us) ++ ⟨follow, place⟩ :: rest).length
    (by rw [List.length_cons]; omega) (length_le_placed ..)
  obtain ⟨t, tokens, htokens⟩ : ∃ t tokens, placed p (k + 1) ts ++ ⟨.operator other, p (k + 1 + ts.length)⟩ ::
      (placed p (k + 1 + ts.length + 1) us ++ ⟨follow, place⟩ :: rest) = t :: tokens :=
    List.exists_cons_of_ne_nil (by simp)
  rw [htokens] at hoperand
  rw [placed_cons, placed_append, List.cons_append, List.append_assoc, placed_cons _ _ (.operator other), List.cons_append,
    htokens]
  exact (operatorRow_deeper rfl hstrength hoperand rfl hother hrow).trans (operatorRow_ends hfollow least _)

/-- **An operand and the row of operators after it.** -/
theorem ReadsOperand.expr (ha : ReadsOperand scope k ts (us.headD follow) a) (hts : ts ≠ [])
    (h : ReadsRow scope 1 (k + ts.length) us follow a e) : ReadsExpr scope k (ts ++ us) follow e := by
  intro n c p place rest functions hn
  have hpos := List.length_pos_iff.mpr hts
  rw [List.length_append] at hn
  obtain ⟨n, rfl⟩ : ∃ m, n = m + 2 := ⟨n - 2, by omega⟩
  obtain ⟨place', rest', hnext⟩ := exists_next p (k + ts.length) us follow place rest
  have hoperand := ha.read (show 3 * ts.length ≤ n + 1 by omega) c p place' rest' functions
  have hrow := h n c p place rest functions (placed p (k + ts.length) us ++ ⟨follow, place⟩ :: rest).length (by omega)
    (length_le_placed ..)
  rw [placed_append, List.append_assoc, hnext]
  rw [hnext] at hrow
  show readExpr (grammar (n + 1)) c.inner _ = _
  unfold readExpr
  exact (bind_ok hoperand).trans hrow

theorem ReadsExpr.of_add (h : ∀ n c p place rest functions, (grammar (n + 4 * ts.length)).expr (Context.inner c)
      (ParseState.at ⟨[], scope, [], functions⟩ (placed p k ts ++ ⟨follow, place⟩ :: rest)) =
    .ok (e p, ParseState.at ⟨[], scope, [], functions⟩ (⟨follow, place⟩ :: rest))) : ReadsExpr scope k ts follow e := by
  intro n c p place rest functions hn
  obtain ⟨m, rfl⟩ := Nat.exists_eq_add_of_le' hn
  exact h m c p place rest functions

theorem ReadsOperand.alone (h : ReadsOperand scope k ts follow a) (hts : ts ≠ []) (hfollow : follow.endsRow = true) :
    ReadsExpr scope k ts follow a := by
  rw [← List.append_nil ts]
  exact h.expr hts (.ends hfollow a)

/-- **Two operands with an operator between them.** -/
theorem ReadsExpr.binary (ha : ReadsOperand scope k ts (.operator op) a) (hts : ts ≠ [])
    (hb : ReadsOperand scope (k + ts.length + 1) us follow b) (hfollow : follow.endsRow = true) :
    ReadsExpr scope k (ts ++ .operator op :: us) follow fun p => .binary op (a p) (b p) (p (k + ts.length)) := by
  have hstrength : 1 < op.strength := by cases op <;> decide
  exact ha.expr hts (.last hstrength hb hfollow)

end Expressions

/-! ## Statements -/

/-- The tokens from token `k` on are read as the statement, when a given token comes after them. The variables in scope
change from `scope` to `after`. -/
def ReadsStmt (scope after : List LocalName) (k : Nat) (ts : List Token) (follow : Token) (s : (Nat → Place) → Stmt) : Prop :=
  ∀ n c p place rest functions, 4 * ts.length ≤ n →
    (grammar n).stmt (Context.inner c)
      (ParseState.at ⟨[], scope, [], functions⟩ (placed p k ts ++ ⟨follow, place⟩ :: rest)) =
    .ok (s p, ParseState.at ⟨[], after, [], functions⟩ (⟨follow, place⟩ :: rest))

/-- The tokens from token `k` on and a closing brace are read as the statements of a block. -/
def ReadsItems (scope : List LocalName) (k : Nat) (ts : List Token) (ss : (Nat → Place) → List Stmt) : Prop :=
  ∀ n c p next rest functions fuel, 4 * ts.length ≤ n → ts.length < fuel → ∃ after,
    blockItems (grammar n) c fuel
      (ParseState.at ⟨[], scope, [], functions⟩ (placed p k (ts ++ [.mark .closeBrace]) ++ next :: rest)) =
    .ok (ss p, ParseState.at ⟨[], after, [], functions⟩ (next :: rest))

/-- The tokens in braces, from token `k` on, are read as the block. -/
def ReadsBlock (scope : List LocalName) (k : Nat) (ts : List Token) (ss : (Nat → Place) → List Stmt) : Prop :=
  ∀ n c p next rest functions, 4 * (braced ts).length ≤ n →
    (grammar n).block c
      (ParseState.at ⟨[], scope, [], functions⟩ (placed p k (braced ts) ++ next :: rest)) =
    .ok (ss p, ParseState.at ⟨[], scope, [], functions⟩ (next :: rest))

section Statements

variable {scope after : List LocalName} {k n : Nat} {ts us body : List Token} {t follow : Token} {e : (Nat → Place) → Expr}
  {s : (Nat → Place) → Stmt} {ss : (Nat → Place) → List Stmt}

theorem get_ok (st : ParseState) : (get : Parse ParseState) st = .ok (st, st) :=
  rfl

theorem set_ok (st st' : ParseState) : (set st' : Parse PUnit) st = .ok ((), st') :=
  rfl

theorem define_ok (name : String) (constant : Bool) (st : ParseState) (tokens : List Located) :
    define name constant (st.at tokens) = .ok ((), { st with scope := ⟨name, constant⟩ :: st.scope }.at tokens) :=
  rfl

theorem enclosed_ok {α : Type} {p : Parse α} {a : α} {st : ParseState} {tokens rest : List Located}
    (inside : List LocalName) (h : p (st.at tokens) = .ok (a, { st with scope := inside }.at rest)) :
    enclosed p (st.at tokens) = .ok (a, st.at rest) := by
  unfold enclosed
  rw [bind_ok (get_ok _), bind_ok h]
  rfl

/-- A block from its statements. -/
theorem ReadsBlock.of_items (h : ReadsItems scope (k + 1) ts ss) (hprune : ∀ p, Stmt.prune (ss p) = ss p) :
    ReadsBlock scope k ts ss := by
  intro n c p next rest functions hn
  have hlength : (braced ts).length = ts.length + 2 := by simp [braced]
  rw [hlength] at hn
  obtain ⟨n, rfl⟩ : ∃ m, n = m + 1 := ⟨n - 1, by omega⟩
  let tokens := placed p (k + 1) (ts ++ [.mark .closeBrace]) ++ next :: rest
  have hfuel : ts.length < tokens.length := by
    have := length_le_placed p (k + 1) (ts ++ [.mark .closeBrace]) (next :: rest)
    rw [List.length_append, List.length_singleton] at this
    exact this
  obtain ⟨after, hitems⟩ := h n c p next rest functions tokens.length (by omega) hfuel
  obtain ⟨second, others, hcons⟩ : ∃ t us, tokens = t :: us := List.exists_cons_of_ne_nil (by simp [tokens])
  have hbraced : placed p k (braced ts) ++ next :: rest = ⟨.mark .openBrace, p k⟩ :: tokens := by
    rw [braced, List.cons_append, placed_cons, List.cons_append]
  have hopen : (⟨.mark .openBrace, p k⟩ : Located).token = .mark .openBrace := rfl
  change blockItems (grammar n) c tokens.length (ParseState.at ⟨[], scope, [], functions⟩ tokens) = _ at hitems
  rw [hbraced]
  rw [hcons] at hitems ⊢
  show readBlock (grammar n) c _ = _
  unfold readBlock
  rw [bind_ok (expect_ok _ hopen _), bind_ok (remaining_ok _ _), bind_ok (enclosed_ok after hitems), hprune]
  rfl

/-! ### Single statements -/

theorem ReadsStmt.of_add (h : ∀ n c p place rest functions, (grammar (n + 4 * ts.length)).stmt (Context.inner c)
      (ParseState.at ⟨[], scope, [], functions⟩ (placed p k ts ++ ⟨follow, place⟩ :: rest)) =
    .ok (s p, ParseState.at ⟨[], after, [], functions⟩ (⟨follow, place⟩ :: rest))) : ReadsStmt scope after k ts follow s := by
  intro n c p place rest functions hn
  obtain ⟨m, rfl⟩ := Nat.exists_eq_add_of_le' hn
  exact h m c p place rest functions

theorem ReadsStmt.declare (name : String) (h : ReadsExpr scope (k + 3) ts (.mark .semicolon) e) :
    ReadsStmt scope (⟨name, false⟩ :: scope) k (.keyword .let_ :: .word name :: .assign none :: ts) (.mark .semicolon)
      fun p => .declare false name (some (e p)) (p (k + 1)) := by
  intro n c p place rest functions hn
  simp only [List.length_cons] at hn
  obtain ⟨n, rfl⟩ : ∃ m, n = m + 1 := ⟨n - 1, by omega⟩
  have hexpr := h n c.inner p place rest functions (by omega)
  have hname : (⟨.word name, p (k + 1)⟩ : Located).token = .word name := rfl
  have hequals : (⟨.assign none, p (k + 2)⟩ : Located).token = .assign none := rfl
  obtain ⟨t, others, hcons⟩ : ∃ t others, placed p (k + 3) ts ++ ⟨.mark .semicolon, place⟩ :: rest = t :: others :=
    List.exists_cons_of_ne_nil (by simp)
  rw [hcons] at hexpr
  rw [placed_cons, placed_cons, placed_cons, List.cons_append, List.cons_append, List.cons_append, hcons]
  show readStmt (grammar n) c.inner _ = _
  unfold readStmt
  rw [bind_ok (peek_ok _ _ _)]
  dsimp only
  rw [bind_ok (advance_ok _ _ _ _)]
  unfold declaration
  rw [bind_ok (variableName_ok _ hname)]
  dsimp only
  rw [bind_ok (accept_ok _ hequals), if_pos rfl, bind_ok hexpr, bind_ok (pure_ok _ _)]
  rfl

theorem conditionAhead_ok {st : ParseState} {first : Located} {others : List Located}
    (hfirst : first.token ≠ .mark .openBrace) :
    conditionAhead (st.at (first :: others)) = .ok ((), st.at (first :: others)) := by
  unfold conditionAhead
  rw [bind_ok (peek_ok _ _ _), if_neg hfirst]
  rfl

theorem condition_ok {g : Grammar} {c : Context} {st st₁ : ParseState} {first next : Located} {others rest : List Located}
    {e : Expr} (hfirst : first.token ≠ .mark .openBrace) (hnext : next.token ≠ .assign none)
    (h : g.expr c.inner (st.at (first :: others)) = .ok (e, st₁.at (next :: rest))) :
    condition g c (st.at (first :: others)) = .ok (e, st₁.at (next :: rest)) := by
  unfold condition
  rw [bind_ok (conditionAhead_ok hfirst), bind_ok h, bind_ok (peek_ok _ _ _), if_neg hnext]
  rfl

theorem ReadsStmt.branch (h : ReadsExpr scope (k + 1) ts (.mark .openBrace) e) (hts : ∃ t ∈ ts.head?, t ≠ .mark .openBrace)
    (hbody : ReadsBlock scope (k + 1 + ts.length) body ss) (hfollow : follow ≠ .keyword .else_) :
    ReadsStmt scope scope k (ifTokens ts body) follow fun p => .branch (e p) (ss p) [] := by
  intro n c p place rest functions hn
  have hlength : (ifTokens ts body).length = ts.length + (braced body).length + 1 := by
    rw [ifTokens, List.length_append, List.length_cons]
    omega
  rw [hlength] at hn
  obtain ⟨n, rfl⟩ : ∃ m, n = m + 1 := ⟨n - 1, by omega⟩
  have hexpr := h n c.inner p (p (k + 1 + ts.length))
    (placed p (k + 1 + ts.length + 1) (body ++ [.mark .closeBrace]) ++ ⟨follow, place⟩ :: rest) functions (by omega)
  have hblock := hbody n c.inner.inner p ⟨follow, place⟩ rest functions (by omega)
  have htokens : placed p k (ifTokens ts body) ++ ⟨follow, place⟩ :: rest = ⟨.keyword .if_, p k⟩ ::
      (placed p (k + 1) ts ++ (placed p (k + 1 + ts.length) (braced body) ++ ⟨follow, place⟩ :: rest)) := by
    rw [ifTokens, List.cons_append, placed_cons, placed_append, List.cons_append, List.append_assoc]
  rw [braced, List.cons_append, placed_cons, List.cons_append] at hblock htokens
  obtain ⟨t, hhead, ht⟩ := hts
  obtain ⟨us, rfl⟩ := List.head?_eq_some_iff.mp hhead
  rw [htokens]
  rw [placed_cons, List.cons_append] at hexpr ⊢
  have helse : (⟨follow, place⟩ : Located).token ≠ .keyword .else_ := hfollow
  show readStmt (grammar n) c.inner _ = _
  unfold readStmt
  rw [bind_ok (peek_ok _ _ _)]
  dsimp only
  rw [bind_ok (advance_ok _ _ _ _), bind_ok (remaining_ok _ _), List.length_cons]
  unfold branchRest
  rw [bind_ok (condition_ok ht (by simp) hexpr), bind_ok hblock, bind_ok (accept_no _ helse)]
  rfl

theorem loopNames_ok {st : ParseState} {first next : Located} {rest : List Located} {name : String}
    (hfirst : first.token = .word name) :
    loopNames (st.at (first :: next :: rest)) = .ok ((name, none), st.at (next :: rest)) := by
  have hopen : first.token ≠ .mark .openParen := by
    rw [hfirst]
    exact fun h => nomatch h
  unfold loopNames
  rw [bind_ok (accept_no st hopen), if_neg Bool.false_ne_true, bind_ok (variableName_ok st hfirst)]
  rfl

theorem ReadsStmt.loop (name : String) (h : ReadsExpr scope (k + 3) ts (.mark .openBrace) e)
    (hts : ∃ t ∈ ts.head?, t ≠ .mark .openBrace)
    (hbody : ReadsBlock (⟨name, false⟩ :: scope) (k + 3 + ts.length) body ss) :
    ReadsStmt scope scope k (forTokens name ts body) follow fun p => .forLoop name none (e p) (ss p) := by
  intro n c p place rest functions hn
  have hlength : (forTokens name ts body).length = ts.length + (braced body).length + 3 := by
    simp only [forTokens, List.length_append, List.length_cons]
    omega
  rw [hlength] at hn
  obtain ⟨n, rfl⟩ : ∃ m, n = m + 1 := ⟨n - 1, by omega⟩
  have hexpr := h n c.inner p (p (k + 3 + ts.length))
    (placed p (k + 3 + ts.length + 1) (body ++ [.mark .closeBrace]) ++ ⟨follow, place⟩ :: rest) functions (by omega)
  have hblock := hbody n { c.inner.inner with breakable := true } p ⟨follow, place⟩ rest functions (by omega)
  have htokens : placed p k (forTokens name ts body) ++ ⟨follow, place⟩ :: rest = ⟨.keyword .for_, p k⟩ ::
      ⟨.word name, p (k + 1)⟩ :: ⟨.operator .within, p (k + 2)⟩ ::
      (placed p (k + 3) ts ++ (placed p (k + 3 + ts.length) (braced body) ++ ⟨follow, place⟩ :: rest)) := by
    simp only [forTokens, List.cons_append, placed_cons, placed_append, List.append_assoc]
  rw [braced, List.cons_append, placed_cons, List.cons_append] at hblock htokens
  obtain ⟨t, hhead, ht⟩ := hts
  obtain ⟨us, rfl⟩ := List.head?_eq_some_iff.mp hhead
  rw [htokens]
  rw [placed_cons, List.cons_append] at hexpr ⊢
  have hname : (⟨.word name, p (k + 1)⟩ : Located).token = .word name := rfl
  have hwithin : (⟨.operator .within, p (k + 2)⟩ : Located).token = .operator .within := rfl
  show readStmt (grammar n) c.inner _ = _
  unfold readStmt
  rw [bind_ok (peek_ok _ _ _)]
  dsimp only
  rw [bind_ok (advance_ok _ _ _ _)]
  unfold forRest
  rw [bind_ok (loopNames_ok hname)]
  dsimp only
  rw [bind_ok (expect_ok _ hwithin _), bind_ok (conditionAhead_ok ht), bind_ok hexpr]
  refine enclosed_ok (⟨name, false⟩ :: scope) ?_
  rw [bind_ok (define_ok name false _ _), bind_ok hblock]
  rfl

theorem valueAfter_ok {g : Grammar} {c : Context} {st st₁ : ParseState} {first : Located} {others : List Located} {e : Expr}
    (hfirst : first.token.startsExpr = true) (h : g.expr c.inner (st.at (first :: others)) = .ok (e, st₁)) :
    valueAfter? g c (st.at (first :: others)) = .ok (some e, st₁) := by
  unfold valueAfter?
  rw [bind_ok (peek_ok st _ _), if_pos hfirst, bind_ok h]
  rfl

/-- What leaves a block is a keyword with a value after it. -/
theorem ReadsStmt.leaving {keyword : Keyword} {leave : Option Expr → Place → Stmt}
    (hread : ∀ (g : Grammar) (c : Context) (st : ParseState) (place : Place) (first : Located) (others : List Located),
      readStmt g c (st.at (⟨.keyword keyword, place⟩ :: first :: others)) =
        (valueAfter? g c >>= fun value => pure (leave value place)) (st.at (first :: others)))
    (h : ReadsExpr scope (k + 1) ts (.mark .semicolon) e) (hts : ∃ t ∈ ts.head?, t.startsExpr = true) :
    ReadsStmt scope scope k (.keyword keyword :: ts) (.mark .semicolon) fun p => leave (some (e p)) (p k) := by
  intro n c p place rest functions hn
  obtain ⟨t, hhead, ht⟩ := hts
  obtain ⟨us, rfl⟩ := List.head?_eq_some_iff.mp hhead
  rw [List.length_cons] at hn
  obtain ⟨n, rfl⟩ : ∃ m, n = m + 1 := ⟨n - 1, by omega⟩
  have hexpr := h n c.inner p place rest functions (by omega)
  rw [placed_cons, List.cons_append] at hexpr
  rw [placed_cons, placed_cons, List.cons_append, List.cons_append]
  show readStmt (grammar n) c.inner _ = _
  rw [hread, bind_ok (valueAfter_ok ht hexpr)]
  rfl

theorem ReadsStmt.giveBack (h : ReadsExpr scope (k + 1) ts (.mark .semicolon) e)
    (hts : ∃ t ∈ ts.head?, t.startsExpr = true) :
    ReadsStmt scope scope k (.keyword .return_ :: ts) (.mark .semicolon) fun p => .giveBack (some (e p)) (p k) := by
  refine leaving (fun g c st place first others => ?_) h hts
  unfold readStmt
  rw [bind_ok (peek_ok _ _ _)]
  dsimp only
  rw [bind_ok (advance_ok _ _ _ _)]

theorem ReadsStmt.raise (h : ReadsExpr scope (k + 1) ts (.mark .semicolon) e)
    (hts : ∃ t ∈ ts.head?, t.startsExpr = true) :
    ReadsStmt scope scope k (.keyword .throw_ :: ts) (.mark .semicolon) fun p => .raise (some (e p)) (p k) := by
  refine leaving (fun g c st place first others => ?_) h hts
  unfold readStmt
  rw [bind_ok (peek_ok _ _ _)]
  dsimp only
  rw [bind_ok (advance_ok _ _ _ _)]

end Statements

section Sequences

variable {scope after : List LocalName} {k n : Nat} {ts us body : List Token} {t follow : Token} {e : (Nat → Place) → Expr}
  {s : (Nat → Place) → Stmt} {ss : (Nat → Place) → List Stmt}

/-! ### Statements one after the other -/

/-- What comes after a statement of a block. -/
def itemsAfter (g : Grammar) (c : Context) (fuel : Nat) (s : Stmt) : Parse (List Stmt) := do
  if ← accept (.mark .closeBrace) then pure [s]
  else
    unless ← accept (.mark .semicolon) do
      unless s.standsAlone do
        reject fun _ => .missing ";" "to terminate this statement"
    let rest ← blockItems g c fuel
    pure (s :: rest)

/-- A statement that is not left out may start with the token. -/
def Token.startsItem (t : Token) : Bool :=
  t ∉ [Token.mark .closeBrace, .mark .semicolon, .finish]

theorem ReadsItems.nil : ReadsItems scope k [] fun _ => [] := by
  intro n c p next rest functions fuel hn hfuel
  obtain ⟨fuel, rfl⟩ : ∃ m, fuel = m + 1 := ⟨fuel - 1, by omega⟩
  exact ⟨scope, rfl⟩

theorem blockItems_cons {c : Context} {st st₁ : ParseState} {first : Located} {others : List Located} {s : Stmt}
    {fuel : Nat} (hfirst : first.token.startsItem = true) (hs : s ≠ .noop)
    (h : (grammar n).stmt c.inner (st.at (first :: others)) = .ok (s, st₁)) :
    blockItems (grammar n) c (fuel + 1) (st.at (first :: others)) = itemsAfter (grammar n) c fuel s st₁ := by
  simp only [Token.startsItem, List.mem_cons, List.not_mem_nil, or_false, decide_eq_true_eq, not_or] at hfirst
  obtain ⟨hbrace, -, hfinish⟩ := hfirst
  unfold blockItems
  rw [bind_ok (accept_no st hbrace), if_neg Bool.false_ne_true, bind_ok (peek_ok st _ _), if_neg hfinish, bind_ok h]
  cases s with
  | noop => exact absurd rfl hs
  | _ => rfl

theorem ReadsStmt.items (h : ReadsStmt scope after k ts follow s) (hts : ∃ t ∈ ts.head?, t.startsItem = true)
    (hs : ∀ p, s p ≠ .noop) (hn : 4 * ts.length ≤ n) (fuel : Nat) (c : Context) (p : Nat → Place) (place : Place)
    (rest : List Located) (functions : List Function) :
    blockItems (grammar n) c (fuel + 1)
        (ParseState.at ⟨[], scope, [], functions⟩ (placed p k ts ++ ⟨follow, place⟩ :: rest)) =
      itemsAfter (grammar n) c fuel (s p) (ParseState.at ⟨[], after, [], functions⟩ (⟨follow, place⟩ :: rest)) := by
  obtain ⟨t, hhead, ht⟩ := hts
  obtain ⟨us, rfl⟩ := List.head?_eq_some_iff.mp hhead
  have hstmt := h n c p place rest functions hn
  rw [placed_cons, List.cons_append] at hstmt ⊢
  exact blockItems_cons ht (hs p) hstmt

/-- **A statement with a semicolon after it, and the statements after that.** -/
theorem ReadsStmt.terminated (h : ReadsStmt scope after k ts (.mark .semicolon) s)
    (hts : ∃ t ∈ ts.head?, t.startsItem = true) (hs : ∀ p, s p ≠ .noop)
    (hmore : ReadsItems after (k + ts.length + 1) us ss) :
    ReadsItems scope k (ts ++ .mark .semicolon :: us) fun p => s p :: ss p := by
  intro n c p next rest functions fuel hn hfuel
  rw [List.length_append, List.length_cons] at hn hfuel
  obtain ⟨fuel, rfl⟩ : ∃ m, fuel = m + 1 := ⟨fuel - 1, by omega⟩
  obtain ⟨last, hitems⟩ := hmore n c p next rest functions fuel (by omega) (by omega)
  obtain ⟨u, others, hcons⟩ : ∃ u others,
      placed p (k + ts.length + 1) (us ++ [.mark .closeBrace]) ++ next :: rest = u :: others :=
    List.exists_cons_of_ne_nil (by simp)
  have hbrace : (⟨.mark .semicolon, p (k + ts.length)⟩ : Located).token ≠ .mark .closeBrace := by simp
  have hsemicolon : (⟨.mark .semicolon, p (k + ts.length)⟩ : Located).token = .mark .semicolon := rfl
  have hfirst := h.items hts hs (show 4 * ts.length ≤ n by omega) fuel c p (p (k + ts.length)) (u :: others) functions
  rw [hcons] at hitems
  rw [List.append_assoc, List.cons_append, placed_append, placed_cons, List.append_assoc, List.cons_append, hcons]
  refine ⟨last, hfirst.trans ?_⟩
  unfold itemsAfter
  rw [bind_ok (accept_no _ hbrace), if_neg Bool.false_ne_true, bind_ok (accept_ok _ hsemicolon), if_pos rfl]
  exact (bind_ok hitems).trans rfl

theorem ReadsStmt.last (h : ReadsStmt scope after k ts (.mark .closeBrace) s)
    (hts : ∃ t ∈ ts.head?, t.startsItem = true) (hs : ∀ p, s p ≠ .noop) : ReadsItems scope k ts fun p => [s p] := by
  intro n c p next rest functions fuel hn hfuel
  obtain ⟨fuel, rfl⟩ : ∃ m, fuel = m + 1 := ⟨fuel - 1, by omega⟩
  have hbrace : (⟨.mark .closeBrace, p (k + ts.length)⟩ : Located).token = .mark .closeBrace := rfl
  have hfirst := h.items hts hs hn fuel c p (p (k + ts.length)) (next :: rest) functions
  rw [placed_append, placed_cons, List.append_assoc]
  refine ⟨after, hfirst.trans ?_⟩
  unfold itemsAfter
  rw [bind_ok (accept_ok _ hbrace), if_pos rfl]
  rfl

/-- The tokens after a statement start with none of these and go on with a statement, or there are none. -/
def goesOn (us : List Token) : Bool :=
  us.head?.all fun t => t.startsItem && t != .keyword .else_

/-- **A statement that needs no semicolon, and the statements after it.** -/
theorem ReadsStmt.standing (h : ReadsStmt scope after k ts (us.headD (.mark .closeBrace)) s)
    (hts : ∃ t ∈ ts.head?, t.startsItem = true) (hs : ∀ p, (s p).standsAlone = true) (hus : goesOn us = true)
    (hmore : ReadsItems after (k + ts.length) us ss) : ReadsItems scope k (ts ++ us) fun p => s p :: ss p := by
  have hnoop : ∀ p, s p ≠ .noop := fun p heq => by
    have := hs p
    rw [heq] at this
    cases this
  cases us with
  | nil =>
    have hnil : ∀ p, ss p = [] := fun p => by
      obtain ⟨last, hitems⟩ := hmore 0 {} p ⟨.finish, Place.start⟩ [] [] 1 (Nat.zero_le 0) Nat.one_pos
      exact (congrArg Prod.fst (Except.ok.inj hitems)).symm
    rw [List.append_nil]
    simpa only [hnil] using h.last hts hnoop
  | cons t us =>
    intro n c p next rest functions fuel hn hfuel
    obtain ⟨hstart, -⟩ := Bool.and_eq_true_iff.mp hus
    simp only [Token.startsItem, List.mem_cons, List.not_mem_nil, or_false, decide_eq_true_eq, not_or] at hstart
    obtain ⟨hbrace, hsemicolon, -⟩ := hstart
    rw [List.length_append] at hn hfuel
    obtain ⟨u, hu, hstarts⟩ := hts
    have hpos : 0 < ts.length := by
      obtain ⟨us, rfl⟩ := List.head?_eq_some_iff.mp hu
      exact Nat.succ_pos _
    obtain ⟨fuel, rfl⟩ : ∃ m, fuel = m + 1 := ⟨fuel - 1, by omega⟩
    obtain ⟨last, hitems⟩ := hmore n c p next rest functions fuel (by omega) (by omega)
    have hfirst := h.items ⟨u, hu, hstarts⟩ hnoop (show 4 * ts.length ≤ n by omega) fuel c p (p (k + ts.length))
      (placed p (k + ts.length + 1) (us ++ [.mark .closeBrace]) ++ next :: rest) functions
    rw [List.cons_append, placed_cons, List.cons_append] at hitems
    rw [List.append_assoc, List.cons_append, placed_append, placed_cons, List.append_assoc, List.cons_append]
    refine ⟨last, hfirst.trans ?_⟩
    unfold itemsAfter
    rw [bind_ok (accept_no _ hbrace), if_neg Bool.false_ne_true, bind_ok (accept_no _ hsemicolon),
      if_neg Bool.false_ne_true, if_pos (hs p)]
    exact (bind_ok hitems).trans rfl

end Sequences

/-! ### The statements of a function -/

namespace ReadsItems

variable {scope : List LocalName} {k : Nat} {ts us body : List Token} {e : (Nat → Place) → Expr}
  {ss yes : (Nat → Place) → List Stmt}

theorem only (h : ReadsItems scope k (ts ++ []) ss) : ReadsItems scope k ts ss := by
  rwa [List.append_nil] at h

theorem declare (name : String) (h : ReadsExpr scope (k + 3) ts (.mark .semicolon) e)
    (hmore : ReadsItems (⟨name, false⟩ :: scope) (k + (ts.length + 4)) us ss) :
    ReadsItems scope k (letTokens name ts ++ us) fun p => .declare false name (some (e p)) (p (k + 1)) :: ss p := by
  have hitems := (ReadsStmt.declare name h).terminated ⟨_, rfl, rfl⟩ (fun p => by simp) hmore
  simpa only [letTokens, List.cons_append, List.append_assoc, List.nil_append] using hitems

theorem raise (h : ReadsExpr scope (k + 1) ts (.mark .semicolon) e) (hts : ∃ t ∈ ts.head?, t.startsExpr = true)
    (hmore : ReadsItems scope (k + (ts.length + 2)) us ss) :
    ReadsItems scope k (throwTokens ts ++ us) fun p => .raise (some (e p)) (p k) :: ss p := by
  have hitems := (ReadsStmt.raise h hts).terminated ⟨_, rfl, rfl⟩ (fun p => by simp) hmore
  simpa only [throwTokens, List.cons_append, List.append_assoc, List.nil_append] using hitems

theorem giveBack (h : ReadsExpr scope (k + 1) ts (.mark .semicolon) e) (hts : ∃ t ∈ ts.head?, t.startsExpr = true)
    (hmore : ReadsItems scope (k + (ts.length + 2)) us ss) :
    ReadsItems scope k (returnTokens ts ++ us) fun p => .giveBack (some (e p)) (p k) :: ss p := by
  have hitems := (ReadsStmt.giveBack h hts).terminated ⟨_, rfl, rfl⟩ (fun p => by simp) hmore
  simpa only [returnTokens, List.cons_append, List.append_assoc, List.nil_append] using hitems

theorem branch (h : ReadsExpr scope (k + 1) ts (.mark .openBrace) e) (hts : ∃ t ∈ ts.head?, t ≠ .mark .openBrace)
    (hyes : ReadsItems scope (k + 1 + ts.length + 1) body yes) (hprune : ∀ p, Stmt.prune (yes p) = yes p)
    (hus : goesOn us = true) (hmore : ReadsItems scope (k + (ifTokens ts body).length) us ss) :
    ReadsItems scope k (ifTokens ts body ++ us) fun p => .branch (e p) (yes p) [] :: ss p := by
  refine (ReadsStmt.branch h hts (.of_items hyes hprune) ?_).standing ⟨_, rfl, rfl⟩ (fun p => rfl) hus hmore
  cases us with
  | nil => simp
  | cons t us => simpa using (Bool.and_eq_true_iff.mp hus).2

theorem loop (name : String) (h : ReadsExpr scope (k + 3) ts (.mark .openBrace) e)
    (hts : ∃ t ∈ ts.head?, t ≠ .mark .openBrace)
    (hbody : ReadsItems (⟨name, false⟩ :: scope) (k + 3 + ts.length + 1) body yes)
    (hprune : ∀ p, Stmt.prune (yes p) = yes p) (hus : goesOn us = true)
    (hmore : ReadsItems scope (k + (forTokens name ts body).length) us ss) :
    ReadsItems scope k (forTokens name ts body ++ us) fun p => .forLoop name none (e p) (yes p) :: ss p :=
  (ReadsStmt.loop name h hts (.of_items hbody hprune)).standing ⟨_, rfl, rfl⟩ (fun _ => rfl) hus hmore

theorem addOne {name : String} {s : (Nat → Place) → Stmt}
    (h : ReadsStmt scope scope k [.word name, .assign (some .add), .int 1] (.mark .semicolon) s) (hs : ∀ p, s p ≠ .noop) :
    ReadsItems scope k (addOneTokens name) fun p => [s p] :=
  h.terminated ⟨_, rfl, rfl⟩ hs .nil

end ReadsItems

end Worksheet.Formula
