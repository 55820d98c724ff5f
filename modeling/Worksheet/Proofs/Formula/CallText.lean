import Worksheet.Proofs.Formula.Opening
import Worksheet.Proofs.Formula.Returning
import Worksheet.Proofs.Formula.ValueLine
/-!
# Calls that are written out

What becomes of an expression that is a call with all its arguments written out.

* `callText`, **`cuts_call`**: the characters of a call, and its tokens;
* **`call_ok`**: its tokens are read as the call;
* `IsWrapper`, `scriptItems_wrapper`: the statements of a wrapper;
* `wrapperText`, `tokens_wrapperText`: its text;
* **`parse_call`**: the script of the expression.
-/

namespace Worksheet.Formula

open Grammar Parse Worksheet.Text

variable {operand : Bool} {w : List Char} {ws : List (List Char)} {ts : List Token} {tss : List (List Token)}
  {name : String}

/-! ## Cutting a call -/

/-- The text of a call with these texts as its arguments. -/
def callText (name : String) (ws : List (List Char)) : List Char :=
  name.toList ++ '(' :: ([',', ' '].intercalate ws ++ [')'])

def callTokens (name : String) (tss : List (List Token)) : List Token :=
  .word name :: .mark .openParen :: ([Token.mark .comma].intercalate tss ++ [.mark .closeParen])

/-- The character makes no other sign together with an opening bracket before it. -/
def startsArgument (c : Char) : Prop :=
  c ∉ [')', '*']

theorem Cuts.openParen : Cuts operand ['('] [.mark .openParen] true startsArgument := by
  refine lexeme (by decide) (by decide) rfl (by decide) fun column rest hrest => ?_
  have hsign : signLexeme ('(' :: rest) = ⟨.mark .openParen, 1, 0⟩ := by
    cases rest with
    | nil => rfl
    | cons d rest =>
      have hd : d ∉ [')', '*'] := hrest d rfl
      simp only [List.mem_cons, List.not_mem_nil, or_false, not_or] at hd
      simp [signLexeme, signs, List.isPrefixOf, Ne.symm hd.1, Ne.symm hd.2]
      rfl
  rw [List.singleton_append, nextLexeme, if_neg (by decide), if_neg (by decide), if_neg (by decide),
    if_neg (by decide), if_neg (by decide), if_neg (by simp)]
  simp only [hsign, List.length_singleton]

theorem exists_head_intercalate {p : Char → Prop} (h : ∃ c ∈ w.head?, p c) (sep : List Char) (ws : List (List Char)) :
    ∃ c ∈ (sep.intercalate (w :: ws)).head?, p c := by
  cases ws with
  | nil => rwa [List.intercalate_singleton]
  | cons w' ws =>
    rw [List.intercalate_cons_cons, List.append_assoc]
    exact exists_head_append h _

theorem cuts_call (hname : IsVariableName name.toList) (hitem : CutsItem true w ts) (hstart : ∃ c ∈ w.head?, startsArgument c)
    (hitems : List.Forall₂ (CutsItem true) ws tss) :
    Cuts operand (callText name (w :: ws)) (callTokens name (ts :: tss)) false (fun _ => True) := by
  have hword : Cuts operand name.toList [.word (String.ofList name.toList)] false endsWord := Cuts.variableName hname
  rw [String.ofList_toList] at hword
  have hclose : Cuts false [')'] [.mark .closeParen] false (fun _ => True) := Cuts.mark (m := .closeParen) (by decide)
  have hrow := hitem.commaSeparated hitems
  have hopen : Cuts false ['('] [.mark .openParen] true startsArgument := Cuts.openParen
  have harguments := hopen.append (hrow.toCuts.append hclose ⟨')', rfl, by decide⟩)
    (exists_head_append (exists_head_intercalate hstart _ _) _)
  exact hword.append harguments ⟨'(', rfl, by decide⟩

/-! ## Reading a call -/

variable {ds : List Datum} {n fuel : Nat} {located : List Located}

theorem arguments_ok (name : String) (h : List.Forall₂ Reads tss ds) (hdepth : ∀ ts ∈ tss, 2 * ts.length ≤ n)
    (hlocated : located.map (·.token) = [Token.mark .comma].intercalate tss ++ [.mark .closeParen])
    (hfuel : tss.length < fuel) (c : Context) (st : ParseState) (next : Located) (rest : List Located) :
    ∃ es, arguments (grammar n) name c fuel (st.at (located ++ next :: rest)) = .ok (es, st.at (next :: rest)) ∧
      exprsData? es = some ds := by
  induction h generalizing located fuel with
  | nil =>
    obtain ⟨fuel, rfl⟩ : ∃ m, fuel = m + 1 := ⟨fuel - 1, by omega⟩
    obtain ⟨close, rfl, hclose⟩ := List.map_eq_singleton_iff.mp hlocated
    refine ⟨[], ?_, rfl⟩
    unfold arguments
    rw [List.singleton_append, bind_ok (accept_ok st hclose)]
    rfl
  | cons hitem hitems ih =>
    obtain ⟨fuel, rfl⟩ : ∃ m, fuel = m + 1 := ⟨fuel - 1, by omega⟩
    obtain ⟨hitemDepth, hrestDepth⟩ := List.forall_mem_cons.mp hdepth
    obtain ⟨first, hfirst, ⟨rfl, close, rfl, hclose⟩ | ⟨comma, second, others, rfl, hcomma, hothers⟩⟩ :=
      row_cons hlocated
    · -- the last argument
      obtain rfl := List.forall₂_nil_left_iff.mp hitems
      have hends : close.token.endsValue := by rw [hclose]; decide
      obtain ⟨e, he, hdatum⟩ := hitem.read hfirst hitemDepth c.inner st hends (next :: rest)
      refine ⟨[e], ?_, by simp [exprsData?, hdatum]⟩
      unfold arguments
      rw [List.append_assoc, List.singleton_append, bind_ok (hitem.accept_close hfirst rfl _),
        if_neg (by decide), bind_ok he, bind_ok (accept_ok st hclose)]
      rfl
    · -- an argument before a comma
      have hends : comma.token.endsValue := by rw [hcomma]; decide
      have hclose : comma.token ≠ .mark .closeParen := by rw [hcomma]; decide
      obtain ⟨e, he, hdatum⟩ :=
        hitem.read hfirst hitemDepth c.inner st hends (second :: others ++ next :: rest)
      obtain ⟨es, hes, hdata⟩ := ih hrestDepth hothers (by simpa using hfuel)
      refine ⟨e :: es, ?_, by simp [exprsData?, hdatum, hdata]⟩
      unfold arguments
      rw [List.append_assoc, List.cons_append, bind_ok (hitem.accept_close hfirst rfl _),
        if_neg (by decide), bind_ok he, List.cons_append, bind_ok (accept_no st hclose), if_neg (by decide),
        bind_ok (accept_ok st hcomma), if_pos rfl, ← List.cons_append, bind_ok hes]
      rfl

theorem argumentsAfter_ok {g : Grammar} {c : Context} {st st' : ParseState} {bracket second : Located} {es : List Expr}
    (hbracket : bracket.token = .mark .openParen)
    (h : arguments g name c (second :: located).length (st.at (second :: located)) = .ok (es, st')) :
    argumentsAfter? g name c (st.at (bracket :: second :: located)) = .ok (some es, st') := by
  have hempty : bracket.token ≠ .mark .emptyParens := by rw [hbracket]; decide
  unfold argumentsAfter?
  rw [bind_ok (accept_no st hempty), if_neg (by decide), bind_ok (accept_ok st hbracket), if_pos rfl,
    bind_ok (remaining_ok st _), bind_ok h]
  rfl

/-- **A call whose arguments are written out is read as the call.** -/
theorem call_ok (h : List.Forall₂ Reads tss ds) (hn : 2 * (callTokens name tss).length ≤ n)
    (hlocated : located.map (·.token) = callTokens name tss) {next : Located} (hnext : next.token.endsValue)
    (c : Context) (st : ParseState) (rest : List Located) :
    ∃ es place, (grammar n).expr c (st.at (located ++ next :: rest)) = .ok (.call name es place, st.at (next :: rest)) ∧
      exprsData? es = some ds := by
  obtain ⟨t, located, rfl, ht, hlocated⟩ := List.map_eq_cons_iff.mp hlocated
  obtain ⟨bracket, tokens, rfl, hbracket, htokens⟩ := List.map_eq_cons_iff.mp hlocated
  have hbrackets : 2 * (Token.mark .openParen :: ([Token.mark .comma].intercalate tss ++ [.mark .closeParen])).length ≤ n := by
    rw [callTokens, List.length_cons] at hn
    omega
  obtain ⟨n, rfl, hdepth, hfuel⟩ := row_bounds htokens hbrackets next rest
  obtain ⟨es, hes, hdata⟩ :=
    arguments_ok name h hdepth htokens hfuel { c with outermost := false } st next rest
  obtain ⟨second, others, hcons⟩ : ∃ t ts, tokens ++ next :: rest = t :: ts := List.exists_cons_of_ne_nil (by simp)
  have hprimary : primary (grammar n) { c with outermost := false } (st.at (t :: bracket :: (tokens ++ next :: rest))) =
      .ok (.call name es t.place, st.at (next :: rest)) := by
    obtain ⟨token, place⟩ := t
    cases ht
    rw [hcons] at hes ⊢
    unfold primary
    rw [bind_ok (peek_ok st _ _)]
    show (advance >>= fun _ => named (grammar n) { c with outermost := false } name place) _ = _
    rw [bind_ok (advance_ok st _ _ _)]
    unfold named
    rw [bind_ok (argumentsAfter_ok hbracket hes)]
    rfl
  exact ⟨es, t.place, expr_ok (by rw [ht]; rfl) hnext hprimary, hdata⟩

/-! ## Reading the wrapper -/

variable {c : Context} {st : ParseState} {next : Located} {rest : List Located} {e : Expr}

theorem primary_lambda {bar second : Located} {others : List Located} {body : Stmt} (hbar : bar.token = .operator .either)
    (h : (grammar n).stmt { inFunction := true }
        (({ st with scope := [], captured := [] } : ParseState).at (second :: others)) =
      .ok (body, ({ st with scope := [], captured := [] } : ParseState).at (next :: rest))) :
    primary (grammar n) c (st.at (bar :: second :: others)) = .ok (.lambda [] [] body bar.place, st.at (next :: rest)) := by
  obtain ⟨token, place⟩ := bar
  cases hbar
  unfold primary
  rw [bind_ok (peek_ok st _ _)]
  show lambda (grammar n) (st.at (⟨.operator .either, place⟩ :: second :: others)) = _
  unfold lambda
  rw [bind_ok (advance_ok st _ _ _), bind_ok (get_ok _), bind_ok (set_ok _ _), if_pos rfl, bind_ok (pure_ok _ _)]
  exact (bind_ok h).trans rfl

theorem blockItems_last {first close : Located} {others : List Located} {s : Stmt} (fuel : Nat)
    (hfirst : first.token ≠ .mark .closeBrace)
    (hmore : first.token ≠ .finish) (hclose : close.token = .mark .closeBrace) (hs : s ≠ .noop)
    (h : (grammar n).stmt c.inner (st.at (first :: others)) = .ok (s, st.at (close :: next :: rest))) :
    blockItems (grammar n) c (fuel + 1) (st.at (first :: others)) = .ok ([s], st.at (next :: rest)) := by
  unfold blockItems
  rw [bind_ok (accept_no st hfirst), if_neg (by decide), bind_ok (peek_ok st _ _), if_neg hmore, bind_ok h]
  cases s with
  | noop => exact absurd rfl hs
  | _ =>
    dsimp only
    rw [bind_ok (accept_ok st hclose)]
    rfl

theorem block_return_ok {brace keyword first close : Located} {others : List Located} (hbrace : brace.token = .mark .openBrace)
    (hkeyword : keyword.token = .keyword .return_) (hfirst : first.token.startsExpr = true)
    (hclose : close.token = .mark .closeBrace)
    (h : (grammar n).expr c.inner.inner.inner (st.at (first :: others)) = .ok (e, st.at (close :: next :: rest))) :
    (grammar (n + 3)).stmt c (st.at (brace :: keyword :: first :: others)) =
      .ok (.block [.giveBack (some e) keyword.place], st.at (next :: rest)) := by
  have hreturn : (grammar (n + 1)).stmt c.inner.inner (st.at (keyword :: first :: others)) =
      .ok (.giveBack (some e) keyword.place, st.at (close :: next :: rest)) := by
    obtain ⟨token, place⟩ := keyword
    cases hkeyword
    show readStmt (grammar n) c.inner.inner (st.at (⟨.keyword .return_, place⟩ :: first :: others)) = _
    unfold readStmt
    rw [bind_ok (peek_ok st _ _)]
    show (advance >>= fun _ => valueAfter? (grammar n) c.inner.inner >>= fun v => pure (Stmt.giveBack v place)) _ = _
    rw [bind_ok (advance_ok st _ _ _), bind_ok (valueAfter_ok hfirst h)]
    rfl
  have hitems := blockItems_last (keyword :: first :: others).length.pred (by rw [hkeyword]; decide)
    (by rw [hkeyword]; decide) hclose (by simp) hreturn
  have hblock : (grammar (n + 2)).block c.inner (st.at (brace :: keyword :: first :: others)) =
      .ok ([.giveBack (some e) keyword.place], st.at (next :: rest)) := by
    show readBlock (grammar (n + 1)) c.inner (st.at (brace :: keyword :: first :: others)) = _
    unfold readBlock
    rw [bind_ok (expect_ok st hbrace _), bind_ok (remaining_ok st _)]
    have henclosed : enclosed (blockItems (grammar (n + 1)) c.inner (keyword :: first :: others).length)
        (st.at (keyword :: first :: others)) = .ok ([.giveBack (some e) keyword.place], st.at (next :: rest)) := by
      unfold enclosed
      rw [bind_ok (get_ok _)]
      exact (bind_ok hitems).trans rfl
    exact (bind_ok henclosed).trans rfl
  obtain ⟨token, place⟩ := brace
  cases hbrace
  show readStmt (grammar (n + 2)) c _ = _
  unfold readStmt
  rw [bind_ok (peek_ok st _ _)]
  exact (bind_ok hblock).trans rfl

theorem wrapped_ok {back first close : Located} {others : List Located} (p : Nat → Place)
    (hback : back.token = .keyword .return_) (hfirst : first.token.startsExpr = true)
    (hclose : close.token = .mark .closeBrace) (hnext : next.token.endsValue)
    (h : (grammar n).expr { inFunction := true }
        (({ st with scope := [], captured := [] } : ParseState).at (first :: others)) =
      .ok (e, ({ st with scope := [], captured := [] } : ParseState).at (close :: next :: rest))) :
    (grammar (n + 6)).stmt { outermost := true } (st.at (placed p 0 openingTokens ++ back :: first :: others)) =
      .ok (.declare false "fx" (some (.lambda [] [] (.block [.giveBack (some e) back.place]) (p 3))) (p 1),
        { st with scope := ⟨"fx", false⟩ :: st.scope }.at (next :: rest)) := by
  have hopening : placed p 0 openingTokens ++ back :: first :: others = ⟨.keyword .let_, p 0⟩ :: ⟨.word "fx", p 1⟩ ::
    ⟨.assign none, p 2⟩ :: ⟨.operator .either, p 3⟩ :: ⟨.mark .openBrace, p 4⟩ :: back :: first :: others := rfl
  have hbody := block_return_ok (c := { inFunction := true })
    (show (⟨.mark .openBrace, p 4⟩ : Located).token = _ from rfl) hback hfirst hclose h
  have hlambda : (grammar (n + 5)).expr ({ outermost := true } : Context).inner
      (st.at (⟨.operator .either, p 3⟩ :: ⟨.mark .openBrace, p 4⟩ :: back :: first :: others)) =
      .ok (.lambda [] [] (.block [.giveBack (some e) back.place]) (p 3), st.at (next :: rest)) :=
    expr_ok rfl hnext (primary_lambda rfl hbody)
  have hname : (⟨.word "fx", p 1⟩ : Located).token = .word "fx" := rfl
  have hequals : (⟨.assign none, p 2⟩ : Located).token = .assign none := rfl
  rw [hopening]
  show readStmt (grammar (n + 5)) { outermost := true } _ = _
  unfold readStmt
  rw [bind_ok (peek_ok st _ _)]
  show (advance >>= fun _ => declaration (grammar (n + 5)) false { outermost := true }) _ = _
  rw [bind_ok (advance_ok st _ _ _)]
  unfold declaration
  rw [bind_ok (variableName_ok st hname)]
  dsimp only
  rw [bind_ok (accept_ok st hequals), if_pos rfl, bind_ok hlambda]
  rfl

/-- The tokens that call a wrapper. -/
def entryTokens : List Token :=
  [.word "fx", .mark .dot, .reserved "call", .mark .emptyParens]

/-- The tokens that close a wrapper and call it. -/
def closingTokens : List Token :=
  .mark .closeBrace :: .mark .semicolon :: entryTokens

theorem isHeader_closing : isHeader false false closingTokens (unlines (entryLines [] .expression)) = true := by
  decide +kernel

theorem scriptItems_entry (p : Nat → Place) (scope : List LocalName) (functions : List Function) :
    scriptItems (grammar (n + 6)) (fuel + 1)
        ⟨placed p 2 (entryTokens ++ [.finish]), ⟨"fx", false⟩ :: scope, [], functions⟩ =
      .ok ([.expr (.chain (.name "fx" (p 2)) [.method "call" [] (p 4)])],
        ⟨[⟨.finish, p 6⟩], ⟨"fx", false⟩ :: scope, [], functions⟩) :=
  rfl

/-- The statements are those of a script that wraps the expression and calls the wrapper. -/
def IsWrapper (e : Expr) (body : List Stmt) : Prop :=
  ∃ p₁ p₂ p₃ p₄ p₅, body = [.declare false "fx" (some (.lambda [] [] (.block [.giveBack (some e) p₁]) p₂)) p₃,
    .expr (.chain (.name "fx" p₄) [.method "call" [] p₅])]

theorem LinesOf.eq_singleton {s : List Char} {ls : List (List Char)} (h : LinesOf s ls) (hfeed : '\n' ∉ s) (hne : s ≠ []) :
    ls = [s] := by
  cases h with
  | nil => exact absurd rfl hne
  | unended => rfl
  | feed | returnFeed => simp at hfeed

theorem wrappedLines_line {c : Char} {cs : List Char} (hfeed : '\n' ∉ c :: cs) (hblank : isBlank c = false)
    (hc : c ∉ ['r', '\x7d', '/']) : wrappedLines (c :: cs) = [returnWord ++ c :: cs] := by
  have hlines : lines (c :: cs) = [c :: cs] := LinesOf.eq_singleton (linesOf_lines _) hfeed (List.cons_ne_nil _ _)
  have hstart : trimStart (c :: cs) = c :: cs := List.dropWhile_cons_of_neg (by simp [hblank])
  simp only [List.mem_cons, List.not_mem_nil, or_false, not_or] at hc
  obtain ⟨hletter, hbrace, hslash⟩ := hc
  have hsolid : isAllBlank (c :: cs) = false := isAllBlank_eq_false hblank List.mem_cons_self
  have hcomment : isCommentLine (c :: cs) = false := by
    rw [Bool.eq_false_iff, Ne, isCommentLine_iff]
    have hopen : ∀ d, ¬ ['/', d] <+: trim (c :: cs) := fun d hprefix => by
      have hwhole := hstart ▸ hprefix.trans (trim_prefix_trimStart (c :: cs))
      exact hslash (List.cons_prefix_cons.mp hwhole).1.symm
    exact fun h => h.elim (hopen '/') fun h => hopen '*' h.1
  have hreturns : returns (c :: cs) = false := by
    rw [Bool.eq_false_iff, Ne, returns_iff, hstart]
    rintro ⟨u, hu, -⟩
    exact hletter (List.cons.inj hu).1
  have hcloses : closesBlock (c :: cs) = false := by
    rw [Bool.eq_false_iff, Ne, closesBlock_iff, hstart]
    exact fun h => hbrace (Option.some.inj h)
  have hcode : isCodeLine (c :: cs) = true := by simp [isCodeLine, hsolid, hcomment]
  have hreturning : returning (c :: cs) = returnWord ++ c :: cs := by
    simp [returning, hreturns, hcloses, hstart, hblank]
  have hkept : dropBlankEnd [c :: cs] = [c :: cs] := by simp [dropBlankEnd, hsolid]
  rw [wrappedLines, hlines, hkept]
  simp only [changeLast, List.any_nil, Bool.not_false, Bool.true_and, hcode, if_true, hreturning]

/-- **The script of a wrapped call**, from its tokens. -/
theorem scriptItems_wrapper (h : List.Forall₂ Reads tss ds) (hdepth : 2 * (callTokens name tss).length ≤ n)
    (hlocated : located.map (·.token) =
      openingTokens ++ .keyword .return_ :: (callTokens name tss ++ (closingTokens ++ [.finish])))
    (fuel : Nat) (scope : List LocalName) (functions : List Function) :
    ∃ es place body scope' tokens, IsWrapper (.call name es place) body ∧ exprsData? es = some ds ∧
      scriptItems (grammar (n + 6)) (fuel + 2) (ParseState.at ⟨[], scope, [], functions⟩ located) =
        .ok (body, ⟨tokens, scope', [], functions⟩) := by
  obtain ⟨opening, located, rfl, hopening, hlocated⟩ := List.map_eq_append_iff.mp hlocated
  obtain ⟨back, located, rfl, hback, hlocated⟩ := List.map_eq_cons_iff.mp hlocated
  obtain ⟨call, located, rfl, hcall, hlocated⟩ := List.map_eq_append_iff.mp hlocated
  obtain ⟨p, hp⟩ := exists_placed opening
  obtain ⟨q, hq⟩ := exists_placed located
  rw [hopening] at hp
  rw [hlocated] at hq
  have hbrace : (⟨.mark .closeBrace, q 0⟩ : Located).token.endsValue := show (Token.mark .closeBrace).endsValue by decide
  have hsemicolon : (⟨.mark .semicolon, q 1⟩ : Located).token.endsValue := show (Token.mark .semicolon).endsValue by decide
  have hend : (⟨.mark .closeBrace, q 0⟩ : Located).token = .mark .closeBrace := rfl
  have hclosing : placed q 0 (closingTokens ++ [.finish]) =
    ⟨.mark .closeBrace, q 0⟩ :: ⟨.mark .semicolon, q 1⟩ :: placed q 2 (entryTokens ++ [.finish]) := rfl
  obtain ⟨es, place, he, hdata⟩ := call_ok h hdepth hcall hbrace { inFunction := true } ⟨[], [], [], functions⟩
    (⟨.mark .semicolon, q 1⟩ :: placed q 2 (entryTokens ++ [.finish]))
  obtain ⟨first, more, rfl, hfirst, -⟩ := List.map_eq_cons_iff.mp hcall
  let st : ParseState := ⟨[], scope, [], functions⟩
  let declared : ParseState := ⟨[], ⟨"fx", false⟩ :: scope, [], functions⟩
  rw [List.cons_append] at he
  have hstmt : (grammar (n + 6)).stmt { outermost := true } (st.at (placed p 0 openingTokens ++ back :: first ::
        (more ++ ⟨.mark .closeBrace, q 0⟩ :: ⟨.mark .semicolon, q 1⟩ :: placed q 2 (entryTokens ++ [.finish])))) = _ :=
    wrapped_ok p hback (by rw [hfirst]; rfl) hend hsemicolon he
  have haccept : accept (.mark .semicolon) (declared.at (⟨.mark .semicolon, q 1⟩ ::
      placed q 2 (entryTokens ++ [.finish]))) = .ok (true, declared.at (placed q 2 (entryTokens ++ [.finish]))) :=
    accept_ok declared rfl
  refine ⟨es, place, _, ⟨"fx", false⟩ :: scope, [⟨.finish, q 6⟩], ⟨back.place, p 3, p 1, q 2, q 4, rfl⟩, hdata, ?_⟩
  have hkeyword : ∀ more, placed p 0 openingTokens ++ more = ⟨.keyword .let_, p 0⟩ :: (placed p 1 openingTokens.tail ++ more) :=
    fun more => rfl
  rw [hkeyword] at hstmt
  rw [← hp, ← hq, hclosing, List.cons_append, hkeyword, scriptItems, bind_ok (peek_ok _ _ _), if_neg (by simp), bind_ok hstmt]
  dsimp only
  rw [bind_ok (peek_ok _ _ _), if_neg (by simp), if_neg (by exact Bool.false_ne_true), bind_ok haccept]
  exact (bind_ok (scriptItems_entry q scope functions)).trans rfl

/-! ## The text of a wrapped call -/

theorem map_token_lexFrom (st : LexState) (cs : List Char) :
    (lexFrom (cs.length + 1) st false cs).map (·.token) = (spellAll st false cs).map (·.token) := by
  rw [← map_spellFrom, List.map_map]
  rfl

theorem spellAll_cuts {operand' : Bool} {follow : Char → Prop} (h : Cuts operand w ts operand' follow) {rest : List Char}
    (hrest : ∀ c ∈ rest.head?, follow c) (place : Place) :
    (spellAll ⟨place, operand, []⟩ false (w ++ rest)).map (·.token) =
      ts ++ (spellAll ⟨place.after w, operand', []⟩ false rest).map (·.token) := by
  obtain ⟨located, hline, hcut⟩ := h.cut place
  obtain ⟨fuel, hfuel, heq⟩ := hcut _ rest hrest (Nat.lt_succ_self _)
  rw [← map_spellFrom, ← map_spellFrom, spellFrom_eq_spellAll hfuel] at heq
  have htokens : located.map (·.token) = ts := by
    have hpairs := congrArg (List.map Prod.fst) hline
    simpa [List.map_map, Function.comp_def] using hpairs
  have hall := congrArg (List.map (·.token)) heq
  rw [List.map_append, List.map_map, List.map_map, htokens] at hall
  exact hall

/-- The text of a wrapper around the piece. -/
def wrapperText (w : List Char) : List Char :=
  unlines (headerLines .expression) ++ (indentation ++ (returnWord ++ (w ++ '\n' :: unlines (entryLines [] .expression))))

theorem tokens_wrapperText (h : Cuts true w ts false (fun _ => True)) (n : Nat) :
    (spellAll ⟨⟨1 + n, 1⟩, false, []⟩ false (wrapperText w)).map (·.token) =
      openingTokens ++ .keyword .return_ :: (ts ++ (closingTokens ++ [.finish])) := by
  obtain ⟨opening, hopening, -, heq⟩ :=
    spellAll_opening n (indentation ++ (returnWord ++ (w ++ '\n' :: unlines (entryLines [] .expression))))
  have hindent : ∀ c ∈ indentation, isBlank c = true := by decide
  have hclosing : ∀ k, (spellAll ⟨⟨1 + k, 1⟩, false, []⟩ false (unlines (entryLines [] .expression))).map (·.token) =
      closingTokens ++ [.finish] := by
    intro k
    obtain ⟨closing, htokens, -, heq⟩ :=
      spellAll_settled (newline_not_mem_entryLines [] .expression) (by decide) isHeader_closing k []
    rw [List.append_nil] at heq
    rw [heq, List.map_append, htokens, spellAll_nil]
    rfl
  have hfeed : ∀ place : Place, (⟨place, false, []⟩ : LexState).moved ['\n'] = ⟨⟨1 + place.line, 1⟩, false, []⟩ :=
    fun place => by rw [Nat.add_comm]; rfl
  rw [wrapperText, heq, List.map_append, hopening, spellAll_blanks hindent, spellAll_returnWord, List.map_cons]
  refine congrArg (fun tokens => openingTokens ++ .keyword .return_ :: tokens) ?_
  simp only [LexState.moved]
  rw [spellAll_cuts h (fun _ _ => trivial), spellAll_blank (by decide), hfeed, hclosing]

/-! ## Scripts that are calls -/

/-- The text is an argument of a call, for the lexer and for the grammar. -/
def EncodesArgument (w : List Char) (d : Datum) : Prop :=
  Encodes w d ∧ ∃ c ∈ w.head?, startsArgument c

theorem encodesArgument_text (s : String) : EncodesArgument (textLiteral s).toList (.literal (.text s)) := by
  refine ⟨encodes_text s, ?_⟩
  rw [toList_textLiteral]
  exact ⟨'\"', rfl, show '\"' ∉ [')', '*'] by decide⟩

/-- An integer in decimal notation. -/
def intText (n : Int) : List Char :=
  minus (decide (n < 0)) (Nat.toDigits 10 n.natAbs)

theorem encodesArgument_int {n : Int} (h : Word.fits n = true) : EncodesArgument (intText n) (.literal (.int n)) := by
  have hsign : (if decide (n < 0) = true then -(n.natAbs : Int) else n.natAbs) = n := by
    split_ifs with hn <;> simp only [decide_eq_true_eq] at hn <;> omega
  have hcuts : CutsItem true (intText n) [.int n] := by
    have hdigits : CutsItem true (intText n) [.int (if decide (n < 0) = true then -(n.natAbs : Int) else n.natAbs)] :=
      cutsItem_toDigits (hsign.symm ▸ h)
    rwa [hsign] at hdigits
  refine ⟨encodes_literal hcuts, ?_⟩
  unfold intText minus
  split_ifs
  · exact ⟨'-', rfl, show '-' ∉ [')', '*'] by decide⟩
  · obtain ⟨d, ds, hdigits⟩ := List.exists_cons_of_ne_nil (List.ne_nil_of_length_pos (Nat.length_toDigits_pos (b := 10)
      (n := n.natAbs)))
    have hd : d.isDigit = true := allDigits_toDigits n.natAbs d (hdigits ▸ List.mem_cons_self)
    rw [hdigits]
    refine ⟨d, rfl, fun hmem => ?_⟩
    rcases List.mem_pair.mp hmem with rfl | rfl <;> exact absurd hd (by decide)

theorem exists_call {ws : List (List Char)} (hname : IsVariableName name.toList)
    (h : List.Forall₂ EncodesArgument ws ds) (hne : ws ≠ []) :
    ∃ tss, List.Forall₂ Reads tss ds ∧ Cuts true (callText name ws) (callTokens name tss) false (fun _ => True) := by
  cases h with
  | nil => exact absurd rfl hne
  | cons hfirst hothers =>
    obtain ⟨⟨ts, hcuts, hreads⟩, hstart⟩ := hfirst
    obtain ⟨tss, hcutsAll, hreadsAll⟩ := exists_tokens (hothers.imp fun w d h => h.1)
    exact ⟨ts :: tss, .cons hreads hreadsAll, cuts_call hname hcuts hstart hcutsAll⟩

variable {columns : List Column} {row : Row} {source : String} {ws : List (List Char)}

theorem script_call (hname : IsVariableName name.toList) (hhead : name.toList.head? ≠ some 'r')
    (hsource : source.toList = callText name ws) (hfeed : '\n' ∉ callText name ws) (columns : List Column) (row : Row) :
    (compile .expression source columns row).script =
      unlines ((preamble .expression columns row).map String.toList) ++ wrapperText (callText name ws) := by
  obtain ⟨c, cs, hcons, hletter⟩ := hname.head
  have hline : callText name ws = c :: (cs ++ '(' :: ([',', ' '].intercalate ws ++ [')'])) := by rw [callText, hcons]; rfl
  have hblank : isBlank c = false := isNameChar_isBlank (hname.all_nameChar c (by simp [hcons]))
  have hc : c ∉ ['r', '\x7d', '/'] := by
    rw [hcons] at hhead
    simp only [List.mem_cons, List.not_mem_nil, or_false, not_or]
    refine ⟨fun h => hhead (congrArg some h), ?_, ?_⟩ <;> (rintro rfl; exact absurd hletter (by decide))
  have hwrapped : wrappedLines source.toList = [returnWord ++ callText name ws] := by
    rw [hsource, hline]
    rw [hline] at hfeed
    exact wrappedLines_line hfeed hblank hc
  have hentry : entryLines source.toList .expression = entryLines [] .expression := rfl
  rw [script_expression, hwrapped, hentry]
  simp [wrapperText, unlines, List.append_assoc]

/-- **A call with arguments that are written out is parsed as the call, in its wrapper.** -/
theorem parse_call (hname : IsVariableName name.toList) (hhead : name.toList.head? ≠ some 'r')
    (h : List.Forall₂ EncodesArgument ws ds) (hne : ws ≠ []) (hsource : source.toList = callText name ws)
    (columns : List Column) (row : Row) :
    ∃ functions body more es place, parse (compile .expression source columns row).script = .ok ⟨functions, body ++ more⟩ ∧
      IsLibrary functions ∧ body.map Stmt.declaration? = ((rowDeclarations .expression columns row).zipIdx 1).map some ∧
      IsWrapper (.call name es place) more ∧ exprsData? es = some ds := by
  obtain ⟨tss, hreads, hcuts⟩ := exists_call hname h hne
  obtain ⟨body, scope, functions, line, depth, fuel, hbody, hlibrary, hfuel, hdepth, heq⟩ :=
    parse_preamble .expression columns row (wrapperText (callText name ws))
  have htokens := (map_token_lexFrom _ _).trans (tokens_wrapperText hcuts line)
  have hlength := congrArg List.length htokens
  simp only [List.length_map, List.length_append, List.length_cons] at hlength
  generalize lexFrom ((wrapperText (callText name ws)).length + 1) ⟨⟨1 + line, 1⟩, false, []⟩ false
    (wrapperText (callText name ws)) = tokens at htokens hlength hfuel hdepth heq
  obtain ⟨fuel, rfl⟩ : ∃ k, fuel = k + 2 := ⟨fuel - 2, by omega⟩
  obtain ⟨depth, rfl⟩ : ∃ k, depth = k + 6 := ⟨depth - 6, by omega⟩
  have hlevels : 2 * (callTokens name tss).length ≤ depth := by omega
  obtain ⟨es, place, more, scope', rest, hwrapper, hdata, hitems⟩ :=
    scriptItems_wrapper hreads hlevels htokens fuel scope functions
  have hprune : Stmt.prune more = more := by
    obtain ⟨p₁, p₂, p₃, p₄, p₅, rfl⟩ := hwrapper
    rfl
  refine ⟨functions, body, more, es, place, ?_, hlibrary, hbody, hwrapper, hdata⟩
  rw [script_call hname hhead hsource hcuts.oneLine, heq, hitems]
  exact congrArg (fun kept => Except.ok (Script.mk functions (body ++ kept))) hprune

end Worksheet.Formula
