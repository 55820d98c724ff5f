import Worksheet.Proofs.Formula.Datum
/-!
# Reading declarations

What the grammar makes of lines that each declare a variable with a value.

* `Declaration` and `Stmt.declaration?`: a variable with its value, and the statement that declares it;
* `stmt_ok`: one line;
* **`scriptItems_ok`**: lines one after the other, whatever statements come after them;
* `prune_append`: declarations are never left out.
-/

namespace Worksheet.Formula

open Grammar Parse

/-- A variable and the value that it is declared with. -/
structure Declaration where
  constant : Bool
  name : String
  value : Datum

/-- The tokens are read as the declaration, up to the end of its line. -/
def ReadsLine (ts : List Token) (d : Declaration) : Prop :=
  ∃ vs, ts = .keyword (if d.constant then .const_ else .let_) :: .word d.name :: .assign none ::
    (vs ++ [.mark .semicolon]) ∧ Reads vs d.value

/-- The variable that a statement declares with a value that is written out, and the line of its name. -/
def Stmt.declaration? : Stmt → Option (Declaration × Nat)
  | .declare constant name (some e) place => e.datum?.map fun value => (⟨constant, name, value⟩, place.line)
  | _ => none

variable {n : Nat} {c : Context} {st : ParseState} {located rest : List Located} {next : Located}

theorem declaration_ok {d : Declaration} {ts : List Token} (h : Reads ts d.value) (hdepth : 2 * ts.length ≤ n)
    {name equals semicolon : Located} (hname : name.token = .word d.name) (hequals : equals.token = .assign none)
    (hlocated : located.map (·.token) = ts) (hsemicolon : semicolon.token = .mark .semicolon) (c : Context)
    (st : ParseState) (rest : List Located) :
    ∃ e scope, e.datum? = some d.value ∧
      declaration (grammar n) d.constant c (st.at (name :: equals :: located ++ semicolon :: rest)) =
        .ok (.declare d.constant d.name (some e) name.place, { st with scope := scope }.at (semicolon :: rest)) := by
  have hends : semicolon.token.endsValue := by rw [hsemicolon]; decide
  obtain ⟨e, he, hdatum⟩ := h.read hlocated hdepth c.inner st hends rest
  obtain ⟨second, tail, htail⟩ : ∃ t ts, located ++ semicolon :: rest = t :: ts :=
    List.exists_cons_of_ne_nil (by simp)
  refine ⟨e, ⟨d.name, d.constant⟩ :: st.scope, hdatum, ?_⟩
  rw [List.cons_append, List.cons_append, htail]
  rw [htail] at he
  unfold declaration
  rw [bind_ok (variableName_ok st hname)]
  dsimp only
  rw [bind_ok (accept_ok st hequals), if_pos rfl, bind_ok he, bind_ok (pure_ok _ _)]
  rfl

theorem stmt_ok {d : Declaration} {ts : List Token} (h : ReadsLine ts d) (hdepth : 2 * ts.length ≤ n) {line : Nat}
    (hline : OnLine located ts line) :
    ∃ keyword tokens semicolon, located = keyword :: tokens ++ [semicolon] ∧ keyword.token ≠ .finish ∧
      semicolon.token = .mark .semicolon ∧ ∀ (c : Context) (st : ParseState) (rest : List Located),
        ∃ e place scope, (Stmt.declare d.constant d.name (some e) place).declaration? = some (d, line) ∧
          (grammar (n + 1)).stmt c (st.at (keyword :: tokens ++ semicolon :: rest)) =
            .ok (.declare d.constant d.name (some e) place, { st with scope := scope }.at (semicolon :: rest)) := by
  obtain ⟨vs, rfl, hreads⟩ := h
  have hvalueDepth : 2 * vs.length ≤ n := by
    simp only [List.length_cons, List.length_append] at hdepth
    omega
  unfold OnLine at hline
  rw [List.map_cons, List.map_cons, List.map_cons, List.map_append] at hline
  obtain ⟨keyword, located, rfl, hkeyword, hline⟩ := List.map_eq_cons_iff.mp hline
  obtain ⟨name, located, rfl, hname, hline⟩ := List.map_eq_cons_iff.mp hline
  obtain ⟨equals, located, rfl, hequals, hline⟩ := List.map_eq_cons_iff.mp hline
  obtain ⟨value, last, rfl, hvalue, hlast⟩ := List.map_eq_append_iff.mp hline
  obtain ⟨semicolon, rfl, hsemicolon⟩ := List.map_eq_singleton_iff.mp hlast
  have htokens : value.map (·.token) = vs := by
    have := congrArg (List.map Prod.fst) hvalue
    simpa [List.map_map, Function.comp_def] using this
  have hnotFinish : keyword.token ≠ .finish := by
    rw [show keyword.token = _ from congrArg Prod.fst hkeyword]
    exact fun h => nomatch h
  refine ⟨keyword, name :: equals :: value, semicolon, rfl, hnotFinish, congrArg Prod.fst hsemicolon,
    fun c st rest => ?_⟩
  obtain ⟨e, scope, hdatum, hdeclaration⟩ := declaration_ok hreads hvalueDepth (congrArg Prod.fst hname)
    (congrArg Prod.fst hequals) htokens (congrArg Prod.fst hsemicolon) c st rest
  refine ⟨e, name.place, scope, ?_, ?_⟩
  · have hplace : name.place.line = line := congrArg Prod.snd hname
    rw [Stmt.declaration?, hdatum, hplace]
    rfl
  · obtain ⟨token, place⟩ := keyword
    have htoken : token = .keyword (if d.constant then .const_ else .let_) := congrArg Prod.fst hkeyword
    show readStmt (grammar n) c (st.at (⟨token, place⟩ :: name :: (equals :: value ++ semicolon :: rest))) = _
    unfold readStmt
    rw [bind_ok (peek_ok st _ _), htoken]
    cases hconstant : d.constant with
    | true =>
      rw [hconstant] at hdeclaration
      show (advance >>= fun _ => declaration (grammar n) true c) _ = _
      rw [bind_ok (advance_ok st _ _ _)]
      exact hdeclaration
    | false =>
      rw [hconstant] at hdeclaration
      show (advance >>= fun _ => declaration (grammar n) false c) _ = _
      rw [bind_ok (advance_ok st _ _ _)]
      exact hdeclaration

/-- **Lines are read one after the other as the declarations of their variables**, and what comes after them
is read on its own. -/
theorem scriptItems_ok {tss : List (List Token)} {ds : List Declaration} (h : List.Forall₂ ReadsLine tss ds)
    (hdepth : ∀ ts ∈ tss, 2 * ts.length ≤ n) (k : Nat) {groups : List (List Located)}
    (hgroups : List.Forall₂ (fun g l => OnLine g l.1 l.2) groups (tss.zipIdx k)) (st : ParseState) (fuel : Nat)
    (next : Located) (rest : List Located) :
    ∃ body scope, body.map Stmt.declaration? = (ds.zipIdx k).map some ∧ (∀ s ∈ body, s.isInert = false) ∧
      scriptItems (grammar (n + 1)) (tss.length + fuel) (st.at (groups.flatten ++ next :: rest)) =
        (scriptItems (grammar (n + 1)) fuel >>= fun more => pure (body ++ more))
          ({ st with scope := scope }.at (next :: rest)) := by
  induction h generalizing k groups st with
  | nil =>
    cases hgroups
    refine ⟨[], st.scope, rfl, by simp, ?_⟩
    show _ = (scriptItems (grammar (n + 1)) fuel >>= pure) (st.at (next :: rest))
    rw [bind_pure, List.length_nil, Nat.zero_add]
    rfl
  | @cons ts d tss ds hline _ ih =>
    obtain ⟨hlineDepth, hrestDepth⟩ := List.forall_mem_cons.mp hdepth
    obtain ⟨group, groups, hgroup, hmore, rfl⟩ := List.forall₂_cons_right_iff.mp hgroups
    obtain ⟨keyword, tokens, semicolon, rfl, hkeyword, hsemicolon, hstmt⟩ := stmt_ok hline hlineDepth hgroup
    obtain ⟨e, place, scope₁, hdeclared, hread⟩ :=
      hstmt { outermost := true } st (groups.flatten ++ next :: rest)
    obtain ⟨body, scope₂, hbody, hinert, hitems⟩ := ih hrestDepth (k + 1) hmore { st with scope := scope₁ }
    refine ⟨.declare d.constant d.name (some e) place :: body, scope₂, ?_, ?_, ?_⟩
    · rw [List.map_cons, hdeclared, hbody]
      rfl
    · exact List.forall_mem_cons.mpr ⟨rfl, hinert⟩
    · obtain ⟨second, tail, htail⟩ : ∃ t ts, groups.flatten ++ next :: rest = t :: ts :=
        List.exists_cons_of_ne_nil (by simp)
      have hnotFinish : semicolon.token ≠ .finish := by rw [hsemicolon]; exact fun h => nomatch h
      rw [List.length_cons, Nat.add_right_comm, List.flatten_cons, List.append_assoc, List.append_assoc,
        List.singleton_append]
      rw [htail] at hread hitems ⊢
      rw [List.cons_append] at hread ⊢
      rw [scriptItems, bind_ok (peek_ok st keyword _), if_neg hkeyword, bind_ok hread]
      dsimp only
      rw [bind_ok (peek_ok _ semicolon _), if_neg hnotFinish, if_neg (by exact Bool.false_ne_true),
        bind_ok (accept_ok _ hsemicolon), if_pos rfl, bind_congr_at hitems, bind_assoc]
      simp only [pure_bind]
      rfl

/-! ## Whole scripts -/

theorem prune_append {body : List Stmt} (h : ∀ s ∈ body, s.isInert = false) (more : List Stmt) :
    Stmt.prune (body ++ more) = body ++ Stmt.prune more := by
  induction body with
  | nil => rfl
  | cons s body ih =>
    obtain ⟨hs, hbody⟩ := List.forall_mem_cons.mp h
    have hrest := ih hbody
    rw [List.cons_append, List.cons_append]
    cases hcases : body ++ more with
    | nil =>
      obtain ⟨rfl, rfl⟩ := List.append_eq_nil_iff.mp hcases
      rfl
    | cons s' others =>
      rw [hcases] at hrest
      rw [Stmt.prune, if_neg (by simp [hs]), hrest]
      exact fun h => nomatch h

theorem length_lines {tss : List (List Token)} {ds : List Declaration} (h : List.Forall₂ ReadsLine tss ds) (k : Nat)
    {groups : List (List Located)} (hgroups : List.Forall₂ (fun g l => OnLine g l.1 l.2) groups (tss.zipIdx k)) :
    tss.length ≤ groups.flatten.length ∧ ∀ ts ∈ tss, ts.length ≤ groups.flatten.length := by
  induction h generalizing k groups with
  | nil => simp
  | @cons ts d tss ds hline _ ih =>
    obtain ⟨group, groups, hgroup, hmore, rfl⟩ := List.forall₂_cons_right_iff.mp hgroups
    obtain ⟨hcount, hlength⟩ := ih (k + 1) hmore
    have hgroupLength : group.length = ts.length := by simpa using congrArg List.length hgroup
    have hpos : 0 < ts.length := by
      obtain ⟨vs, rfl, -⟩ := hline
      exact Nat.succ_pos _
    rw [List.flatten_cons, List.length_append]
    refine ⟨by rw [List.length_cons]; omega, fun us hus => ?_⟩
    rcases List.mem_cons.mp hus with rfl | hus
    · omega
    · exact (hlength us hus).trans (by omega)

/-- The script that is left of the statements that were read. -/
def Script.ofItems (r : List Stmt × ParseState) : Script :=
  ⟨r.2.functions, Stmt.prune r.1⟩

theorem parseTokens_eq (tokens : List Located) :
    parseTokens tokens = (scriptItems (grammar (4 * tokens.length + 4)) tokens.length
      (ParseState.at ⟨[], [], [], []⟩ tokens)).map Script.ofItems := by
  have hrun : (scriptItems (grammar (4 * tokens.length + 4)) tokens.length).run ⟨tokens, [], [], []⟩ =
      scriptItems (grammar (4 * tokens.length + 4)) tokens.length (ParseState.at ⟨[], [], [], []⟩ tokens) := rfl
  unfold parseTokens
  rw [hrun]
  cases scriptItems (grammar (4 * tokens.length + 4)) tokens.length (ParseState.at ⟨[], [], [], []⟩ tokens) <;> rfl

theorem map_items_append {p : Parse (List Stmt)} {body : List Stmt} (hinert : ∀ s ∈ body, s.isInert = false)
    (st : ParseState) : ((p >>= fun more => pure (body ++ more)) st).map Script.ofItems =
      (p st).map fun r => ⟨r.2.functions, body ++ Stmt.prune r.1⟩ := by
  show (p st >>= fun r => Except.ok (body ++ r.1, r.2)).map Script.ofItems = _
  cases p st with
  | error e => rfl
  | ok r => exact congrArg (fun kept => Except.ok (Script.mk r.2.functions kept)) (prune_append hinert r.1)

/-- **A script that starts with such lines starts with their declarations**, and it has nothing else if it
ends after them. -/
theorem parseTokens_lines {tss : List (List Token)} {ds : List Declaration} (h : List.Forall₂ ReadsLine tss ds)
    (k : Nat) {groups : List (List Located)}
    (hgroups : List.Forall₂ (fun g l => OnLine g l.1 l.2) groups (tss.zipIdx k)) (next : Located)
    (rest : List Located) :
    ∃ body, body.map Stmt.declaration? = (ds.zipIdx k).map some ∧
      (∀ script, parseTokens (groups.flatten ++ next :: rest) = .ok script → ∃ more, script.body = body ++ more) ∧
      (next.token = .finish → parseTokens (groups.flatten ++ next :: rest) = .ok ⟨[], body⟩) := by
  obtain ⟨hcount, hlength⟩ := length_lines h k hgroups
  have htotal : (groups.flatten ++ next :: rest).length = groups.flatten.length + (rest.length + 1) := by
    rw [List.length_append, List.length_cons]
  obtain ⟨fuel, hfuel⟩ : ∃ m, (groups.flatten ++ next :: rest).length = tss.length + (m + 1) :=
    ⟨groups.flatten.length - tss.length + rest.length, by omega⟩
  have hdepth : ∀ ts ∈ tss, 2 * ts.length ≤ 4 * (groups.flatten ++ next :: rest).length + 3 := by
    intro ts hts
    have := hlength ts hts
    omega
  obtain ⟨body, scope, hbody, hinert, hitems⟩ :=
    scriptItems_ok h hdepth k hgroups ⟨[], [], [], []⟩ (fuel + 1) next rest
  rw [← hfuel] at hitems
  generalize hg : 4 * (groups.flatten ++ next :: rest).length + 3 = depth at hitems
  have hparse : parseTokens (groups.flatten ++ next :: rest) =
      (scriptItems (grammar (depth + 1)) (fuel + 1) (ParseState.at ⟨[], scope, [], []⟩ (next :: rest))).map
        fun r => ⟨r.2.functions, body ++ Stmt.prune r.1⟩ := by
    rw [parseTokens_eq, show 4 * (groups.flatten ++ next :: rest).length + 4 = depth + 1 by omega, hitems]
    exact map_items_append hinert _
  rw [hparse]
  refine ⟨body, hbody, fun script hscript => ?_, fun hfinish => ?_⟩
  · cases hmore : scriptItems (grammar (depth + 1)) (fuel + 1) (ParseState.at ⟨[], scope, [], []⟩ (next :: rest)) with
    | error e =>
      rw [hmore] at hscript
      cases hscript
    | ok r =>
      rw [hmore] at hscript
      cases hscript
      exact ⟨_, rfl⟩
  · rw [scriptItems, bind_ok (peek_ok _ next rest), if_pos hfinish]
    exact congrArg (fun kept => Except.ok (Script.mk [] kept)) (List.append_nil body)

end Worksheet.Formula
