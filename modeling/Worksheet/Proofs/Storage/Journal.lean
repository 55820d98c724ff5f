import Mathlib.Data.List.Induction
import Worksheet.Proofs.Storage.Replica
/-!
# The journal of a store

A store that starts empty is sent requests, and every request is noted down with its answer. What the store
holds can be read off these notes: each sheet is what came in last under its id, under the last name that was asked
for since then, with the actions that were accepted since then. Only of actions it counts what the store answered.

* `Store.Request`, `Store.answer`, `Store.serve`: all that a store can be asked for;
* `Store.Entry`, `Entry.change?`: a request with its answer, and what it means for the sheet of an id;
* `Store.Turns`, `serve_turns`: what a request does to what is kept under an id;
* `Store.Came`: what came in last under an id, and the entries since then;
* `answer_rename`, `answer_delete`, `answer_update`: which requests are accepted;
* `Journal.Keeps`: what every request keeps;
* **`faithful_serveAll`**: the store against its journal.

Clones of a store share its sheets, so it does not matter through which of them a request comes.
-/

namespace Worksheet

namespace Sheet

variable {opened s t : Sheet} {actions : List Action} {now : Stamp}

theorem replay_header (h : s.replay actions now = .ok t) :
    t.id = s.id ∧ t.name = s.name ∧ t.created = s.created := by
  cases actions with
  | nil => exact replay_nil.mp h ▸ ⟨rfl, rfl, rfl⟩
  | cons a rest => exact replay_cons_header h ▸ ⟨rfl, rfl, rfl⟩

/-- A mirror is a replay under the mirror's name, but for the stamp of the last change. -/
theorem Mirrors.replay_named (h : opened.Mirrors actions t) (now : Stamp) :
    ∃ u, { opened with name := t.name }.replay actions now = .ok u ∧ t = { u with updated := t.updated } := by
  obtain ⟨v, hv, htv⟩ := h.content now
  have hopened : opened.SameContent { opened with name := t.name } := ⟨rfl, rfl, rfl⟩
  obtain ⟨u, hu, hvu⟩ := replay_sameContent hopened hv now
  obtain ⟨hid, hname, hcreated⟩ := replay_header hu
  refine ⟨u, hu, ?_⟩
  calc t = t.holding u := (htv.trans hvu).holding_eq.symm
    _ = { u with updated := t.updated } := by rw [holding, hid, hname, hcreated, h.id, h.created]

end Sheet

namespace Store

/-! ## Requests -/

/-- What a store is asked for. -/
inductive Request
  | perform (o : Operation)
  | get (id : String)
  | list

/-- What a store answers if it does not refuse. -/
inductive Reply
  | done
  | summary (m : SheetMeta)
  | sheet (sheet : Sheet)
  | listing (metas : List SheetMeta)

/-- The answer of a store to a request at a given time. -/
def answer (s : Store) (now : Stamp) : Request → Except SheetError Reply
  | .perform (.create id title) => .ok (.summary (s.create id title now).1)
  | .perform (.importSheet sheet) => .ok (.summary (s.importSheet sheet).1)
  | .perform (.rename id name) => (s.rename id name).map fun _ => .done
  | .perform (.delete id) => (s.delete id).map fun _ => .done
  | .perform (.update id a) => (s.update id a now).map fun r => .sheet r.1
  | .get id => (s.get id).map .sheet
  | .list => .ok (.listing s.listing)

/-- The store after a request at a given time. -/
def serve (s : Store) (now : Stamp) : Request → Store
  | .perform o => s.perform now o
  | .get _ => s
  | .list => s

/-- The id that a request is about. -/
def Request.target? : Request → Option String
  | perform (.create id _) => some id
  | perform (.importSheet sheet) => some sheet.id
  | perform (.rename id _) => some id
  | perform (.delete id) => some id
  | perform (.update id _) => some id
  | get id => some id
  | list => none

/-! ## Entries -/

/-- What can happen to what is kept under an id. -/
inductive Change
  /-- A sheet comes in, in place of what was there. -/
  | comes (sheet : Sheet)
  | goes
  | named (name : String)
  | acted (a : Action)

/-- The name that a change gives. -/
def Change.name? : Change → Option String
  | named name => some name
  | _ => none

/-- The action that a change makes. -/
def Change.action? : Change → Option Action
  | acted a => some a
  | _ => none

/-- What a request means for an id. -/
def Request.change? (id : String) (now : Stamp) : Request → Option Change
  | perform (.create id' title) => if id' = id then some (.comes (Sheet.new id title now)) else none
  | perform (.importSheet sheet) => if sheet.id = id then some (.comes sheet) else none
  | perform (.rename id' name) => if id' = id then some (.named name) else none
  | perform (.delete id') => if id' = id then some .goes else none
  | perform (.update id' a) => if id' = id then some (.acted a) else none
  | get _ => none
  | list => none

/-- A request with its time and its answer. -/
structure Entry where
  time : Stamp
  request : Request
  answer : Except SheetError Reply

/-- The entry for a request. -/
def entry (s : Store) (now : Stamp) (r : Request) : Entry :=
  ⟨now, r, s.answer now r⟩

namespace Entry

/-- What an entry means for an id. An action that was refused means nothing. -/
def change? (e : Entry) (id : String) : Option Change :=
  (e.request.change? id e.time).filter fun c => c.action?.isNone || e.answer.isOk

/-- The entry puts a sheet under the id. -/
def Brings (e : Entry) (id : String) : Prop :=
  ∃ sheet, e.change? id = some (.comes sheet)

/-- The entry deletes the sheet of the id. -/
def Deletes (e : Entry) (id : String) : Prop :=
  e.change? id = some .goes

end Entry

/-- The actions on the sheet of an id, in order. -/
def actionsOn (id : String) (entries : List Entry) : List Action :=
  entries.filterMap fun e => (e.change? id).bind Change.action?

/-- The last name that the entries give to the sheet of an id, or the one that it had. -/
def lastName (id name : String) (entries : List Entry) : String :=
  (entries.filterMap fun e => (e.change? id).bind Change.name?).getLast?.getD name

/-- The sheet came in under the id, and none has come in among the entries since then. -/
def Came (id : String) (entries : List Entry) (base : Sheet) (since : List Entry) : Prop :=
  ∃ before e, entries = before ++ e :: since ∧ e.change? id = some (.comes base) ∧ ∀ e ∈ since, ¬ e.Brings id

variable {s : Store} {id : String} {now : Stamp} {r : Request} {e : Entry} {entries since : List Entry}
  {base t : Sheet}

/-! ## One request -/

/-- What is kept under an id before and after a change of it. -/
inductive Turns (now : Stamp) : Option Change → Option Sheet → Option Sheet → Prop
  | same (x : Option Sheet) : Turns now none x x
  | comes (sheet : Sheet) (x : Option Sheet) : Turns now (some (.comes sheet)) x (some sheet)
  | goes (x : Option Sheet) : Turns now (some .goes) x none
  | named (name : String) (x : Option Sheet) : Turns now (some (.named name)) x (x.map ({ · with name := name }))
  | acted {a : Action} {t next : Sheet} (h : t.reduce a now = .ok next) :
    Turns now (some (.acted a)) (some t) (some next)

theorem get_error_iff {x : SheetError} :
    s.get id = .error x ↔ x = .sheetNotFound id ∧ s.sheets.find? id = none := by
  rw [get]
  cases s.sheets.find? id <;> simp [eq_comm]

theorem map_ok {ε α β : Type} {x : Except ε α} {f : α → β} {b : β} (h : x.map f = .ok b) :
    ∃ a, x = .ok a ∧ f a = b := by
  cases x with
  | error e => cases h
  | ok a => exact ⟨a, rfl, Except.ok.inj h⟩

theorem map_error {ε α β : Type} {x : Except ε α} {f : α → β} {e : ε} (h : x.map f = .error e) :
    x = .error e := by
  cases x with
  | error e' => exact congrArg Except.error (Except.error.inj h)
  | ok a => cases h

theorem answer_rename (s : Store) (now : Stamp) (id name : String) :
    s.answer now (.perform (.rename id name)) = (s.get id).map fun _ => .done := by
  rw [answer, rename]
  cases s.get id <;> rfl

theorem answer_delete (s : Store) (now : Stamp) (id : String) :
    s.answer now (.perform (.delete id)) = (s.get id).map fun _ => .done := by
  rw [answer, delete]
  cases s.get id <;> rfl

theorem answer_update (s : Store) (now : Stamp) (id : String) (a : Action) :
    s.answer now (.perform (.update id a)) = ((s.get id).bind (·.reduce a now)).map .sheet := by
  rw [answer, update]
  cases s.get id with
  | error x => rfl
  | ok t =>
    simp only [bind, Except.bind]
    cases t.reduce a now <;> rfl

theorem serve_error {x : SheetError} (h : s.answer now r = .error x) : s.serve now r = s := by
  cases r with
  | get | list => rfl
  | perform o =>
    cases o with
    | create | importSheet => cases h
    | rename | delete | update =>
      rw [serve, perform, map_error h]
      rfl

theorem find?_serve_rename (s : Store) (now : Stamp) (id' name id : String) :
    (s.serve now (.perform (.rename id' name))).sheets.find? id =
      if id' = id then (s.sheets.find? id).map ({ · with name := name }) else s.sheets.find? id := by
  rw [serve, perform, rename, get]
  cases hfind : s.sheets.find? id' with
  | none =>
    split_ifs with hid
    · rw [← hid]
      simp only [hfind]
      exact hfind
    · rfl
  | some t =>
    refine (Dict.find?_insert _ _ _ _).trans ?_
    split_ifs with hid
    · rw [← hid, hfind]
      rfl
    · rfl

theorem find?_serve_delete (s : Store) (now : Stamp) (id' id : String) :
    (s.serve now (.perform (.delete id'))).sheets.find? id = if id' = id then none else s.sheets.find? id := by
  rw [serve, perform, delete, get]
  cases hfind : s.sheets.find? id' with
  | none =>
    split_ifs with hid
    · rw [← hid]
      exact hfind
    · rfl
  | some t => exact Dict.find?_erase _ _ _

/-- **What a request does to what is kept under an id.** -/
theorem serve_turns (s : Store) (now : Stamp) (r : Request) (id : String) :
    Turns now ((s.entry now r).change? id) (s.sheets.find? id) ((s.serve now r).sheets.find? id) := by
  cases r with
  | get | list => exact .same _
  | perform o =>
    rw [Entry.change?, entry]
    cases o with
    | create id' title =>
      have hserve : (s.serve now (.perform (.create id' title))).sheets.find? id =
          if id' = id then some (Sheet.new id' title now) else s.sheets.find? id := Dict.find?_insert _ _ _ _
      rw [hserve, Request.change?]
      split_ifs with hid
      · exact hid ▸ .comes _ _
      · exact .same _
    | importSheet sheet =>
      have hserve : (s.serve now (.perform (.importSheet sheet))).sheets.find? id =
          if sheet.id = id then some sheet else s.sheets.find? id := Dict.find?_insert _ _ _ _
      rw [hserve, Request.change?]
      split_ifs
      · exact .comes _ _
      · exact .same _
    | rename id' name =>
      rw [find?_serve_rename, Request.change?]
      split_ifs
      · exact .named name _
      · exact .same _
    | delete id' =>
      rw [find?_serve_delete, Request.change?]
      split_ifs
      · exact .goes _
      · exact .same _
    | update id' a =>
      cases hanswer : s.answer now (.perform (.update id' a)) with
      | error x =>
        rw [serve_error hanswer, Request.change?]
        split_ifs <;> exact .same _
      | ok reply =>
        obtain ⟨⟨next, t⟩, ht, -⟩ := map_ok hanswer
        obtain ⟨sheet, hfind, hreduce, rfl⟩ := update_ok.mp ht
        rw [serve, perform, ht, Except.map, orSame, Dict.find?_insert, Request.change?]
        split_ifs with hid
        · rw [← hid, hfind]
          exact .acted hreduce
        · exact .same _

theorem change?_of_target? (h : r.target? ≠ some id) (now : Stamp) : r.change? id now = none := by
  have hne : ∀ {id' : String}, some id' ≠ some id → id' ≠ id := fun hne heq => hne (congrArg some heq)
  cases r with
  | get | list => rfl
  | perform o => cases o <;> exact if_neg (hne h)

theorem get_serve_of_target? (h : r.target? ≠ some id) (s : Store) (now : Stamp) :
    (s.serve now r).get id = s.get id := by
  have hnone : (s.entry now r).change? id = none := by
    rw [Entry.change?, entry, change?_of_target? h]
    rfl
  have hturns := serve_turns s now r id
  rw [hnone] at hturns
  have hfind : (s.serve now r).sheets.find? id = s.sheets.find? id := by
    generalize s.sheets.find? id = x at hturns
    generalize (s.serve now r).sheets.find? id = y at hturns
    cases hturns
    rfl
  rw [get, get, hfind]

theorem get_serve_update {a : Action} {reply : Reply} (h : s.answer now (.perform (.update id a)) = .ok reply) :
    ∃ t, reply = .sheet t ∧ (s.serve now (.perform (.update id a))).get id = .ok t := by
  obtain ⟨⟨next, t⟩, hupdate, rfl⟩ := map_ok h
  obtain ⟨sheet, -, -, rfl⟩ := update_ok.mp hupdate
  refine ⟨next, rfl, get_ok.mpr ?_⟩
  rw [serve, perform, hupdate]
  exact Dict.find?_insert_self _ _ _

/-! ## What came in last -/

theorem came_concat : Came id (entries ++ [e]) base since ↔
    (e.change? id = some (.comes base) ∧ since = []) ∨
      ¬ e.Brings id ∧ ∃ since', since = since' ++ [e] ∧ Came id entries base since' := by
  constructor
  · rintro ⟨before, e', heq, hbase, hsince⟩
    rcases List.eq_nil_or_concat' since with rfl | ⟨since', e'', rfl⟩
    · obtain rfl : e = e' := List.singleton_inj.mp (List.append_inj' heq rfl).2
      exact .inl ⟨hbase, rfl⟩
    · rw [← List.cons_append, ← List.append_assoc] at heq
      obtain ⟨rfl, hlast⟩ := List.append_inj' heq rfl
      obtain rfl : e = e'' := List.singleton_inj.mp hlast
      exact .inr ⟨hsince e (by simp), since', rfl, before, e', rfl, hbase,
        fun e' he' => hsince e' (List.mem_append_left _ he')⟩
  · rintro (⟨hbase, rfl⟩ | ⟨hbrings, since', rfl, before, e', rfl, hbase, hsince⟩)
    · exact ⟨entries, e, rfl, hbase, fun _ h => absurd h List.not_mem_nil⟩
    · refine ⟨before, e', by simp, hbase, fun e'' he'' => ?_⟩
      rcases List.mem_append.mp he'' with he'' | he''
      · exact hsince e'' he''
      · exact List.mem_singleton.mp he'' ▸ hbrings

theorem not_came_nil : ¬ Came id [] base since := by
  rintro ⟨before, e, heq, -⟩
  cases before <;> cases heq

theorem Came.unique {base' : Sheet} {since' : List Entry} (h : Came id entries base since)
    (h' : Came id entries base' since') : base = base' ∧ since = since' := by
  induction entries using List.reverseRecOn generalizing since since' with
  | nil => exact absurd h not_came_nil
  | append_singleton entries e ih =>
    rcases came_concat.mp h with ⟨hbase, rfl⟩ | ⟨hbrings, rest, rfl, hrest⟩
    · rcases came_concat.mp h' with ⟨hbase', rfl⟩ | ⟨hbrings, -⟩
      · rw [hbase] at hbase'
        cases hbase'
        exact ⟨rfl, rfl⟩
      · exact absurd ⟨base, hbase⟩ hbrings
    · rcases came_concat.mp h' with ⟨hbase', -⟩ | ⟨-, rest', rfl, hrest'⟩
      · exact absurd ⟨base', hbase'⟩ hbrings
      · obtain ⟨rfl, rfl⟩ := ih hrest hrest'
        exact ⟨rfl, rfl⟩

theorem exists_came (h : ∃ e ∈ entries, e.Brings id) : ∃ base since, Came id entries base since := by
  induction entries using List.reverseRecOn with
  | nil => obtain ⟨_, he, -⟩ := h; cases he
  | append_singleton entries e ih =>
    by_cases hbrings : e.Brings id
    · obtain ⟨base, hbase⟩ := hbrings
      exact ⟨base, [], came_concat.mpr (.inl ⟨hbase, rfl⟩)⟩
    · obtain ⟨e', he', hbrings'⟩ := h
      have hmem : e' ∈ entries := (List.mem_append.mp he').resolve_right fun hlast =>
        hbrings (List.mem_singleton.mp hlast ▸ hbrings')
      obtain ⟨base, since, hcame⟩ := ih ⟨e', hmem, hbrings'⟩
      exact ⟨base, since ++ [e], came_concat.mpr (.inr ⟨hbrings, since, rfl, hcame⟩)⟩

/-! ## Journals -/

/-- What came in last under the id is still there. -/
def Lives (id : String) (entries : List Entry) (base : Sheet) (since : List Entry) : Prop :=
  Came id entries base since ∧ ∀ e ∈ since, ¬ e.Deletes id

theorem lives_concat : Lives id (entries ++ [e]) base since ↔
    (e.change? id = some (.comes base) ∧ since = []) ∨
      ¬ e.Brings id ∧ ¬ e.Deletes id ∧ ∃ since', since = since' ++ [e] ∧ Lives id entries base since' := by
  constructor
  · rintro ⟨hcame, hdeletes⟩
    rcases came_concat.mp hcame with h | ⟨hbrings, since', rfl, hcame'⟩
    · exact .inl h
    · exact .inr ⟨hbrings, hdeletes e (by simp), since', rfl, hcame',
        fun e' he' => hdeletes e' (List.mem_append_left _ he')⟩
  · rintro (⟨hbase, rfl⟩ | ⟨hbrings, hdeletes, since', rfl, hcame, hrest⟩)
    · exact ⟨came_concat.mpr (.inl ⟨hbase, rfl⟩), fun _ h => absurd h List.not_mem_nil⟩
    · refine ⟨came_concat.mpr (.inr ⟨hbrings, since', rfl, hcame⟩), fun e' he' => ?_⟩
      rcases List.mem_append.mp he' with he' | he'
      · exact hrest e' he'
      · exact List.mem_singleton.mp he' ▸ hdeletes

/-- A change that keeps the sheet of an id adds its name and its action to those since the sheet came in. -/
theorem Turns.keeps {x y : Option Sheet} (h : Turns now (e.change? id) x y) (hbrings : ¬ e.Brings id)
    (hdeletes : ¬ e.Deletes id) (hx : x = some t) (ht : base.Mirrors (actionsOn id since) t)
    (hname : t.name = lastName id base.name since) :
    ∃ u, y = some u ∧ base.Mirrors (actionsOn id (since ++ [e])) u ∧
      u.name = lastName id base.name (since ++ [e]) := by
  have hactions : actionsOn id (since ++ [e]) = actionsOn id since ++ ((e.change? id).bind Change.action?).toList := by
    cases hc : (e.change? id).bind Change.action? <;> simp [actionsOn, hc]
  have hlast : lastName id base.name (since ++ [e]) =
      ((e.change? id).bind Change.name?).getD (lastName id base.name since) := by
    cases hc : (e.change? id).bind Change.name? <;> simp [lastName, hc]
  rw [hactions, hlast]
  generalize hc : e.change? id = c at h
  cases h with
  | same => exact ⟨t, hx, (List.append_nil _).symm ▸ ht, hname⟩
  | comes sheet => exact absurd ⟨sheet, hc⟩ hbrings
  | goes => exact absurd hc hdeletes
  | named name =>
    cases hx
    exact ⟨_, rfl, (List.append_nil (actionsOn id since)).symm ▸ ht.rename name, rfl⟩
  | acted hreduce =>
    cases hx
    exact ⟨_, rfl, ht.reduce hreduce, (Sheet.reduce_header hreduce).2.1.trans hname⟩

/-- A sheet that is there has just come in, or it was there before and has not been deleted. -/
theorem Turns.brings_or {x : Option Sheet} (h : Turns now (e.change? id) x (some t)) :
    e.Brings id ∨ ¬ e.Brings id ∧ ¬ e.Deletes id ∧ ∃ t', x = some t' := by
  rw [Entry.Brings, Entry.Deletes]
  generalize e.change? id = c at h ⊢
  generalize hy : some t = y at h
  cases h with
  | same => exact .inr ⟨by simp, by simp, t, hy.symm⟩
  | comes sheet => exact .inl ⟨sheet, rfl⟩
  | goes => cases hy
  | named name =>
    obtain ⟨t', ht', -⟩ := Option.map_eq_some_iff.mp hy.symm
    exact .inr ⟨by simp, by simp, t', ht'⟩
  | @acted _ t' => exact .inr ⟨by simp, by simp, t', rfl⟩

/-- A store with all that has been noted of it. -/
structure Journal where
  store : Store
  entries : List Entry

namespace Journal

variable {j : Journal}

/-- A store without sheets, before the first request. -/
def new : Journal :=
  ⟨empty, []⟩

/-- Notes down a request at a given time. -/
def serve (j : Journal) (now : Stamp) (r : Request) : Journal :=
  ⟨j.store.serve now r, j.entries ++ [j.store.entry now r]⟩

/-- The journal of some requests, each with its time. -/
def serveAll (requests : List (Stamp × Request)) : Journal :=
  requests.foldl (fun j r => j.serve r.1 r.2) new

/-- What every request keeps. -/
structure Keeps (j : Journal) : Prop where
  keyed : j.store.Keyed
  stored : ∀ {id base since}, Lives id j.entries base since →
    ∃ t, j.store.sheets.find? id = some t ∧ base.Mirrors (actionsOn id since) t ∧
      t.name = lastName id base.name since
  lives : ∀ {id t}, j.store.sheets.find? id = some t → ∃ base since, Lives id j.entries base since

theorem keeps_new : new.Keeps where
  keyed := keyed_empty
  stored h := absurd h.1 not_came_nil
  lives h := by cases h

theorem Keeps.serve (h : j.Keeps) (now : Stamp) (r : Request) : (j.serve now r).Keeps where
  keyed := by
    cases r with
    | get | list => exact h.keyed
    | perform o => exact h.keyed.perform now o
  stored := by
    intro id base since hlives
    have hturns := serve_turns j.store now r id
    rcases lives_concat.mp hlives with ⟨hbase, rfl⟩ | ⟨hbrings, hdeletes, since', rfl, hlives'⟩
    · rw [hbase] at hturns
      generalize hy : (j.store.serve now r).sheets.find? id = y at hturns
      cases hturns
      exact ⟨base, hy, Sheet.mirrors_nil base, rfl⟩
    · obtain ⟨t, hfind, ht, hname⟩ := h.stored hlives'
      exact hturns.keeps hbrings hdeletes hfind ht hname
  lives := by
    intro id t hfind
    have hturns := serve_turns j.store now r id
    rcases (hfind ▸ hturns : Turns now _ _ (some t)).brings_or with ⟨base, hbase⟩ | ⟨hbrings, hdeletes, t', hfind'⟩
    · exact ⟨base, [], lives_concat.mpr (.inl ⟨hbase, rfl⟩)⟩
    · obtain ⟨base, since, hlives⟩ := h.lives hfind'
      exact ⟨base, _, lives_concat.mpr (.inr ⟨hbrings, hdeletes, since, rfl, hlives⟩)⟩

theorem keeps_serveAll (requests : List (Stamp × Request)) : (serveAll requests).Keeps := by
  induction requests using List.reverseRecOn with
  | nil => exact keeps_new
  | append_singleton requests r ih =>
    rw [serveAll, List.foldl_append]
    exact ih.serve r.1 r.2

theorem Keeps.missing (h : j.Keeps) (id : String) :
    j.store.get id = .error (.sheetNotFound id) ↔
      (∀ e ∈ j.entries, ¬ e.Brings id) ∨
        ∃ base since, Came id j.entries base since ∧ ∃ e ∈ since, e.Deletes id := by
  rw [get_error_iff]
  constructor
  · rintro ⟨-, hnone⟩
    by_cases hbrings : ∃ e ∈ j.entries, e.Brings id
    · obtain ⟨base, since, hcame⟩ := exists_came hbrings
      refine .inr ⟨base, since, hcame, ?_⟩
      by_contra hdeletes
      obtain ⟨t, hfind, -⟩ := h.stored ⟨hcame, fun e he hdelete => hdeletes ⟨e, he, hdelete⟩⟩
      rw [hnone] at hfind
      cases hfind
    · exact .inl fun e he hbring => hbrings ⟨e, he, hbring⟩
  · intro hgone
    refine ⟨rfl, Option.eq_none_iff_forall_ne_some.mpr fun t hfind => ?_⟩
    obtain ⟨base, since, hcame, hdeletes⟩ := h.lives hfind
    rcases hgone with hnever | ⟨base', since', hcame', e, he, hdelete⟩
    · obtain ⟨before, e, heq, hbase, -⟩ := hcame
      exact hnever e (by rw [heq]; simp) ⟨base, hbase⟩
    · obtain ⟨rfl, rfl⟩ := hcame.unique hcame'
      exact hdeletes e he hdelete

/-- A store does what its journal says. -/
structure Faithful (j : Journal) : Prop where
  /-- There is no sheet under an id exactly if none has come in under it, or it has been deleted since one came in
  last. -/
  missing : ∀ id, j.store.get id = .error (.sheetNotFound id) ↔
    (∀ e ∈ j.entries, ¬ e.Brings id) ∨
      ∃ base since, Came id j.entries base since ∧ ∃ e ∈ since, e.Deletes id
  /-- Otherwise the sheet is what came in last, with the last name asked for and the actions accepted since then,
  replayed at any time. The stamp of the last change does not count. -/
  stored : ∀ id base since, Came id j.entries base since → (∀ e ∈ since, ¬ e.Deletes id) →
    ∃ t, j.store.get id = .ok t ∧ ∀ now, ∃ u,
      { base with name := lastName id base.name since }.replay (actionsOn id since) now = .ok u ∧
        t = { u with updated := t.updated }
  /-- A sheet is renamed if it is there. -/
  renamed : ∀ now id name, j.store.answer now (.perform (.rename id name)) = (j.store.get id).map fun _ => .done
  /-- A sheet is deleted if it is there. -/
  deleted : ∀ now id, j.store.answer now (.perform (.delete id)) = (j.store.get id).map fun _ => .done
  /-- An action is accepted if the sheet is there and takes it. -/
  updated : ∀ now id a, j.store.answer now (.perform (.update id a)) =
    ((j.store.get id).bind (·.reduce a now)).map .sheet
  /-- An accepted update answers with the sheet that is stored from now on. -/
  update : ∀ now id a reply, j.store.answer now (.perform (.update id a)) = .ok reply →
    ∃ t, reply = .sheet t ∧ (j.store.serve now (.perform (.update id a))).get id = .ok t
  /-- A request that is refused leaves the store as it is. -/
  refused : ∀ now r x, j.store.answer now r = .error x → j.store.serve now r = j.store
  /-- No request does anything to a sheet of another id. -/
  spared : ∀ now (r : Request) id, r.target? ≠ some id → (j.store.serve now r).get id = j.store.get id
  /-- Every sheet is kept under its own id. -/
  keyed : ∀ id t, j.store.get id = .ok t → t.id = id

/-- **A store does what its journal says**, whatever it has been asked for. -/
theorem faithful_serveAll (requests : List (Stamp × Request)) : (serveAll requests).Faithful := by
  have h := keeps_serveAll requests
  refine ⟨h.missing, fun id base since hcame hdeletes => ?_, answer_rename _, answer_delete _, answer_update _,
    fun _ _ _ _ => get_serve_update, fun _ _ _ => serve_error, fun now _ _ htarget => get_serve_of_target? htarget _ now,
    fun id t hget => h.keyed id t (get_ok.mp hget)⟩
  obtain ⟨t, hfind, ht, hname⟩ := h.stored ⟨hcame, hdeletes⟩
  exact ⟨t, get_ok.mpr hfind, fun now => hname ▸ ht.replay_named now⟩

/-- Some requests for a sheet that comes in twice. The last update is refused, and there is no sheet to delete. -/
def billing : List (Stamp × Request) :=
  [(default, .perform (.create "s" "Draft")), (default, .perform (.update "s" (.addRow "p"))),
    (default, .perform (.importSheet (Sheet.new "s" "Bills" default))), (default, .perform (.update "s" (.addRow "q"))),
    (default, .perform (.rename "s" "Paid")), (default, .get "s"), (default, .perform (.update "s" (.addRow "q"))),
    (default, .perform (.delete "t"))]

example : actionsOn "s" ((serveAll billing).entries.drop 3) = [.addRow "q"] ∧
    lastName "s" "Bills" ((serveAll billing).entries.drop 3) = "Paid" := by
  decide

end Journal

end Store

end Worksheet
