import Mathlib.Data.List.ReduceOption
import Worksheet.Proofs.Storage.Operation
import Worksheet.Proofs.Storage.Queue
import Worksheet.Storage.Session
/-!
# Local copy and stored sheet

A session and the store that its sheet came from, while the worker sends the writes on and others use the
store. Steps come in any order.

* `Sheet.Mirrors`: a sheet that holds what some actions make of the opened one;
* `World`, `World.Event`, `World.run`: the steps, with a history of what was handed in and of the calls;
* `World.InStep`: what every step keeps, the number of jobs that are over being given;
* **`run_converges`**: the stored sheet holds the actions that were sent so far; after a flush it holds what
  the local copy holds.
-/

namespace Worksheet

/-! ## Mirrors -/

namespace Sheet

variable {opened s t : Sheet} {actions later : List Action} {a : Action} {now : Stamp}

/-- The sheet holds what the actions make of the opened one. Name and last stamp do not count. -/
structure Mirrors (opened : Sheet) (actions : List Action) (s : Sheet) : Prop where
  id : s.id = opened.id
  created : s.created = opened.created
  content : ∀ now, ∃ t, opened.replay actions now = .ok t ∧ s.SameContent t

theorem mirrors_nil (opened : Sheet) : opened.Mirrors [] opened :=
  ⟨rfl, rfl, fun _ => ⟨opened, replay_nil.mpr rfl, .refl opened⟩⟩

theorem Mirrors.rename (h : opened.Mirrors actions s) (name : String) :
    opened.Mirrors actions { s with name := name } := by
  refine ⟨h.id, h.created, fun now => ?_⟩
  obtain ⟨t, ht, hst⟩ := h.content now
  exact ⟨t, ht, hst.columns, hst.rows, hst.tagCache⟩

theorem Mirrors.reduce (h : opened.Mirrors actions s) (hs : s.reduce a now = .ok t) :
    opened.Mirrors (actions ++ [a]) t := by
  obtain ⟨hid, -, hcreated⟩ := reduce_header hs
  refine ⟨hid.trans h.id, hcreated.trans h.created, fun now' => ?_⟩
  obtain ⟨u, hu, hsu⟩ := h.content now'
  obtain ⟨v, hv, htv⟩ := reduce_sameContent hsu hs now'
  refine ⟨v, replay_append.mpr ⟨u, hu, replay_cons.mpr ⟨v, hv, replay_nil.mpr rfl⟩⟩, htv⟩

/-- An action that some run from the opened sheet makes next is accepted by every mirror. -/
theorem Mirrors.accepts (h : opened.Mirrors actions s) (ht : opened.Mirrors (actions ++ a :: later) t)
    (now : Stamp) : ∃ u, s.reduce a now = .ok u ∧ opened.Mirrors (actions ++ [a]) u := by
  obtain ⟨v, hv, -⟩ := ht.content now
  obtain ⟨w, hw, hrest⟩ := replay_append.mp hv
  obtain ⟨x, hx, -⟩ := replay_cons.mp hrest
  obtain ⟨w', hw', hsw⟩ := h.content now
  obtain rfl : w = w' := Except.ok.inj (hw.symm.trans hw')
  obtain ⟨u, hu, -⟩ := reduce_sameContent hsw.symm hx now
  exact ⟨u, hu, h.reduce hu⟩

theorem Mirrors.agree (hs : opened.Mirrors actions s) (ht : opened.Mirrors actions t) :
    s.id = t.id ∧ s.created = t.created ∧ s.SameContent t := by
  refine ⟨hs.id.trans ht.id.symm, hs.created.trans ht.created.symm, ?_⟩
  obtain ⟨u, hu, hsu⟩ := hs.content default
  obtain ⟨v, hv, htv⟩ := ht.content default
  obtain rfl : u = v := Except.ok.inj (hu.symm.trans hv)
  exact hsu.trans htv.symm

end Sheet

/-! ## Worlds -/

/-- A session, the store, and what has happened between them. -/
structure World where
  session : Session Site
  site : Site
  /-- What was handed in to the queue under each ticket: the action of a write, or nothing for a flush. -/
  handed : List (Option Action)
  /-- The updates that the store was asked for, with its answers. -/
  calls : List (Action × Except SheetError Sheet)

namespace World

/-- A session that has just been opened. -/
def opened (session : Session Site) (site : Site) : World :=
  ⟨session, site, [], []⟩

/-- The actions that the session has accepted. -/
def accepted (w : World) : List Action :=
  w.handed.reduceOption

/-- The job that was handed in. -/
def job (id : String) : Option Action → Job Site Unit
  | some a => Site.write id a
  | none => .done ()

/-- The call that the next turn of the running job makes, with the answer of the store. -/
def call? (w : World) : Option (Action × Except SheetError Sheet) :=
  w.session.writes.running.bind fun running =>
    (w.handed[running.1]?).join.map fun a =>
      (a, (w.site.store.update w.session.sheet.id a w.site.clock).map (·.1))

/-- What can happen next. -/
inductive Event
  /-- The session is given an action. -/
  | apply (a : Action) (now : Stamp)
  /-- The session is asked for a flush. -/
  | flush
  /-- Nobody waits any longer for the result of a ticket. -/
  | abandon (t : Ticket)
  /-- The worker starts on the next job. -/
  | start
  /-- The running job takes a turn. -/
  | turn
  /-- The clock of the store shows another time. -/
  | clock (now : Stamp)
  /-- Someone else uses the store. -/
  | other (o : Store.Operation)

/-- Nobody but the session touches the sheet of the id, unless to rename it. -/
def Event.Spares (id : String) : Event → Prop
  | other o => o.Spares id
  | _ => True

/-- The world after an event. What cannot happen, and an action that is refused, changes nothing. -/
def step (w : World) : Event → World
  | .apply a now =>
    match w.session.apply Site.write a now with
    | .ok session => { w with session := session, handed := w.handed ++ [some a] }
    | .error _ => w
  | .flush =>
    { w with
      session := { w.session with writes := (w.session.writes.enqueue (.done ())).2 }
      handed := w.handed ++ [none] }
  | .abandon t => { w with session := { w.session with writes := w.session.writes.abandon t } }
  | .start =>
    match w.session.writes.start? with
    | some writes => { w with session := { w.session with writes := writes } }
    | none => w
  | .turn =>
    match w.session.writes.turn? w.site with
    | some (site, writes) =>
      { w with
        session := { w.session with writes := writes }
        site := site
        calls := w.calls ++ w.call?.toList }
    | none => w
  | .clock now => { w with site := { w.site with clock := now } }
  | .other o => { w with site := { w.site with store := w.site.store.perform w.site.clock o } }

/-- The world after some events. -/
def run (w : World) (events : List Event) : World :=
  events.foldl step w

/-! ## The invariant -/

/-- The jobs that were handed in, with their tickets. -/
def jobs (id : String) (handed : List (Option Action)) : List (Ticket × Job Site Unit) :=
  handed.mapIdx fun t x => (t, job id x)

/-- Session, queue and store are in step: the first `ended` jobs are over, and the others are in the queue
in order; the stored sheet holds the actions of those that are over. -/
structure InStep (origin : Sheet) (ended : Nat) (w : World) : Prop where
  isOpen : w.session.writes.isOpen = true
  issued : w.session.writes.issued = w.handed.length
  ended_le : ended ≤ w.handed.length
  queued : w.session.writes.running.toList ++ w.session.writes.waiting =
    (jobs origin.id w.handed).drop ended
  results : ∀ r ∈ w.session.writes.results, r.1 < ended ∧ r.2 = .ok ()
  copy : origin.Mirrors w.accepted w.session.sheet
  sent : w.calls.map (·.1) = (w.handed.take ended).reduceOption
  answered : ∀ c ∈ w.calls, ∃ next, c.2 = .ok next
  stored : ∃ s, w.site.store.sheets.find? origin.id = some s ∧ origin.Mirrors (w.calls.map (·.1)) s

variable {origin : Sheet} {ended : Nat} {w : World} {x : Option Action}

@[simp] theorem length_jobs (id : String) (handed : List (Option Action)) :
    (jobs id handed).length = handed.length :=
  List.length_mapIdx

theorem jobs_concat (id : String) (handed : List (Option Action)) (x : Option Action) :
    jobs id (handed ++ [x]) = jobs id handed ++ [(handed.length, job id x)] :=
  List.mapIdx_concat

theorem getElem?_jobs (id : String) (handed : List (Option Action)) (n : Nat) :
    (jobs id handed)[n]? = (handed[n]?).map fun x => (n, job id x) :=
  List.getElem?_mapIdx

theorem InStep.queued_concat (h : w.InStep origin ended) (x : Option Action) :
    w.session.writes.running.toList ++ (w.session.writes.waiting ++ [(w.session.writes.issued, job origin.id x)]) =
      (jobs origin.id (w.handed ++ [x])).drop ended := by
  rw [jobs_concat, List.drop_append_of_le_length (by rw [length_jobs]; exact h.ended_le), ← h.queued,
    h.issued, List.append_assoc]

theorem InStep.take_concat (h : w.InStep origin ended) (x : Option Action) :
    (w.handed ++ [x]).take ended = w.handed.take ended :=
  List.take_append_of_le_length h.ended_le

/-! ## One step each -/

theorem InStep.apply (h : w.InStep origin ended) (a : Action) (now : Stamp) :
    (w.step (.apply a now)).InStep origin ended := by
  simp only [step]
  cases happly : w.session.apply Site.write a now with
  | error e => exact h
  | ok session =>
    obtain ⟨sheet, hsheet, happly⟩ := bind_ok happly
    have hid : sheet.id = origin.id := (Sheet.reduce_header hsheet).1.trans h.copy.id
    rw [WriteQueue.enqueue_of_isOpen h.isOpen] at happly
    cases happly
    refine ⟨h.isOpen, ?_, ?_, ?_, ?_, ?_, ?_, h.answered, h.stored⟩
    · rw [List.length_append]
      exact congrArg (· + 1) h.issued
    · rw [List.length_append]
      exact Nat.le_add_right_of_le h.ended_le
    · rw [← h.queued_concat (some a), ← hid]
      rfl
    · intro r hr
      exact h.results r (List.mem_filter.mp hr).1
    · rw [accepted, List.reduceOption_append]
      exact h.copy.reduce hsheet
    · rw [h.take_concat]
      exact h.sent

theorem InStep.flush (h : w.InStep origin ended) : (w.step .flush).InStep origin ended := by
  simp only [step]
  rw [WriteQueue.enqueue_of_isOpen h.isOpen]
  refine ⟨h.isOpen, ?_, ?_, ?_, h.results, ?_, ?_, h.answered, h.stored⟩
  · rw [List.length_append]
    exact congrArg (· + 1) h.issued
  · rw [List.length_append]
    exact Nat.le_add_right_of_le h.ended_le
  · rw [← h.queued_concat none]
    rfl
  · rw [accepted, List.reduceOption_append]
    exact (List.append_nil _).symm ▸ h.copy
  · rw [h.take_concat]
    exact h.sent

theorem InStep.start (h : w.InStep origin ended) : (w.step .start).InStep origin ended := by
  simp only [step]
  split
  · rename_i writes hwrites
    rw [WriteQueue.start?] at hwrites
    split at hwrites
    · rename_i job rest hrunning hwaiting
      cases hwrites
      refine ⟨h.isOpen, h.issued, h.ended_le, ?_, h.results, h.copy, h.sent, h.answered, h.stored⟩
      rw [← h.queued, hrunning, hwaiting]
      rfl
    · cases hwrites
  · exact h

theorem InStep.running (h : w.InStep origin ended) {t : Ticket} {j : Job Site Unit}
    (hrunning : w.session.writes.running = some (t, j)) :
    ∃ x, t = ended ∧ j = job origin.id x ∧ w.handed[ended]? = some x ∧
      w.session.writes.waiting = (jobs origin.id w.handed).drop (ended + 1) := by
  have hqueued := h.queued
  rw [hrunning] at hqueued
  have hhead : (jobs origin.id w.handed)[ended]? = some (t, j) := by
    rw [← List.head?_drop, ← hqueued]
    rfl
  rw [getElem?_jobs, Option.map_eq_some_iff] at hhead
  obtain ⟨x, hx, heq⟩ := hhead
  obtain ⟨rfl, rfl⟩ := Prod.mk.inj heq
  refine ⟨x, rfl, rfl, hx, ?_⟩
  rw [← List.tail_drop, ← hqueued]
  rfl

/-- The end of the running job. Its call, if it makes one, is the next action that was handed in. -/
theorem InStep.finish (h : w.InStep origin ended) {site : Site} {call : Option (Action × Except SheetError Sheet)}
    (hx : w.handed[ended]? = some x)
    (hwaiting : w.session.writes.waiting = (jobs origin.id w.handed).drop (ended + 1))
    (hcall : call.map (·.1) = x) (hanswer : ∀ c ∈ call, ∃ next, c.2 = .ok next)
    (hstored : ∃ s, site.store.sheets.find? origin.id = some s ∧
      origin.Mirrors ((w.calls ++ call.toList).map (·.1)) s) :
    InStep origin (ended + 1)
      { w with
        session := { w.session with writes := w.session.writes.finish ended (.settled (.ok ())) }
        site := site
        calls := w.calls ++ call.toList } := by
  obtain ⟨hlt, -⟩ := List.getElem?_eq_some_iff.mp hx
  refine ⟨WriteQueue.isOpen_finish.trans h.isOpen, WriteQueue.issued_finish.trans h.issued, hlt, ?_, ?_,
    h.copy, ?_, ?_, hstored⟩
  · rw [WriteQueue.running_finish, WriteQueue.waiting_finish]
    exact hwaiting
  · intro r hr
    rcases WriteQueue.mem_results_finish hr with hr | rfl
    · exact ⟨Nat.lt_succ_of_lt (h.results r hr).1, (h.results r hr).2⟩
    · exact ⟨Nat.lt_succ_self ended, rfl⟩
  · rw [List.map_append, h.sent, List.take_add_one, hx, List.reduceOption_append, ← hcall]
    cases call <;> rfl
  · intro c hc
    rcases List.mem_append.mp hc with hc | hc
    · exact h.answered c hc
    · exact hanswer c (Option.mem_toList.mp hc)

/-- A turn ends the running job, and if it is a write, the store accepts it. -/
theorem InStep.turn (h : w.InStep origin ended) : ∃ ended, (w.step .turn).InStep origin ended := by
  simp only [step]
  cases hrunning : w.session.writes.running with
  | none =>
    refine ⟨ended, ?_⟩
    rw [WriteQueue.turn?, hrunning]
    exact h
  | some running =>
    obtain ⟨t, j⟩ := running
    obtain ⟨x, rfl, rfl, hx, hwaiting⟩ := h.running hrunning
    obtain ⟨s, hfind, hs⟩ := h.stored
    cases x with
    | none =>
      -- the end of a flush
      have hcall : w.call? = none := by
        rw [call?, hrunning, Option.bind_some, hx]
        rfl
      refine ⟨t + 1, ?_⟩
      rw [WriteQueue.turn?, hrunning, hcall]
      refine h.finish hx hwaiting rfl (by simp) ⟨s, hfind, ?_⟩
      rw [Option.toList_none, List.append_nil]
      exact hs
    | some a =>
      -- the store makes the next action of those that the session has accepted
      have hsplit : w.accepted = w.calls.map (·.1) ++ a :: (w.handed.drop (t + 1)).reduceOption := by
        obtain ⟨hlt, hget⟩ := List.getElem?_eq_some_iff.mp hx
        rw [h.sent, accepted]
        conv_lhs => rw [← List.take_append_drop t w.handed, List.drop_eq_getElem_cons hlt, hget]
        rw [List.reduceOption_append, List.reduceOption_cons_of_some]
      obtain ⟨u, hu, hmirrors⟩ := hs.accepts (hsplit ▸ h.copy) w.site.clock
      have hupdate : w.site.store.update origin.id a w.site.clock =
          .ok (u, ⟨w.site.store.sheets.insert origin.id u⟩) :=
        Store.update_ok.mpr ⟨s, hfind, hu, rfl⟩
      have hcall : w.call? = some (a, .ok u) := by
        rw [call?, hrunning, Option.bind_some, hx, h.copy.id]
        show some (a, (w.site.store.update origin.id a w.site.clock).map (·.1)) = _
        rw [hupdate]
        rfl
      refine ⟨t + 1, ?_⟩
      rw [WriteQueue.turn?, hrunning, hcall]
      simp only [job, Site.write, hupdate]
      refine h.finish hx hwaiting rfl (fun c hc => ?_) ⟨u, Dict.find?_insert_self _ _ _, ?_⟩
      · cases hc
        exact ⟨u, rfl⟩
      · rw [List.map_append]
        exact hmirrors

/-- **Every event keeps session and store in step**, as long as it spares the sheet. -/
theorem InStep.step (h : w.InStep origin ended) {e : Event} (he : e.Spares origin.id) :
    ∃ ended, (w.step e).InStep origin ended := by
  cases e with
  | apply a now => exact ⟨ended, h.apply a now⟩
  | flush => exact ⟨ended, h.flush⟩
  | abandon t =>
    refine ⟨ended, h.isOpen, h.issued, h.ended_le, h.queued, ?_, h.copy, h.sent, h.answered, h.stored⟩
    intro r hr
    exact h.results r (List.mem_filter.mp hr).1
  | start => exact ⟨ended, h.start⟩
  | turn => exact h.turn
  | clock now =>
    exact ⟨ended, h.isOpen, h.issued, h.ended_le, h.queued, h.results, h.copy, h.sent, h.answered, h.stored⟩
  | other o =>
    obtain ⟨s, hfind, hs⟩ := h.stored
    obtain ⟨name, hname⟩ := Store.perform_spares he w.site.clock hfind
    exact ⟨ended, h.isOpen, h.issued, h.ended_le, h.queued, h.results, h.copy, h.sent, h.answered,
      _, hname, hs.rename name⟩

/-! ## Runs -/

theorem InStep.run (h : w.InStep origin ended) {events : List Event}
    (hspares : ∀ e ∈ events, e.Spares origin.id) : ∃ ended, (w.run events).InStep origin ended := by
  induction events generalizing w ended with
  | nil => exact ⟨ended, h⟩
  | cons e rest ih =>
    obtain ⟨ended', h'⟩ := h.step (hspares e List.mem_cons_self)
    exact ih h' fun e he => hspares e (List.mem_cons_of_mem _ he)

theorem inStep_opened {site : Site} {sheet : Sheet}
    (h : site.store.sheets.find? sheet.id = some sheet) : (opened (.new sheet) site).InStep sheet 0 :=
  ⟨rfl, rfl, Nat.le_refl 0, rfl, fun _ hr => absurd hr List.not_mem_nil, Sheet.mirrors_nil sheet, rfl,
    fun _ hc => absurd hc List.not_mem_nil, sheet, h, Sheet.mirrors_nil sheet⟩

theorem InStep.calls_eq (h : w.InStep origin ended) :
    w.calls.map (·.1) = w.accepted.take w.calls.length := by
  have hsplit : w.accepted = w.calls.map (·.1) ++ (w.handed.drop ended).reduceOption := by
    rw [h.sent, accepted, ← List.reduceOption_append, List.take_append_drop]
  rw [hsplit, List.take_left' (by rw [List.length_map])]

/-- If nothing but flushes was handed in since a job that is over, then all actions were sent. -/
theorem InStep.calls_eq_accepted (h : w.InStep origin ended) {t : Ticket} (ht : t < ended)
    (hlast : ∀ x ∈ w.handed.drop t, x = none) : w.calls.map (·.1) = w.accepted := by
  have hrest : (w.handed.drop ended).reduceOption = [] := by
    rw [List.reduceOption, List.filterMap_eq_nil_iff]
    intro x hx
    refine hlast x ?_
    have hdrop : w.handed.drop ended = (w.handed.drop t).drop (ended - t) := by
      rw [List.drop_drop, Nat.add_sub_cancel' (Nat.le_of_lt ht)]
    rw [hdrop] at hx
    exact List.mem_of_mem_drop hx
  rw [h.sent, accepted]
  conv_rhs => rw [← List.take_append_drop ended w.handed, List.reduceOption_append, hrest, List.append_nil]

/-- **Store and local copy converge.** A session is opened on a sheet of a store; then its actions, its
flushes, the moves of the worker and the operations of others come in any order, but nobody else touches
the sheet unless to rename it. At every moment the store has carried out a first part of the accepted
actions, all with success, and holds what they make of the opened sheet. Once a flush is over that no
accepted action has followed, the stored sheet agrees with the local one. -/
theorem run_converges {past : List (Stamp × Store.Operation)} {clock : Stamp} {id : String}
    {session : Session Site} {events : List Event}
    (hopen : (Site.mk (Store.empty.performAll past) clock).openSession id = .ok session)
    (hspares : ∀ e ∈ events, e.Spares id) :
    let w := (opened session ⟨Store.empty.performAll past, clock⟩).run events
    (w.calls.map (·.1) = w.accepted.take w.calls.length ∧ ∀ c ∈ w.calls, ∃ next, c.2 = .ok next) ∧
    (∀ now, ∃ stored replayed, w.site.store.get id = .ok stored ∧
      session.sheet.replay (w.accepted.take w.calls.length) now = .ok replayed ∧
      stored.SameContent replayed) ∧
    ∀ t r, w.session.writes.result? t = some r → (∀ x ∈ w.handed.drop t, x = none) → r = .ok () ∧
        ∃ stored, w.site.store.get id = .ok stored ∧ stored.id = w.session.sheet.id ∧
          stored.created = w.session.sheet.created ∧ stored.SameContent w.session.sheet := by
  obtain ⟨sheet, hget, hsession⟩ := bind_ok hopen
  cases hsession
  have hfind := Store.get_ok.mp hget
  obtain rfl : sheet.id = id := Store.keyed_performAll past id sheet hfind
  have hopened : (opened (.new sheet) ⟨Store.empty.performAll past, clock⟩).InStep sheet 0 := inStep_opened hfind
  obtain ⟨ended, h⟩ := hopened.run hspares
  intro w
  obtain ⟨stored, hstored, hmirrors⟩ := h.stored
  refine ⟨⟨h.calls_eq, h.answered⟩, fun now => ?_, fun t r hr hlast => ?_⟩
  · obtain ⟨replayed, hreplayed, hsame⟩ := hmirrors.content now
    rw [h.calls_eq] at hreplayed
    exact ⟨stored, replayed, Store.get_ok.mpr hstored, hreplayed, hsame⟩
  · obtain ⟨ht, hok⟩ := h.results _ (WriteQueue.mem_of_result? hr)
    rw [h.calls_eq_accepted ht hlast] at hmirrors
    obtain ⟨hid, hcreated, hsame⟩ := hmirrors.agree h.copy
    exact ⟨hok, stored, Store.get_ok.mpr hstored, hid, hcreated, hsame⟩

/-- A store with one empty sheet. -/
def tasksPast : List (Stamp × Store.Operation) :=
  [(default, .create "s" "Tasks")]

/-- A column and a row are added and a cell is filled, while others rename the sheet and make another
one; an action on a row that is not there is refused. At the end a flush is over. -/
def tasksEvents : List Event :=
  [.apply (.addColumn "c" "Name" "text") default, .apply (.addRow "r") default, .other (.rename "s" "Jobs"),
    .start, .turn, .apply (.updateCell "q" "c" "Ada") default, .apply (.updateCell "r" "c" "Ada") default,
    .other (.create "t" "Notes"), .flush, .start, .turn, .start, .other (.delete "t"), .turn, .start, .turn]

theorem run_converges_tasks : ∃ session,
    (Site.mk (Store.empty.performAll tasksPast) default).openSession "s" = .ok session ∧
      (∀ e ∈ tasksEvents, e.Spares "s") ∧
      let w := (opened session ⟨Store.empty.performAll tasksPast, default⟩).run tasksEvents
      w.session.writes.result? 3 = some (.ok ()) ∧ (∀ x ∈ w.handed.drop 3, x = none) ∧
        ∃ stored, w.site.store.get "s" = .ok stored ∧ stored.id = w.session.sheet.id ∧
          stored.created = w.session.sheet.created ∧ stored.SameContent w.session.sheet := by
  have hopen : (Site.mk (Store.empty.performAll tasksPast) default).openSession "s" =
      .ok (.new (Sheet.new "s" "Tasks" default)) := rfl
  have hspares : ∀ e ∈ tasksEvents, e.Spares "s" := by
    simp [tasksEvents, Event.Spares, Store.Operation.Spares]
  refine ⟨_, hopen, hspares, ?_⟩
  obtain ⟨-, -, hflush⟩ := run_converges hopen hspares
  intro w
  have hresult : w.session.writes.result? 3 = some (.ok ()) := rfl
  have hlast : ∀ x ∈ w.handed.drop 3, x = none := by
    intro x hx
    simpa using (show x ∈ [none] from hx)
  exact ⟨hresult, hlast, (hflush 3 _ hresult hlast).2⟩

end World

end Worksheet
