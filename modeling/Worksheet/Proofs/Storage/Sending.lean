import Worksheet.Proofs.Storage.Delivery
import Worksheet.Proofs.Storage.Replica
/-!
# Sessions and stores that may do anything

A session sends its actions to a store about which nothing is known. A call may be answered or refused, it may crash,
and it may do whatever it likes to the store, as may anyone else at any time.

* `Remote`: a store with the calls that it was asked for; `Remote.write` is the job that an action becomes;
* `Sending`, `Sending.Event`, `Sending.run`: a session at work, with a history of what was handed in;
* `Sending.locally`: what becomes of the local copy, where no store occurs;
* `Sending.Sends`: what every event keeps, the number of jobs that have had a turn being given;
* **`sends_in_order`**: the calls, the local copy and the flushes, for every run.
-/

namespace Worksheet

/-! ## Calls of a store -/

/-- A store, and the updates that it was asked for, each with the id of its sheet. -/
structure Remote (σ : Type) where
  store : σ
  calls : List (String × Action)

/-- What a session is told of the end of a call: only a crash comes through. -/
def JobEnd.unheard {ρ : Type} : JobEnd ρ → JobEnd Unit
  | settled _ => .settled (.ok ())
  | crashed => .crashed

namespace Job

variable {σ ρ : Type}

/-- The job, with something done right before it. -/
def first (f : σ → σ) : Job σ ρ → Job σ ρ
  | turn act next => turn (act ∘ f) next
  | last act => last (act ∘ f)

end Job

namespace Remote

variable {σ ρ : Type}

/-- The store changes. -/
def onStore (act : σ → σ) (r : Remote σ) : Remote σ :=
  { r with store := act r.store }

/-- The store is asked for an update. -/
def note (id : String) (a : Action) (r : Remote σ) : Remote σ :=
  { r with calls := r.calls ++ [(id, a)] }

/-- A call that is under way. Its outcome is dropped. -/
def away : Job σ ρ → Job (Remote σ) Unit
  | .turn act next => .turn (onStore act) (away next)
  | .last act => .last fun r => ({ r with store := (act r.store).1 }, (act r.store).2.unheard)

/-- Asks the store for an update, which then does what the call does. -/
def write (id : String) (a : Action) (call : Job σ Sheet) : Job (Remote σ) Unit :=
  (away call).first (note id a)

/-- The update of a site. -/
def update (id : String) (a : Action) : Job Site Sheet :=
  .last fun site =>
    match site.store.update id a site.clock with
    | .ok (sheet, store) => ({ site with store := store }, .settled (.ok sheet))
    | .error e => (site, .settled (.error e))

/-- With the update of a site as the call, a write does to the site what `Site.write` does. -/
theorem write_update (id : String) (a : Action) : ∃ act act', Site.write id a = .last act ∧
    write id a (update id a) = .last act' ∧
      ∀ r, (act' r).1.store = (act r.store).1 ∧ (act' r).2 = (act r.store).2 := by
  refine ⟨_, _, rfl, rfl, fun r => ?_⟩
  simp only [Function.comp_apply, note]
  cases r.store.store.update id a r.store.clock <;> exact ⟨rfl, rfl⟩

end Remote

/-! ## Sessions at work -/

/-- A session at work, and what was handed in to its queue. -/
structure Sending (σ : Type) where
  sheet : Sheet
  course : Course (Remote σ) Unit
  /-- Under each ticket the action of a write with the call that it makes, or nothing for a flush. -/
  handed : List (Option (Action × Job σ Sheet))

namespace Sending

variable {σ : Type}

/-- A session that has just been opened. -/
def opened (sheet : Sheet) (store : σ) : Sending σ :=
  ⟨sheet, .begin ⟨store, []⟩, []⟩

/-- The session. -/
def session (w : Sending σ) : Session (Remote σ) :=
  ⟨w.sheet, w.course.queue⟩

/-- The actions that the session has accepted, in order. -/
def accepted (w : Sending σ) : List Action :=
  w.handed.reduceOption.map (·.1)

/-- The updates that the store was asked for, in order. -/
def calls (w : Sending σ) : List (String × Action) :=
  w.course.state.calls

/-- What can happen next. -/
inductive Event (σ : Type)
  /-- The session is given an action. If it accepts the action, the update of the store does what the call does. -/
  | apply (a : Action) (now : Stamp) (call : Job σ Sheet)
  /-- The session is asked for a flush. -/
  | flush
  /-- Nobody waits any longer for the result of a ticket. -/
  | abandon (t : Ticket)
  /-- The worker starts on the oldest job. -/
  | start
  /-- The running job takes a turn. -/
  | turn
  /-- The result of a job that has taken its last turn is told, and the worker goes on. -/
  | tell
  /-- The worker is stopped. -/
  | stop
  /-- Someone else changes the store. -/
  | outside (act : σ → σ)

/-- The session after an event. -/
def step (w : Sending σ) : Event σ → Sending σ
  | .apply a now call =>
    match w.session.apply (Remote.write · · call) a now with
    | .ok session =>
      ⟨session.sheet, w.course.run [.enqueue (Remote.write session.sheet.id a call), .abandon w.course.queue.issued],
        w.handed ++ [some (a, call)]⟩
    | .error _ => w
  | .flush => { w with course := w.course.step .flush, handed := w.handed ++ [none] }
  | .abandon t => { w with course := w.course.step (.abandon t) }
  | .start => { w with course := w.course.step .start }
  | .turn => { w with course := w.course.step .turn }
  | .tell => { w with course := w.course.step .tell }
  | .stop => { w with course := w.course.step .close }
  | .outside act => { w with course := w.course.step (.outside (Remote.onStore act)) }

/-- The session after some events. -/
def run (w : Sending σ) (events : List (Event σ)) : Sending σ :=
  events.foldl step w

/-- The job that was handed in. -/
def task (id : String) : Option (Action × Job σ Sheet) → Job (Remote σ) Unit
  | some (a, call) => Remote.write id a call
  | none => .done ()

variable {origin : Sheet} {w : Sending σ} {a : Action} {now : Stamp} {call : Job σ Sheet} {e : Event σ}
  {events later : List (Event σ)}

@[simp] theorem run_cons : w.run (e :: events) = (w.step e).run events :=
  rfl

theorem run_append : w.run (events ++ later) = (w.run events).run later :=
  List.foldl_append

theorem step_apply_error {x : SheetError} (h : w.sheet.reduce a now = .error x) : w.step (.apply a now call) = w := by
  have happly : w.session.apply (Remote.write · · call) a now = .error x := by
    rw [Session.apply, session, h]
    rfl
  rw [step, happly]

theorem step_apply_ok {sheet : Sheet} (h : w.sheet.reduce a now = .ok sheet) : w.step (.apply a now call) =
    ⟨sheet, w.course.run [.enqueue (Remote.write sheet.id a call), .abandon w.course.queue.issued],
      w.handed ++ [some (a, call)]⟩ := by
  have happly : w.session.apply (Remote.write · · call) a now = .ok ⟨sheet,
      (w.course.queue.enqueue (Remote.write sheet.id a call)).2.abandon
        (w.course.queue.enqueue (Remote.write sheet.id a call)).1⟩ := by
    rw [Session.apply, session, h]
    rfl
  rw [step, happly]

theorem session_step_apply {k : Session (Remote σ)}
    (h : w.session.apply (Remote.write · · call) a now = .ok k) : (w.step (.apply a now call)).session = k := by
  obtain ⟨sheet, hsheet, hk⟩ := bind_ok h
  cases hk
  have hticket : (w.course.queue.enqueue (Remote.write sheet.id a call)).1 = w.course.queue.issued := by
    cases hopen : w.course.queue.isOpen with
    | true => rw [WriteQueue.enqueue_of_isOpen hopen]
    | false => rw [WriteQueue.enqueue_of_closed hopen]
  rw [step_apply_ok hsheet]
  exact congrArg (fun t => (⟨sheet, (w.course.queue.enqueue (Remote.write sheet.id a call)).2.abandon t⟩ :
    Session (Remote σ))) hticket.symm

/-! ## The queue -/

/-- The course of the queue follows moves of its own. It is closed by a stop alone. -/
theorem course_step (w : Sending σ) (e : Event σ) :
    ∃ moves, (w.step e).course = w.course.run moves ∧ (.close ∈ moves → e = .stop) := by
  cases e with
  | apply a now call =>
    cases h : w.sheet.reduce a now with
    | error x => exact ⟨[], congrArg course (step_apply_error h), by simp⟩
    | ok sheet => exact ⟨_, congrArg course (step_apply_ok h), by simp⟩
  | flush => exact ⟨[.flush], rfl, by simp [Course.Move.flush]⟩
  | abandon t => exact ⟨[.abandon t], rfl, by simp⟩
  | start => exact ⟨[.start], rfl, by simp⟩
  | turn => exact ⟨[.turn], rfl, by simp⟩
  | tell => exact ⟨[.tell], rfl, by simp⟩
  | stop => exact ⟨[.close], rfl, fun _ => rfl⟩
  | outside act => exact ⟨[.outside (Remote.onStore act)], rfl, by simp⟩

theorem course_run (w : Sending σ) (events : List (Event σ)) :
    ∃ moves, (w.run events).course = w.course.run moves ∧ (.close ∈ moves → .stop ∈ events) := by
  induction events generalizing w with
  | nil => exact ⟨[], rfl, by simp⟩
  | cons e rest ih =>
    obtain ⟨moves, hmoves, hclose⟩ := course_step w e
    obtain ⟨more, hmore, hclose'⟩ := ih (w.step e)
    refine ⟨moves ++ more, ?_, fun h => ?_⟩
    · rw [Course.run_append, ← hmoves]
      exact hmore
    · rcases List.mem_append.mp h with h | h
      · exact hclose h ▸ List.mem_cons_self
      · exact List.mem_cons_of_mem _ (hclose' h)

theorem handed_prefix (w : Sending σ) (events : List (Event σ)) : w.handed <+: (w.run events).handed := by
  induction events generalizing w with
  | nil => exact List.prefix_refl _
  | cons e rest ih =>
    refine List.IsPrefix.trans ?_ (ih (w.step e))
    cases e with
    | apply a now call =>
      cases h : w.sheet.reduce a now with
      | error x => exact (step_apply_error h).symm ▸ List.prefix_refl _
      | ok sheet =>
        rw [step_apply_ok h]
        exact List.prefix_append _ _
    | flush => exact List.prefix_append _ _
    | _ => exact List.prefix_refl _

/-! ## The calls -/

variable {id : String} {n : Nat} {c c' : Course (Remote σ) Unit} {tasks : List (Option (Action × Job σ Sheet))}

/-- The calls that are made for the first ones of what was handed in. -/
def callsOf (id : String) (tasks : List (Option (Action × Job σ Sheet))) : List (String × Action) :=
  tasks.reduceOption.map fun x => (id, x.1)

theorem callsOf_append (id : String) (tasks more : List (Option (Action × Job σ Sheet))) :
    callsOf id (tasks ++ more) = callsOf id tasks ++ callsOf id more := by
  rw [callsOf, List.reduceOption_append, List.map_append]
  rfl

theorem callsOf_prefix (id : String) {more : List (Option (Action × Job σ Sheet))} (h : tasks <+: more) :
    callsOf id tasks <+: callsOf id more := by
  obtain ⟨rest, rfl⟩ := h
  rw [callsOf_append]
  exact List.prefix_append _ _

theorem map_accepted (w : Sending σ) (id : String) : w.accepted.map (id, ·) = callsOf id w.handed := by
  rw [accepted, callsOf, List.map_map]
  rfl

/-- The first `n` jobs have had a turn, and each has made its call by its first turn. The others are as they were
handed in. -/
structure Sends (id : String) (n : Nat) (c : Course (Remote σ) Unit)
    (tasks : List (Option (Action × Job σ Sheet))) : Prop where
  order : c.InOrder
  handed : c.handed = tasks.map (task id)
  le : n ≤ tasks.length
  calls : c.state.calls = callsOf id (tasks.take n)
  untouched : ∀ t job, (t, job) ∈ c.live → n ≤ t → c.handed[t]? = some job
  away : ∀ t job, (t, job) ∈ c.live → t < n → ∃ call : Job σ Sheet, job = Remote.away call
  ended : ∀ t e, .finished t (.ended e) ∈ c.log → t < n

/-- Nothing was handed in, and no job has had its first turn. -/
theorem Sends.keep (h : Sends id n c tasks) (horder : c'.InOrder) (hhanded : c'.handed = c.handed)
    (hcalls : c'.state.calls = c.state.calls)
    (hlive : ∀ t job, (t, job) ∈ c'.live → (t, job) ∈ c.live ∨ t < n ∧ ∃ call : Job σ Sheet, job = Remote.away call)
    (hlog : ∀ t e, .finished t (.ended e) ∈ c'.log → .finished t (.ended e) ∈ c.log ∨ t < n) :
    Sends id n c' tasks := by
  refine ⟨horder, hhanded.trans h.handed, h.le, hcalls.trans h.calls, fun t job ht hn => ?_, fun t job ht hn => ?_,
    fun t e he => (hlog t e he).elim (h.ended t e) fun ht => ht⟩
  · rcases hlive t job ht with ht | ⟨hlt, -⟩
    · rw [hhanded]
      exact h.untouched t job ht hn
    · exact absurd hlt (Nat.not_lt.mpr hn)
  · rcases hlive t job ht with ht | ⟨-, haway⟩
    · exact h.away t job ht hn
    · exact haway

theorem Sends.touch (h : Sends id n c tasks) {x : Option (Action × Job σ Sheet)} (hx : tasks[n]? = some x)
    (horder : c'.InOrder) (hhanded : c'.handed = c.handed)
    (hcalls : c'.state.calls = c.state.calls ++ callsOf id [x])
    (hlive : ∀ t job, (t, job) ∈ c'.live →
      (t, job) ∈ c.live ∧ t ≠ n ∨ t = n ∧ ∃ call : Job σ Sheet, job = Remote.away call)
    (hlog : ∀ t e, .finished t (.ended e) ∈ c'.log → .finished t (.ended e) ∈ c.log ∨ t = n) :
    Sends id (n + 1) c' tasks := by
  obtain ⟨hlt, -⟩ := List.getElem?_eq_some_iff.mp hx
  refine ⟨horder, hhanded.trans h.handed, hlt, ?_, fun t job ht hn => ?_, fun t job ht hn => ?_, fun t e he => ?_⟩
  · rw [hcalls, h.calls, List.take_add_one, hx, Option.toList_some, callsOf_append]
  · rcases hlive t job ht with ⟨ht, -⟩ | ⟨rfl, -⟩
    · rw [hhanded]
      exact h.untouched t job ht (Nat.le_of_succ_le hn)
    · exact absurd hn (Nat.not_succ_le_self t)
  · rcases hlive t job ht with ⟨ht, hne⟩ | ⟨-, haway⟩
    · exact h.away t job ht (Nat.lt_of_le_of_ne (Nat.le_of_lt_succ hn) hne)
    · exact haway
  · rcases hlog t e he with he | rfl
    · exact Nat.lt_succ_of_lt (h.ended t e he)
    · exact Nat.lt_succ_self t

/-- The move hands nothing in, lets no job have a turn and asks the store for nothing. -/
def Quiet : Course.Move (Remote σ) Unit → Prop
  | .enqueue _ | .turn => False
  | .outside act => ∀ r, (act r).calls = r.calls
  | .abandon _ | .start | .tell | .close => True

theorem Sends.quiet (h : Sends id n c tasks) {m : Course.Move (Remote σ) Unit} (hm : Quiet m) :
    Sends id n (c.step m) tasks := by
  have hmoved := c.step_moved m
  generalize c.step m = c' at hmoved
  have horder := h.order.moved hmoved
  cases hmoved with
  | accept | refuse | turn | last => exact hm.elim
  | abandon t => exact h.keep horder rfl rfl (fun t job ht => .inl ht) fun t e he => .inl he
  | start t job rest htold hrunning hwaiting =>
    refine h.keep horder rfl rfl (fun u j hu => .inl ?_) fun u e he => .inl (by simpa using he)
    simpa [Course.live, hrunning, hwaiting] using hu
  | tell t e huntold =>
    exact h.keep horder rfl rfl (fun u j hu => .inl (by simpa [Course.live] using hu)) fun u e he => .inl he
  | close =>
    refine h.keep horder rfl rfl (fun u j hu => by simp [Course.live] at hu) fun u e he => .inl ?_
    simpa [Course.mem_dropped] using he
  | outside act => exact h.keep horder rfl (hm _) (fun t job ht => .inl ht) fun t e he => .inl he
  | idle => exact h

theorem Sends.enqueue (h : Sends id n c tasks) (x : Option (Action × Job σ Sheet)) :
    Sends id n (c.step (.enqueue (task id x))) (tasks ++ [x]) := by
  have hmoved := c.step_moved (.enqueue (task id x))
  generalize c.step _ = c' at hmoved
  have horder := h.order.moved hmoved
  have hle : n ≤ (tasks ++ [x]).length := by
    rw [List.length_append]
    exact Nat.le_add_right_of_le h.le
  have hhanded : c.handed ++ [task id x] = (tasks ++ [x]).map (task id) := by rw [h.handed, List.map_append]; rfl
  have hcalls : c.state.calls = callsOf id ((tasks ++ [x]).take n) := by
    rw [List.take_append_of_le_length h.le, h.calls]
  have hold : ∀ t job, (t, job) ∈ c.live → n ≤ t → (c.handed ++ [task id x])[t]? = some job := fun t job ht hn => by
    have hjob := h.untouched t job ht hn
    obtain ⟨hlt, -⟩ := List.getElem?_eq_some_iff.mp hjob
    rw [List.getElem?_append_left hlt, hjob]
  cases hmoved with
  | accept job hopen =>
    have hissued : c.queue.issued = c.handed.length := h.order.tickets.issued
    have hlive : ∀ t job, (t, job) ∈ c.queue.running.toList ++ (c.queue.waiting ++ [(c.queue.issued, task id x)]) →
        (t, job) ∈ c.live ∨ t = c.handed.length ∧ job = task id x := fun t job ht => by
      rw [← List.append_assoc, List.mem_append, List.mem_singleton, Prod.mk.injEq, hissued] at ht
      exact ht
    refine ⟨horder, hhanded, hle, hcalls, fun t job ht hn => ?_, fun t job ht hn => ?_, h.ended⟩
    · rcases hlive t job ht with ht | ⟨rfl, rfl⟩
      · exact hold t job ht hn
      · exact List.getElem?_concat_length
    · rcases hlive t job ht with ht | ⟨rfl, -⟩
      · exact h.away t job ht hn
      · rw [h.handed, List.length_map] at hn
        exact absurd h.le (Nat.not_le.mpr hn)
  | refuse job hclosed =>
    exact ⟨horder, hhanded, hle, hcalls, hold, h.away, fun t e he => h.ended t e (by simpa using he)⟩
  | idle _ hm => exact hm.elim

/-- The job of a call that is under way, or of one that is still to be made, but for what the call does. -/
theorem Sends.running (h : Sends id n c tasks) {t : Ticket} {job : Job (Remote σ) Unit}
    (hrunning : c.queue.running = some (t, job)) :
    (∀ u rest, (u, rest) ∈ c.queue.waiting → u ≠ t) ∧
      (t < n ∧ (∃ call : Job σ Sheet, job = Remote.away call) ∨
        t = n ∧ ∃ x, tasks[n]? = some x ∧ job = task id x) := by
  have hlive : c.live = (t, job) :: c.queue.waiting := by simp [Course.live, hrunning]
  have hmem : (t, job) ∈ c.live := hlive ▸ List.mem_cons_self
  constructor
  · rintro u rest hu rfl
    have hnodup := (List.nodup_append.mp h.order.tickets.nodup).2.1
    rw [hlive, List.map_cons, List.nodup_cons] at hnodup
    exact hnodup.1 (List.mem_map.mpr ⟨_, hu, rfl⟩)
  · rcases Nat.lt_or_ge t n with hlt | hge
    · exact .inl ⟨hlt, h.away t job hmem hlt⟩
    · -- the jobs before it have ended, so each of them has had a turn
      have hopen := h.order.tickets.isOpen (List.ne_nil_of_mem hmem)
      have hle : t ≤ n := by
        by_contra hgt
        have hfinished : n ∈ c.finished := by
          rw [h.order.tickets.finished_eq hlive]
          exact List.mem_range.mpr (Nat.lt_of_not_le hgt)
        obtain ⟨fate, hfate⟩ := Course.mem_finished.mp hfinished
        obtain ⟨e, rfl⟩ := h.order.kept hopen n fate hfate
        exact Nat.lt_irrefl n (h.ended n e hfate)
      obtain rfl : t = n := Nat.le_antisymm hle hge
      have hjob := h.untouched t job hmem hge
      rw [h.handed, List.getElem?_map, Option.map_eq_some_iff] at hjob
      obtain ⟨x, hx, hjob⟩ := hjob
      exact .inr ⟨rfl, x, hx, hjob.symm⟩

/-- A turn that is not the last one of its job. The call is made if it is the first one. -/
theorem Sends.goes_on (h : Sends id n c tasks) {t : Ticket} {act : Remote σ → Remote σ} {next : Job (Remote σ) Unit}
    (hrunning : c.queue.running = some (t, .turn act next))
    (horder : Course.InOrder { c with state := act c.state, queue := { c.queue with running := some (t, next) } }) :
    ∃ n, Sends id n { c with state := act c.state, queue := { c.queue with running := some (t, next) } } tasks := by
  obtain ⟨hwaiting, hjob⟩ := h.running hrunning
  have hlive : ∀ u j, (u, j) ∈ (t, next) :: c.queue.waiting → u = t ∧ j = next ∨ (u, j) ∈ c.live ∧ u ≠ t := by
    intro u j hu
    rcases List.mem_cons.mp hu with hu | hu
    · exact .inl (Prod.mk.inj hu)
    · exact .inr ⟨List.mem_append_right _ hu, hwaiting u j hu⟩
  rcases hjob with ⟨hlt, call, hcall⟩ | ⟨rfl, x, hx, hcall⟩
  · cases call with
    | last act' => cases hcall
    | turn act' next' =>
      cases hcall
      refine ⟨n, h.keep horder rfl rfl (fun u j hu => ?_) fun u e he => .inl he⟩
      rcases hlive u j hu with ⟨rfl, rfl⟩ | ⟨hu, -⟩
      · exact .inr ⟨hlt, next', rfl⟩
      · exact .inl hu
  · rcases x with _ | ⟨a, call⟩
    · cases hcall
    · cases call with
      | last act' => cases hcall
      | turn act' next' =>
        cases hcall
        refine ⟨t + 1, h.touch hx horder rfl rfl (fun u j hu => ?_) fun u e he => .inl he⟩
        rcases hlive u j hu with ⟨rfl, rfl⟩ | hu
        · exact .inr ⟨rfl, next', rfl⟩
        · exact .inl hu

theorem Sends.ends (h : Sends id n c tasks) {t : Ticket} {act : Remote σ → Remote σ × JobEnd Unit}
    (hrunning : c.queue.running = some (t, .last act)) (horder : c'.InOrder) (hhanded : c'.handed = c.handed)
    (hstate : c'.state = (act c.state).1) (hqueue : c'.live = c.queue.waiting)
    (hlog : c'.log = c.log ++ [.finished t (.ended (act c.state).2)]) : ∃ n, Sends id n c' tasks := by
  obtain ⟨hwaiting, hjob⟩ := h.running hrunning
  have hlive : ∀ u j, (u, j) ∈ c'.live → (u, j) ∈ c.live ∧ u ≠ t := fun u j hu => by
    rw [hqueue] at hu
    exact ⟨List.mem_append_right _ hu, hwaiting u j hu⟩
  have hended : ∀ u e, .finished u (.ended e) ∈ c'.log → .finished u (.ended e) ∈ c.log ∨ u = t := fun u e he => by
    rw [hlog] at he
    rcases List.mem_append.mp he with he | he
    · exact .inl he
    · cases List.mem_singleton.mp he
      exact .inr rfl
  rcases hjob with ⟨hlt, call, hcall⟩ | ⟨rfl, x, hx, hcall⟩
  · cases call with
    | turn act' next' => cases hcall
    | last act' =>
      cases hcall
      exact ⟨n, h.keep horder hhanded (by rw [hstate]) (fun u j hu => .inl (hlive u j hu).1)
        fun u e he => (hended u e he).imp_right fun hu : u = t => hu ▸ hlt⟩
  · refine ⟨t + 1, h.touch hx horder hhanded ?_ (fun u j hu => .inl (hlive u j hu)) hended⟩
    rw [hstate]
    rcases x with _ | ⟨a, call⟩
    · cases hcall
      exact (List.append_nil _).symm
    · cases call with
      | turn act' next' => cases hcall
      | last act' =>
        cases hcall
        rfl

theorem Sends.turn (h : Sends id n c tasks) : ∃ n, Sends id n (c.step .turn) tasks := by
  have hmoved := c.step_moved .turn
  generalize c.step .turn = c' at hmoved
  have horder := h.order.moved hmoved
  cases hmoved with
  | turn t act next hrunning => exact h.goes_on hrunning horder
  | last t act hrunning => exact h.ends hrunning horder rfl rfl rfl rfl
  | idle => exact ⟨n, h⟩

theorem Sends.step (h : Sends id n w.course w.handed) (hid : w.sheet.id = id) (e : Event σ) :
    (∃ n, Sends id n (w.step e).course (w.step e).handed) ∧ (w.step e).sheet.id = id := by
  cases e with
  | apply a now call =>
    cases hreduce : w.sheet.reduce a now with
    | error x =>
      rw [step_apply_error hreduce]
      exact ⟨⟨n, h⟩, hid⟩
    | ok sheet =>
      have hsheet : sheet.id = id := (Sheet.reduce_header hreduce).1.trans hid
      rw [step_apply_ok hreduce]
      exact ⟨⟨n, hsheet ▸ (h.enqueue (some (a, call))).quiet (m := .abandon _) trivial⟩, hsheet⟩
  | flush => exact ⟨⟨n, h.enqueue none⟩, hid⟩
  | turn => exact ⟨h.turn, hid⟩
  | abandon t => exact ⟨⟨n, h.quiet (m := .abandon t) trivial⟩, hid⟩
  | start => exact ⟨⟨n, h.quiet (m := .start) trivial⟩, hid⟩
  | tell => exact ⟨⟨n, h.quiet (m := .tell) trivial⟩, hid⟩
  | stop => exact ⟨⟨n, h.quiet (m := .close) trivial⟩, hid⟩
  | outside act => exact ⟨⟨n, h.quiet (m := .outside (Remote.onStore act)) fun _ => rfl⟩, hid⟩

theorem sends_run (origin : Sheet) (store : σ) (events : List (Event σ)) :
    ∃ n, Sends origin.id n ((opened origin store).run events).course ((opened origin store).run events).handed := by
  have key : ∀ w : Sending σ, (∃ n, Sends origin.id n w.course w.handed) → w.sheet.id = origin.id →
      ∃ n, Sends origin.id n (w.run events).course (w.run events).handed := by
    induction events with
    | nil => exact fun w h _ => h
    | cons e rest ih =>
      rintro w ⟨n, h⟩ hid
      obtain ⟨hstep, hid'⟩ := h.step hid e
      exact ih _ hstep hid'
  have horder := Course.inOrder_run (ρ := Unit) (⟨store, []⟩ : Remote σ) []
  refine key _ ⟨0, horder, rfl, Nat.le_refl 0, rfl, ?_, ?_, ?_⟩ rfl
  · exact fun t job ht => absurd ht List.not_mem_nil
  · exact fun t job ht => absurd ht List.not_mem_nil
  · exact fun t e he => absurd he List.not_mem_nil

theorem Sends.calls_prefix (h : Sends id n w.course w.handed) : w.calls <+: w.accepted.map (id, ·) := by
  rw [map_accepted, Sending.calls, h.calls]
  exact callsOf_prefix id (List.take_prefix n w.handed)

/-! ## The local copy -/

/-- The action that the session is given. -/
def Event.asked? : Event σ → Option (Action × Stamp)
  | apply a now _ => some (a, now)
  | _ => none

/-- The copy and the accepted actions after another action is given. -/
def give (copy : Sheet × List Action) (x : Action × Stamp) : Sheet × List Action :=
  match copy.1.reduce x.1 x.2 with
  | .ok sheet => (sheet, copy.2 ++ [x.1])
  | .error _ => copy

/-- The copy and the accepted actions after some actions are given. -/
def locally (sheet : Sheet) (asked : List (Action × Stamp)) : Sheet × List Action :=
  asked.foldl give (sheet, [])

theorem accepted_concat (w : Sending σ) (sheet : Sheet) (c : Course (Remote σ) Unit)
    (x : Option (Action × Job σ Sheet)) :
    accepted ⟨sheet, c, w.handed ++ [x]⟩ = w.accepted ++ (x.map (·.1)).toList := by
  rw [accepted, accepted, List.reduceOption_append, List.map_append]
  cases x <;> rfl

theorem accepted_step_apply {k : Session (Remote σ)}
    (h : w.session.apply (Remote.write · · call) a now = .ok k) :
    (w.step (.apply a now call)).accepted = w.accepted ++ [a] := by
  obtain ⟨sheet, hsheet, -⟩ := bind_ok h
  rw [step_apply_ok hsheet, accepted_concat]
  rfl

theorem copy_step (w : Sending σ) (e : Event σ) :
    ((w.step e).sheet, (w.step e).accepted) = e.asked?.toList.foldl give (w.sheet, w.accepted) := by
  cases e with
  | apply a now call =>
    change _ = give (w.sheet, w.accepted) (a, now)
    cases h : w.sheet.reduce a now with
    | error x => rw [step_apply_error h, give, h]
    | ok sheet => rw [step_apply_ok h, give, h, accepted_concat]; rfl
  | flush => exact congrArg (w.sheet, ·) ((accepted_concat w w.sheet _ none).trans (List.append_nil _))
  | _ => rfl

/-- **The copy depends on nothing but the actions that the session is given.** -/
theorem copy_run (w : Sending σ) (events : List (Event σ)) :
    ((w.run events).sheet, (w.run events).accepted) =
      (events.filterMap Event.asked?).foldl give (w.sheet, w.accepted) := by
  induction events generalizing w with
  | nil => rfl
  | cons e rest ih =>
    rw [run_cons, ih, copy_step, ← List.foldl_append]
    cases e <;> rfl

/-- The copy is what the accepted actions make of the sheet, whenever they are replayed, but for the last stamp. -/
theorem replay_locally (sheet : Sheet) (asked : List (Action × Stamp)) (now : Stamp) :
    ∃ t, sheet.replay (locally sheet asked).2 now = .ok t ∧
      { (locally sheet asked).1 with updated := t.updated } = t := by
  induction asked using List.reverseRecOn with
  | nil => exact ⟨sheet, Sheet.replay_nil.mpr rfl, rfl⟩
  | append_singleton asked x ih =>
    obtain ⟨t, ht, hcopy⟩ := ih
    have hconcat : locally sheet (asked ++ [x]) = give (locally sheet asked) x := List.foldl_append
    rw [hconcat, give]
    cases h : (locally sheet asked).1.reduce x.1 x.2 with
    | error e => exact ⟨t, ht, hcopy⟩
    | ok next =>
      obtain ⟨u, hu, hnext⟩ := Sheet.reduce_restamped hcopy h now
      exact ⟨u, Sheet.replay_append.mpr ⟨t, ht, Sheet.replay_cons.mpr ⟨u, hu, Sheet.replay_nil.mpr rfl⟩⟩, hnext⟩

/-! ## All together -/

/-- A flush comes to an end after the calls of all actions that were accepted before it, and succeeds. -/
theorem flush_run (origin : Sheet) (store : σ) {before after : List (Event σ)} {r : Except SheetError Unit}
    (hstop : .stop ∉ before ++ .flush :: after)
    (hresult : ((opened origin store).run (before ++ .flush :: after)).course.queue.result?
      ((opened origin store).run before).course.queue.issued = some r) :
    r = .ok () ∧ ((opened origin store).run before).accepted.map (origin.id, ·) <+:
      ((opened origin store).run (before ++ .flush :: after)).calls := by
  obtain ⟨n₀, h₀⟩ := sends_run origin store before
  obtain ⟨n, h⟩ := sends_run origin store (before ++ .flush :: after)
  obtain ⟨moves, hmoves, hclose⟩ := course_run (opened origin store) (before ++ .flush :: after)
  have hhanded : ((opened origin store).run before).handed ++ [none] <+:
      ((opened origin store).run (before ++ .flush :: after)).handed := by
    rw [run_append, run_cons]
    exact handed_prefix (((opened origin store).run before).step .flush) after
  have hissued : ((opened origin store).run before).course.queue.issued =
      ((opened origin store).run before).handed.length := by
    rw [h₀.order.tickets.issued, h₀.handed, List.length_map]
  rw [hissued] at hresult
  generalize (opened origin store).run before = w₀ at hhanded hresult ⊢
  generalize (opened origin store).run (before ++ .flush :: after) = w at h hmoves hhanded hresult ⊢
  -- the job of the flush is over, and by then it has had its turn
  have hanswered : w.course.Answered := hmoves ▸ Course.answered_run _ moves
  obtain ⟨-, -, fate, hfate, rfl⟩ := (hanswered.results _ r).mp (WriteQueue.mem_of_result? hresult)
  have hdone : w.course.handed[w₀.handed.length]? = some (.done ()) := by
    obtain ⟨rest, hrest⟩ := hhanded
    rw [h.handed, List.getElem?_map, ← hrest, List.append_assoc, List.getElem?_append_right (Nat.le_refl _),
      Nat.sub_self]
    rfl
  rw [hmoves] at hdone hfate
  rcases ((Course.mem_log_run _ moves).mp hfate).done hdone with rfl | ⟨-, hclosed⟩
  · have hlt := h.ended _ _ (hmoves ▸ hfate)
    refine ⟨rfl, ?_⟩
    rw [map_accepted, calls, h.calls]
    refine callsOf_prefix _ (List.prefix_take_iff.mpr ⟨?_, Nat.le_of_lt hlt⟩)
    exact (List.prefix_append _ _).trans hhanded
  · exact absurd (hclose hclosed) hstop

/-- **Whatever the store does, it is asked for the accepted actions in their order.** At any moment the calls so far
are a first part of the accepted actions, each made once and for the sheet of the session. An action that is accepted
makes of the session what `Session.apply` makes of it, and a refused one leaves it as it is. What becomes of the calls does not show in the local copy: the copy depends on the given actions
alone, and but for the last stamp it is what the accepted ones make of the opened sheet. As long as the worker is not
stopped, a flush can only succeed, and when it does, all actions accepted before it have had their calls. -/
theorem sends_in_order (origin : Sheet) (store : σ) (events : List (Event σ)) :
    let w := (opened origin store).run events
    w.calls <+: w.accepted.map (origin.id, ·) ∧
    (∀ a now call k, w.session.apply (Remote.write · · call) a now = .ok k →
      (w.step (.apply a now call)).session = k ∧ (w.step (.apply a now call)).accepted = w.accepted ++ [a]) ∧
    (∀ a now call x, w.sheet.reduce a now = .error x →
      w.session.apply (Remote.write · · call) a now = .error x ∧ w.step (.apply a now call) = w) ∧
    (w.sheet, w.accepted) = locally origin (events.filterMap Event.asked?) ∧
    (∀ now, ∃ t, origin.replay w.accepted now = .ok t ∧ { w.sheet with updated := t.updated } = t) ∧
    ∀ before after r, events = before ++ .flush :: after → .stop ∉ events →
      w.course.queue.result? ((opened origin store).run before).course.queue.issued = some r →
      r = .ok () ∧ ((opened origin store).run before).accepted.map (origin.id, ·) <+: w.calls := by
  intro w
  obtain ⟨n, h⟩ := sends_run origin store events
  have hcopy : (w.sheet, w.accepted) = locally origin (events.filterMap Event.asked?) := copy_run _ events
  refine ⟨h.calls_prefix, fun a now call k hk => ⟨session_step_apply hk, accepted_step_apply hk⟩,
    fun a now call x hx => ⟨?_, step_apply_error hx⟩, hcopy, fun now => ?_, ?_⟩
  · rw [Session.apply, session, hx]
    rfl
  · obtain ⟨t, ht, hstamp⟩ := replay_locally origin (events.filterMap Event.asked?) now
    rw [← hcopy] at ht hstamp
    exact ⟨t, ht, hstamp⟩
  · rintro before after r rfl hstop hresult
    exact flush_run origin store hstop hresult

/-- One call crashes, and one is refused after the store was changed by someone else. The second action is not
accepted. -/
def troubled : List (Event Nat) :=
  [.apply (.addRow "r") default (.last fun s => (s, .crashed)), .apply (.addRow "r") default (.done default),
    .apply (.addRow "q") default (.turn (· + 1) (.last fun s => (s, .settled (.error (.sheetNotFound "s"))))), .flush,
    .start, .turn, .tell, .start, .turn, .outside fun _ => 0, .turn, .tell, .start, .turn, .tell]

theorem sends_in_order_troubled :
    let w := (opened (Sheet.new "s" "Tasks" default) 0).run troubled
    w.sheet.reduce (.addRow "r") default = .error (.duplicateRow "r") ∧
      w.step (.apply (.addRow "r") default (.done default)) = w ∧
      (∃ k, w.session.apply (Remote.write · · (.done default)) (.addRow "s") default = .ok k ∧
        (w.step (.apply (.addRow "s") default (.done default))).session = k) ∧
      .stop ∉ troubled ∧ w.course.queue.result? 2 = some (.ok ()) ∧
      [("s", .addRow "r"), ("s", .addRow "q")] <+: w.calls := by
  intro w
  have hrefused : w.sheet.reduce (.addRow "r") default = .error (.duplicateRow "r") := rfl
  have hstop : .stop ∉ troubled := by simp [troubled]
  have hflushed : w.course.queue.result? 2 = some (.ok ()) := rfl
  obtain ⟨-, hacceptance, hrefusal, -, -, hflush⟩ := sends_in_order (Sheet.new "s" "Tasks" default) 0 troubled
  exact ⟨hrefused, (hrefusal _ _ _ _ hrefused).2, ⟨_, rfl, (hacceptance _ _ _ _ rfl).1⟩, hstop, hflushed,
    (hflush (troubled.take 3) (troubled.drop 4) _ rfl hstop hflushed).2⟩

end Sending

end Worksheet
