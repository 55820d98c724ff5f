import Mathlib.Data.List.Induction
import Worksheet.Proofs.Storage.Queue
/-!
# Courses of a queue of writes

A queue of writes at work. Those who hand in jobs, the worker, the job that is running and whatever else
there is make their moves in any order. The last turn of a job and the telling of its result are two moves,
so that others may come in between.

* `Fate`, `Incident`: what becomes of jobs;
* `Course`, `Course.Move`, `Course.step`, `Course.run`: a queue at work, with a log of incidents;
* `Course.Moved`, `step_moved`: what a move can do, one constructor for each case;
* **`worksTo_await`**: a thread that waits for a result makes a run of such moves.
-/

namespace Worksheet

variable {σ ρ : Type}

/-- How a job comes to be over. -/
inductive Fate (ρ : Type)
  /-- It has taken its last turn. -/
  | ended (e : JobEnd ρ)
  /-- It was dropped when the worker was stopped. -/
  | discarded
  /-- It was handed in when there was no worker any more. -/
  | refused

/-- What is told of a job that is over. -/
def Fate.result : Fate ρ → Except SheetError ρ
  | ended e => e.result
  | discarded => .error .queueClosed
  | refused => .error .queueClosed

/-- Something that happens to a job. -/
inductive Incident (σ ρ : Type)
  | started (t : Ticket) (job : Job σ ρ)
  | finished (t : Ticket) (fate : Fate ρ)

namespace Incident

@[simp] def started? : Incident σ ρ → Option (Ticket × Job σ ρ)
  | started t job => some (t, job)
  | finished _ _ => none

@[simp] def finished? : Incident σ ρ → Option Ticket
  | started _ _ => none
  | finished t _ => some t

/-- All those jobs are dropped. -/
def dropped (jobs : List (Ticket × Job σ ρ)) : List (Incident σ ρ) :=
  jobs.map fun job => .finished job.1 .discarded

end Incident

/-- The last thing that a job does. -/
def Job.lastAct : Job σ ρ → σ → σ × JobEnd ρ
  | turn _ next => next.lastAct
  | last act => act

/-- A queue at work. -/
structure Course (σ ρ : Type) where
  /-- What the jobs work on. -/
  state : σ
  queue : WriteQueue σ ρ
  /-- A job that has taken its last turn, and whose result is still to be told. -/
  untold : Option (Ticket × JobEnd ρ)
  /-- The jobs that were handed in, in order. -/
  handed : List (Job σ ρ)
  /-- The incidents so far, the oldest first. -/
  log : List (Incident σ ρ)

namespace Course

/-- The beginning, with a new queue. -/
def begin (s : σ) : Course σ ρ :=
  ⟨s, .new, none, [], []⟩

/-- The jobs that were started, in order. -/
def started (c : Course σ ρ) : List (Ticket × Job σ ρ) :=
  c.log.filterMap Incident.started?

/-- The tickets of the jobs that are over, in order. -/
def finished (c : Course σ ρ) : List Ticket :=
  c.log.filterMap Incident.finished?

/-- The jobs that are not over, in order. -/
def live (c : Course σ ρ) : List (Ticket × Job σ ρ) :=
  c.queue.running.toList ++ c.queue.waiting

/-- What can happen next. -/
inductive Move (σ ρ : Type)
  | enqueue (job : Job σ ρ)
  /-- Nobody waits any longer for the result of a ticket. -/
  | abandon (t : Ticket)
  /-- The worker starts on the oldest job. -/
  | start
  /-- The running job takes a turn. After its last one it counts as pending no longer. -/
  | turn
  /-- The result of a job that has taken its last turn is told, and the worker goes on. -/
  | tell
  /-- The worker is stopped, and all jobs are dropped. -/
  | close
  /-- Something else changes what the jobs work on. -/
  | outside (act : σ → σ)

/-- A move of the worker or of the running job. -/
def Move.IsWork : Move σ ρ → Prop
  | start | turn | tell => True
  | _ => False

@[simp] def Move.job? : Move σ ρ → Option (Job σ ρ)
  | enqueue job => some job
  | _ => none

/-- A flush hands in a job that does nothing. -/
def Move.flush [Inhabited ρ] : Move σ ρ :=
  .enqueue (.done default)

/-- What a move leads to. A move that is not possible changes nothing. -/
def step (c : Course σ ρ) : Move σ ρ → Course σ ρ
  | .enqueue job =>
    { c with
      queue := (c.queue.enqueue job).2
      handed := c.handed ++ [job]
      log := if c.queue.isOpen then c.log else c.log ++ [.finished c.queue.issued .refused] }
  | .abandon t => { c with queue := c.queue.abandon t }
  | .start =>
    match c.untold, c.queue.start? with
    | none, some queue =>
      { c with
        queue := queue
        log := c.log ++ queue.running.toList.map fun job => .started job.1 job.2 }
    | _, _ => c
  | .turn =>
    match c.queue.running with
    | none => c
    | some (t, .turn act next) =>
      { c with state := act c.state, queue := { c.queue with running := some (t, next) } }
    | some (t, .last act) =>
      { c with
        state := (act c.state).1
        queue := c.queue.leave
        untold := some (t, (act c.state).2)
        log := c.log ++ [.finished t (.ended (act c.state).2)] }
  | .tell =>
    match c.untold with
    | none => c
    | some (t, e) => { c with queue := c.queue.deliver t e.result, untold := none }
  | .close =>
    { c with
      queue := c.queue.close
      log := c.log ++ Incident.dropped c.live }
  | .outside act => { c with state := act c.state }

/-- The course after some moves. -/
def run (c : Course σ ρ) (moves : List (Move σ ρ)) : Course σ ρ :=
  moves.foldl step c

/-- Jobs with their tickets, which are given out in order. -/
def numbered (jobs : List (Job σ ρ)) : List (Ticket × Job σ ρ) :=
  jobs.mapIdx Prod.mk

variable {c c' : Course σ ρ} {m : Move σ ρ} {moves later : List (Move σ ρ)} {jobs : List (Job σ ρ)}

@[simp] theorem run_nil : c.run [] = c :=
  rfl

@[simp] theorem run_cons : c.run (m :: moves) = (c.step m).run moves :=
  rfl

theorem run_append : c.run (moves ++ later) = (c.run moves).run later :=
  List.foldl_append

theorem numbered_concat (job : Job σ ρ) : numbered (jobs ++ [job]) = numbered jobs ++ [(jobs.length, job)] :=
  List.mapIdx_concat

theorem mem_numbered {t : Ticket} {job : Job σ ρ} : (t, job) ∈ numbered jobs ↔ jobs[t]? = some job := by
  rw [numbered, List.mem_iff_getElem?]
  constructor
  · rintro ⟨n, hn⟩
    rw [List.getElem?_mapIdx, Option.map_eq_some_iff] at hn
    obtain ⟨job', hget, heq⟩ := hn
    obtain ⟨rfl, rfl⟩ := Prod.mk.inj heq
    exact hget
  · intro h
    exact ⟨t, by rw [List.getElem?_mapIdx, h]; rfl⟩

/-- What every move keeps, a run keeps. -/
theorem run_induction {P : Course σ ρ → Prop} (hstep : ∀ c m, P c → P (c.step m)) (h : P c)
    (moves : List (Move σ ρ)) : P (c.run moves) := by
  induction moves generalizing c with
  | nil => exact h
  | cons m moves ih => exact ih (hstep c m h)

/-! ## What a move can do -/

/-- The courses that a move can lead to. -/
inductive Moved (c : Course σ ρ) : Move σ ρ → Course σ ρ → Prop
  | accept (job : Job σ ρ) (hopen : c.queue.isOpen = true) : Moved c (.enqueue job)
      { c with
        queue := { c.queue with
          issued := c.queue.issued + 1
          watched := c.queue.issued :: c.queue.watched
          waiting := c.queue.waiting ++ [(c.queue.issued, job)]
          pending := c.queue.pending + 1 }
        handed := c.handed ++ [job] }
  | refuse (job : Job σ ρ) (hclosed : c.queue.isOpen = false) : Moved c (.enqueue job)
      { c with
        queue := { c.queue with
          issued := c.queue.issued + 1
          watched := c.queue.issued :: c.queue.watched
          results := (c.queue.issued, .error .queueClosed) :: c.queue.results }
        handed := c.handed ++ [job]
        log := c.log ++ [.finished c.queue.issued .refused] }
  | abandon (t : Ticket) : Moved c (.abandon t) { c with queue := c.queue.abandon t }
  | start (t : Ticket) (job : Job σ ρ) (rest : List (Ticket × Job σ ρ)) (htold : c.untold = none)
      (hrunning : c.queue.running = none) (hwaiting : c.queue.waiting = (t, job) :: rest) : Moved c .start
      { c with
        queue := { c.queue with running := some (t, job), waiting := rest }
        log := c.log ++ [.started t job] }
  | turn (t : Ticket) (act : σ → σ) (next : Job σ ρ) (hrunning : c.queue.running = some (t, .turn act next)) :
      Moved c .turn { c with state := act c.state, queue := { c.queue with running := some (t, next) } }
  | last (t : Ticket) (act : σ → σ × JobEnd ρ) (hrunning : c.queue.running = some (t, .last act)) :
      Moved c .turn
        { c with
          state := (act c.state).1
          queue := c.queue.leave
          untold := some (t, (act c.state).2)
          log := c.log ++ [.finished t (.ended (act c.state).2)] }
  | tell (t : Ticket) (e : JobEnd ρ) (huntold : c.untold = some (t, e)) :
      Moved c .tell { c with queue := c.queue.deliver t e.result, untold := none }
  | close : Moved c .close
      { c with queue := c.queue.close, log := c.log ++ Incident.dropped c.live }
  | outside (act : σ → σ) : Moved c (.outside act) { c with state := act c.state }
  | idle (m : Move σ ρ) (hm : m.IsWork) : Moved c m c

theorem step_moved (c : Course σ ρ) (m : Move σ ρ) : Moved c m (c.step m) := by
  cases m with
  | enqueue job =>
    cases hopen : c.queue.isOpen with
    | true =>
      rw [step, WriteQueue.enqueue_of_isOpen hopen, if_pos hopen]
      exact .accept job hopen
    | false =>
      rw [step, WriteQueue.enqueue_of_closed hopen, if_neg (by simp [hopen])]
      exact .refuse job hopen
  | abandon t => exact .abandon t
  | start =>
    rw [step]
    split
    · rename_i queue htold hstart
      rw [WriteQueue.start?] at hstart
      split at hstart
      · rename_i job rest hrunning hwaiting
        cases hstart
        exact .start job.1 job.2 rest htold hrunning hwaiting
      · cases hstart
    · exact .idle _ trivial
  | turn =>
    rw [step]
    split
    · exact .idle _ trivial
    · exact .turn _ _ _ ‹_›
    · exact .last _ _ ‹_›
  | tell =>
    rw [step]
    split
    · exact .idle _ trivial
    · exact .tell _ _ ‹_›
  | close => exact .close
  | outside act => exact .outside act

theorem handed_step (c : Course σ ρ) (m : Move σ ρ) : (c.step m).handed = c.handed ++ m.job?.toList := by
  have hm := c.step_moved m
  generalize c.step m = c' at hm
  cases hm with
  | idle m hm => cases m <;> simp_all [Move.IsWork]
  | _ => simp

theorem handed_run (c : Course σ ρ) (moves : List (Move σ ρ)) :
    (c.run moves).handed = c.handed ++ moves.filterMap Move.job? := by
  induction moves generalizing c with
  | nil => simp
  | cons m moves ih =>
    rw [run_cons, ih, handed_step, List.append_assoc]
    cases m <;> rfl

/-- The jobs that a run from the beginning has handed in are those of its moves. -/
theorem handed_run_begin (s : σ) (moves : List (Move σ ρ)) : ((begin s).run moves).handed = moves.filterMap Move.job? :=
  handed_run (begin s) moves

theorem isOpen_step : (c.step m).queue.isOpen = true ↔ c.queue.isOpen = true ∧ m ≠ .close := by
  have hm := c.step_moved m
  generalize c.step m = c' at hm
  cases hm with
  | idle m hm => cases m <;> simp_all [Move.IsWork]
  | _ => simp_all [WriteQueue.abandon]

theorem isOpen_run : (c.run moves).queue.isOpen = true ↔ c.queue.isOpen = true ∧ .close ∉ moves := by
  induction moves generalizing c with
  | nil => simp
  | cons m moves ih =>
    rw [run_cons, ih, isOpen_step, List.mem_cons, not_or, and_assoc, ne_comm]

theorem isOpen_run_begin {s : σ} : ((begin s).run moves).queue.isOpen = false ↔ .close ∈ moves := by
  rw [← Bool.not_eq_true, isOpen_run]
  simp [begin, WriteQueue.new]

/-! ## One thread -/

/-- Work alone leads from one course to the other, and every result is told. -/
def WorksTo (c c' : Course σ ρ) : Prop :=
  c'.untold = none ∧ ∃ moves : List (Move σ ρ), (∀ m ∈ moves, m.IsWork) ∧ c.run moves = c'

theorem WorksTo.refl (h : c.untold = none) : c.WorksTo c :=
  ⟨h, [], by simp, rfl⟩

theorem WorksTo.trans {c'' : Course σ ρ} (h : c.WorksTo c') (h' : c'.WorksTo c'') : c.WorksTo c'' := by
  obtain ⟨-, moves, hmoves, rfl⟩ := h
  obtain ⟨htold, later, hlater, rfl⟩ := h'
  refine ⟨htold, moves ++ later, ?_, run_append⟩
  intro m hm
  exact (List.mem_append.mp hm).elim (hmoves m) (hlater m)

/-- A turn in one thread is a turn with its result told at once. -/
theorem worksTo_turn (htold : c.untold = none) {s : σ} {q : WriteQueue σ ρ}
    (h : c.queue.turn? c.state = some (s, q)) : ∃ c', c.WorksTo c' ∧ c'.state = s ∧ c'.queue = q := by
  rw [WriteQueue.turn?] at h
  refine ⟨(c.step .turn).step .tell, ⟨?_, [.turn, .tell], by simp [Move.IsWork], rfl⟩, ?_⟩ <;>
    split at h <;> cases h <;> simp_all [step, WriteQueue.finish]

theorem worksTo_start (htold : c.untold = none) {q : WriteQueue σ ρ} (h : c.queue.start? = some q) :
    ∃ c', c.WorksTo c' ∧ c'.state = c.state ∧ c'.queue = q := by
  refine ⟨c.step .start, ⟨?_, [.start], by simp [Move.IsWork], rfl⟩, ?_⟩ <;> simp [step, h, htold]

theorem worksTo_round (htold : c.untold = none) (n : Nat) :
    ∃ c', c.WorksTo c' ∧ (c'.state, c'.queue) = c.queue.round c.state n := by
  induction n generalizing c with
  | zero => exact ⟨c, .refl htold, rfl⟩
  | succ n ih =>
    rw [WriteQueue.round]
    split
    · rename_i s q hturn
      obtain ⟨c', hworks, rfl, rfl⟩ := worksTo_turn htold hturn
      split_ifs
      · exact ⟨c', hworks, rfl⟩
      · obtain ⟨c'', hworks', heq⟩ := ih hworks.1
        exact ⟨c'', hworks.trans hworks', heq⟩
    · split
      · rename_i q hstart
        obtain ⟨c', hworks, hstate, rfl⟩ := worksTo_start htold hstart
        obtain ⟨c'', hworks', heq⟩ := ih hworks.1
        exact ⟨c'', hworks.trans hworks', hstate ▸ heq⟩
      · exact ⟨c, .refl htold, rfl⟩

theorem worksTo_awaitFor (t : Ticket) (htold : c.untold = none) (n : Nat) :
    ∃ c', c.WorksTo c' ∧ (c'.state, c'.queue) = c.queue.awaitFor t c.state n := by
  induction n generalizing c with
  | zero => exact ⟨c, .refl htold, rfl⟩
  | succ n ih =>
    rw [WriteQueue.awaitFor]
    split_ifs
    · exact ⟨c, .refl htold, rfl⟩
    · obtain ⟨c', hworks, hround⟩ := worksTo_round htold WriteQueue.movesPerRound
      obtain ⟨c'', hworks', heq⟩ := ih hworks.1
      refine ⟨c'', hworks.trans hworks', ?_⟩
      rw [← hround]
      exact heq

/-- **A thread that waits for a result makes a run of moves**, so that what holds along every run holds
while it waits. -/
theorem worksTo_await (t : Ticket) (htold : c.untold = none) :
    ∃ c', c.WorksTo c' ∧ (c'.state, c'.queue) = (c.queue.await t c.state).2 :=
  worksTo_awaitFor t htold c.queue.work

theorem worksTo_flush [Inhabited ρ] (htold : c.untold = none) :
    ∃ c', (c.step .flush).WorksTo c' ∧ (c'.state, c'.queue) = (c.queue.flush c.state).2 :=
  worksTo_await (c := c.step .flush) (c.queue.enqueue (.done default)).1 htold

end Course

end Worksheet
