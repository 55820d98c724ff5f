import Mathlib.Data.List.Range
import Worksheet.Proofs.Storage.Course
/-!
# The order of jobs

Jobs start in the order in which they were handed in, one at a time and each at most once, whatever else
happens.

* `Numbered`: the jobs that are over, and after them those that are not, have the tickets 0, 1, 2, …;
* `InOrder`: what was started is a first part of what was handed in, each job after the end of those before;
* `Alike`, `Alike.run`: how jobs end, and which tickets are given away, makes no difference to what starts;
* **`starts_in_order`**: all of it, for every run.
-/

namespace Worksheet

variable {σ ρ : Type}

/-- The job that does the same and ends differently. -/
def Job.mapEnd (f : JobEnd ρ → JobEnd ρ) : Job σ ρ → Job σ ρ
  | turn act next => turn act (next.mapEnd f)
  | last act => last fun s => ((act s).1, f (act s).2)

/-- The same incident of jobs that end differently. -/
def Incident.mapEnd (f : JobEnd ρ → JobEnd ρ) : Incident σ ρ → Incident σ ρ
  | started t job => started t (job.mapEnd f)
  | finished t (.ended e) => finished t (.ended (f e))
  | finished t fate => finished t fate

namespace Course

variable {c c' : Course σ ρ} {m : Move σ ρ} {jobs : List (Job σ ρ)} {t : Ticket}

/-! ## Incidents in the log -/

theorem mem_finished : t ∈ c.finished ↔ ∃ fate, Incident.finished t fate ∈ c.log := by
  simp only [finished, List.mem_filterMap]
  constructor
  · rintro ⟨x, hx, h⟩
    cases x with
    | started => cases h
    | finished _ fate => cases h; exact ⟨fate, hx⟩
  · rintro ⟨fate, h⟩
    exact ⟨_, h, rfl⟩

theorem mem_started {job : Job σ ρ} : (t, job) ∈ c.started ↔ Incident.started t job ∈ c.log := by
  simp only [started, List.mem_filterMap]
  constructor
  · rintro ⟨x, hx, h⟩
    cases x with
    | started => cases h; exact hx
    | finished => cases h
  · intro h
    exact ⟨_, h, rfl⟩

theorem mem_dropped {fate : Fate ρ} {jobs : List (Ticket × Job σ ρ)} :
    .finished t fate ∈ Incident.dropped jobs ↔ t ∈ jobs.map (·.1) ∧ fate = .discarded := by
  simp only [Incident.dropped, List.mem_map, Incident.finished.injEq]
  constructor
  · rintro ⟨job, hjob, ht, rfl⟩
    exact ⟨⟨job, hjob, ht⟩, rfl⟩
  · rintro ⟨⟨job, hjob, ht⟩, rfl⟩
    exact ⟨job, hjob, ht, rfl⟩

@[simp] theorem finished_dropped (jobs : List (Ticket × Job σ ρ)) :
    (Incident.dropped jobs).filterMap Incident.finished? = jobs.map (·.1) := by
  simp [Incident.dropped, List.filterMap_map, Function.comp_def]

@[simp] theorem started_dropped (jobs : List (Ticket × Job σ ρ)) :
    (Incident.dropped jobs).filterMap Incident.started? = [] := by
  simp [Incident.dropped, List.filterMap_map, Function.comp_def]

/-! ## Tickets -/

/-- The jobs that are over, and after them those that are not, have the tickets in order. -/
structure Numbered (c : Course σ ρ) : Prop where
  issued : c.queue.issued = c.handed.length
  tickets : c.finished ++ c.live.map (·.1) = List.range c.handed.length
  shut : c.queue.isOpen = false → c.live = []

theorem Numbered.moved (h : c.Numbered) (hm : c.Moved m c') : c'.Numbered := by
  obtain ⟨hissued, htickets, hshut⟩ := h
  cases hm with
  | accept job hopen =>
    refine ⟨by simp [hissued], ?_, by simp [hopen]⟩
    simp only [finished, live, List.map_append] at htickets ⊢
    simp [List.range_succ, ← htickets, hissued]
  | refuse job hclosed =>
    have hlive := hshut hclosed
    rw [hlive, List.map_nil, List.append_nil] at htickets
    refine ⟨by simp [hissued], ?_, fun _ => hlive⟩
    change List.filterMap _ (c.log ++ _) ++ c.live.map _ = _
    simp only [finished] at htickets
    simp [hlive, List.range_succ, htickets, hissued]
  | abandon t => exact ⟨hissued, htickets, hshut⟩
  | start t job rest htold hrunning hwaiting =>
    simp only [finished, live, hrunning, hwaiting] at htickets hshut
    refine ⟨hissued, ?_, by simpa [live] using hshut⟩
    simpa [finished, live, List.filterMap_append, List.filterMap_cons] using htickets
  | turn t act next hrunning =>
    simp only [finished, live, hrunning] at htickets hshut
    exact ⟨hissued, by simpa [finished, live] using htickets, by simpa [live] using hshut⟩
  | last t act hrunning =>
    simp only [finished, live, hrunning] at htickets hshut
    refine ⟨hissued, by simpa [finished, live, List.filterMap_append] using htickets, ?_⟩
    intro hclosed
    exact absurd (hshut hclosed) (by simp)
  | tell t e huntold =>
    simp only [finished, live] at htickets hshut
    exact ⟨by simp [hissued], by simpa [finished, live] using htickets, by simpa [live] using hshut⟩
  | close =>
    refine ⟨by simp [hissued], ?_, by simp [live]⟩
    simp only [finished, List.filterMap_append, finished_dropped]
    simpa [finished, live] using htickets
  | outside act => exact ⟨hissued, htickets, hshut⟩
  | idle => exact ⟨hissued, htickets, hshut⟩

theorem numbered_begin (s : σ) : (begin s : Course σ ρ).Numbered :=
  ⟨rfl, rfl, by simp [begin, WriteQueue.new]⟩

theorem Numbered.nodup (h : c.Numbered) : (c.finished ++ c.live.map (·.1)).Nodup :=
  h.tickets ▸ List.nodup_range

theorem Numbered.lt_of_finished (h : c.Numbered) (ht : t ∈ c.finished) : t < c.handed.length := by
  rw [← List.mem_range, ← h.tickets]
  exact List.mem_append_left _ ht

theorem range_eq_of_append {l rest : List Nat} {n : Nat} (h : l ++ t :: rest = List.range n) : l = List.range t := by
  have hlength := congrArg List.length h
  simp only [List.length_append, List.length_cons, List.length_range] at hlength
  have ht : t = l.length := by
    have hget := congrArg (fun l' : List Nat => l'[l.length]?) h
    simpa [List.getElem?_range (show l.length < n by omega)] using hget
  have htake := congrArg (List.take l.length) h
  rw [List.take_left, List.take_range, Nat.min_eq_left (by omega)] at htake
  rw [ht]
  exact htake

/-- The jobs before the first one that is not over are over. -/
theorem Numbered.finished_eq (h : c.Numbered) {job : Job σ ρ} {rest : List (Ticket × Job σ ρ)}
    (hlive : c.live = (t, job) :: rest) : c.finished = List.range t := by
  have htickets := h.tickets
  rw [hlive, List.map_cons] at htickets
  exact range_eq_of_append htickets

theorem Numbered.isOpen (h : c.Numbered) (hlive : c.live ≠ []) : c.queue.isOpen = true := by
  by_contra hclosed
  exact hlive (h.shut (by simpa using hclosed))

/-! ## Starts -/

/-- A job starts after the ends of all jobs before it. -/
def Alone (log : List (Incident σ ρ)) : Prop :=
  ∀ before t job after, log = before ++ .started t job :: after →
    ∀ u < t, ∃ e, .finished u (.ended e) ∈ before

theorem Alone.append {log more : List (Incident σ ρ)} (h : Alone log)
    (hmore : ∀ before t job after, more = before ++ .started t job :: after →
      ∀ u < t, ∃ e, .finished u (.ended e) ∈ log ++ before) : Alone (log ++ more) := by
  intro before t job after heq
  rcases List.append_eq_append_iff.mp heq with ⟨between, rfl, hsplit⟩ | ⟨between, hlog, hsplit⟩
  · exact hmore between t job after hsplit
  · cases between with
    | nil =>
      rw [List.append_nil] at hlog
      simpa [hlog] using hmore [] t job after hsplit.symm
    | cons x between =>
      obtain ⟨rfl, -⟩ := List.cons.inj hsplit
      exact h before t job between hlog

theorem Alone.append_finished {log more : List (Incident σ ρ)} (h : Alone log)
    (hmore : more.filterMap Incident.started? = []) : Alone (log ++ more) := by
  refine h.append fun before t job after heq => ?_
  rw [heq] at hmore
  simp at hmore

/-- What was started is a first part of what was handed in, and as long as there is a worker, all else waits. -/
structure InOrder (c : Course σ ρ) : Prop where
  tickets : c.Numbered
  begun : c.started <+: numbered c.handed
  lossless : c.queue.isOpen = true → c.started ++ c.queue.waiting = numbered c.handed
  alone : Alone c.log
  kept : c.queue.isOpen = true → ∀ t fate, Incident.finished t fate ∈ c.log → ∃ e, fate = .ended e

theorem InOrder.moved (h : c.InOrder) (hm : c.Moved m c') : c'.InOrder := by
  have htickets := h.tickets.moved hm
  obtain ⟨hnumbered, hbegun, hlossless, halone, hkept⟩ := h
  cases hm with
  | accept job hopen =>
    refine ⟨htickets, hbegun.trans (by simp [numbered_concat]), fun _ => ?_, halone, hkept⟩
    have hall := hlossless hopen
    simp only [started] at hall ⊢
    simp [numbered_concat, ← hall, hnumbered.issued]
  | refuse job hclosed =>
    refine ⟨htickets, ?_, by simp [hclosed], halone.append_finished rfl, by simp [hclosed]⟩
    have hmore := hbegun.trans (List.prefix_append _ [(c.handed.length, job)])
    simpa [started, numbered_concat, List.filterMap_append, List.filterMap_cons] using hmore
  | abandon t => exact ⟨htickets, hbegun, hlossless, halone, hkept⟩
  | start t job rest htold hrunning hwaiting =>
    have hlive : c.live = (t, job) :: rest := by simp [live, hrunning, hwaiting]
    have hopen := hnumbered.isOpen (by simp [hlive])
    have hall := hlossless hopen
    have hstarted : (c.log ++ [Incident.started t job]).filterMap Incident.started? ++ rest =
        numbered c.handed := by
      simpa [started, hwaiting, List.filterMap_append] using hall
    refine ⟨htickets, ⟨rest, hstarted⟩, fun _ => hstarted, halone.append ?_, ?_⟩
    · -- all jobs before this one are over, and with a worker this means that they have ended
      intro before t' job' after heq u hu
      rcases List.singleton_eq_append_iff.mp heq with ⟨rfl, heq⟩ | ⟨-, heq⟩
      · cases heq
        have hfinished : u ∈ c.finished := by
          rw [hnumbered.finished_eq hlive]
          exact List.mem_range.mpr hu
        obtain ⟨fate, hfate⟩ := mem_finished.mp hfinished
        obtain ⟨e, rfl⟩ := hkept hopen u fate hfate
        exact ⟨e, List.mem_append_left _ hfate⟩
      · cases heq
    · intro _ u fate hfate
      exact hkept hopen u fate (by simpa using hfate)
  | turn t act next hrunning => exact ⟨htickets, hbegun, hlossless, halone, hkept⟩
  | last t act hrunning =>
    refine ⟨htickets, ?_, fun hopen => ?_, halone.append_finished rfl, ?_⟩
    · simpa [started, List.filterMap_append, List.filterMap_cons] using hbegun
    · simpa [started, List.filterMap_append, List.filterMap_cons] using hlossless hopen
    · intro hopen u fate hfate
      rcases List.mem_append.mp hfate with hfate | hfate
      · exact hkept hopen u fate hfate
      · cases List.mem_singleton.mp hfate
        exact ⟨_, rfl⟩
  | tell t e huntold =>
    exact ⟨htickets, hbegun, by simpa [started] using hlossless, halone, by simpa using hkept⟩
  | close =>
    refine ⟨htickets, ?_, by simp, halone.append_finished (started_dropped _), by simp⟩
    simpa [started, List.filterMap_append] using hbegun
  | outside act => exact ⟨htickets, hbegun, hlossless, halone, hkept⟩
  | idle => exact ⟨htickets, hbegun, hlossless, halone, hkept⟩

theorem inOrder_run (s : σ) (moves : List (Move σ ρ)) : ((begin s).run moves).InOrder := by
  refine run_induction (fun c m h => h.moved (c.step_moved m)) ⟨numbered_begin s, ?_, ?_, ?_, ?_⟩ moves
  · exact List.nil_prefix
  · exact fun _ => rfl
  · intro before t job after h
    simp [begin] at h
  · intro _ t fate h
    simp [begin] at h

/-! ## Other ends -/

section OtherEnds

variable {f : JobEnd ρ → JobEnd ρ}

/-- The same move, with jobs that end differently. -/
def Move.mapEnd (f : JobEnd ρ → JobEnd ρ) : Move σ ρ → Move σ ρ
  | .enqueue job => .enqueue (job.mapEnd f)
  | m => m

/-- The move does not give a ticket away. -/
def Move.keepsTickets : Move σ ρ → Bool
  | .abandon _ => false
  | _ => true

/-- The same has happened in both courses, but in the second one jobs end differently. -/
structure Alike (f : JobEnd ρ → JobEnd ρ) (c c' : Course σ ρ) : Prop where
  state : c'.state = c.state
  isOpen : c'.queue.isOpen = c.queue.isOpen
  issued : c'.queue.issued = c.queue.issued
  waiting : c'.queue.waiting = c.queue.waiting.map (Prod.map id (Job.mapEnd f))
  running : c'.queue.running = c.queue.running.map (Prod.map id (Job.mapEnd f))
  untold : c'.untold = c.untold.map (Prod.map id f)
  log : c'.log = c.log.map (Incident.mapEnd f)

theorem Alike.abandon (h : Alike f c c') (t : Ticket) : Alike f (c.step (.abandon t)) c' :=
  ⟨h.state, h.isOpen, h.issued, h.waiting, h.running, h.untold, h.log⟩

theorem Alike.step (h : Alike f c c') (m : Move σ ρ) : Alike f (c.step m) (c'.step (m.mapEnd f)) := by
  obtain ⟨hstate, hisOpen, hissued, hwaiting, hrunning, huntold, hlog⟩ := h
  cases m with
  | enqueue job =>
    cases hopen : c.queue.isOpen with
    | true =>
      have hopen' := hisOpen.trans hopen
      simp only [Course.step, Move.mapEnd, WriteQueue.enqueue_of_isOpen hopen, WriteQueue.enqueue_of_isOpen hopen']
      constructor <;> simp [*]
    | false =>
      have hopen' := hisOpen.trans hopen
      simp only [Course.step, Move.mapEnd, WriteQueue.enqueue_of_closed hopen, WriteQueue.enqueue_of_closed hopen']
      constructor <;> simp [*, Incident.mapEnd]
  | abandon t => exact ⟨hstate, hisOpen, hissued, hwaiting, hrunning, huntold, hlog⟩
  | start =>
    -- the worker starts on a job in one course if and only if it does so in the other
    rcases hu : c.untold with _ | ⟨t, e⟩ <;> rcases hr : c.queue.running with _ | ⟨t, job⟩ <;>
      rcases hw : c.queue.waiting with _ | ⟨⟨t, job⟩, rest⟩ <;> rw [hu] at huntold <;> rw [hr] at hrunning <;>
      rw [hw] at hwaiting <;> constructor <;>
      simp [Course.step, Move.mapEnd, WriteQueue.start?, Incident.mapEnd, *]
  | turn =>
    rcases hr : c.queue.running with _ | ⟨t, act, next⟩ <;> rw [hr] at hrunning
    · constructor <;> simp [Course.step, Move.mapEnd, *]
    · constructor <;> simp [Course.step, Move.mapEnd, Job.mapEnd, *]
    · constructor <;> simp [Course.step, Move.mapEnd, Job.mapEnd, Incident.mapEnd, *]
  | tell =>
    rcases hu : c.untold with _ | ⟨t, e⟩ <;> rw [hu] at huntold <;> constructor <;>
      simp [Course.step, Move.mapEnd, *]
  | close =>
    have hlive : c'.live = c.live.map (Prod.map id (Job.mapEnd f)) := by
      simp [live, hrunning, hwaiting, Option.toList_map]
    constructor <;> simp [Course.step, Move.mapEnd, Incident.dropped, Incident.mapEnd, Function.comp_def, *]
  | outside act => constructor <;> simp [Course.step, Move.mapEnd, *]

theorem Alike.run (h : Alike f c c') (moves : List (Move σ ρ)) :
    Alike f (c.run moves) (c'.run ((moves.filter Move.keepsTickets).map (Move.mapEnd f))) := by
  induction moves generalizing c c' with
  | nil => exact h
  | cons m moves ih =>
    cases m with
    | abandon t => exact ih (h.abandon t)
    | _ => exact ih (h.step _)

theorem alike_begin (s : σ) : Alike f (begin s : Course σ ρ) (begin s) :=
  ⟨rfl, rfl, rfl, rfl, rfl, rfl, rfl⟩

end OtherEnds

/-! ## All together -/

/-- Neither the worker nor a job can make a move. -/
def Resting (c : Course σ ρ) : Prop :=
  c.untold = none ∧ c.queue.running = none ∧ c.queue.start? = none

theorem InOrder.resting (h : c.InOrder) (hopen : c.queue.isOpen = true) (hrest : c.Resting)
    (ht : t < c.handed.length) :
    (∃ job, Incident.started t job ∈ c.log) ∧ ∃ e, Incident.finished t (.ended e) ∈ c.log := by
  obtain ⟨-, hrunning, hstart⟩ := hrest
  have hwaiting : c.queue.waiting = [] := by
    cases hw : c.queue.waiting with
    | nil => rfl
    | cons job rest => simp [WriteQueue.start?, hrunning, hw] at hstart
  constructor
  · have hall := h.lossless hopen
    rw [hwaiting, List.append_nil] at hall
    refine ⟨c.handed[t], mem_started.mp ?_⟩
    rw [hall, mem_numbered]
    exact List.getElem?_eq_getElem ht
  · have hfinished : t ∈ c.finished := by
      have htickets := h.tickets.tickets
      simp only [live, hrunning, hwaiting, Option.toList_none, List.append_nil, List.map_nil] at htickets
      rw [htickets]
      exact List.mem_range.mpr ht
    obtain ⟨fate, hfate⟩ := mem_finished.mp hfinished
    obtain ⟨e, rfl⟩ := h.kept hopen t fate hfate
    exact ⟨e, hfate⟩

/-- **Jobs start in the order in which they were handed in, one at a time, and each at most once.** This holds
for every run. The jobs that were started are the first ones that were handed in, and each was started after
the ends of all before it. Had the jobs ended in any other way, and had no ticket been given away, just the same
jobs would have been started and ended in the same order. As long as the worker is not stopped, no job gets
lost: the jobs are those that were started and, after them, those that wait; and when neither the worker nor a
job can make a move, all of them have been started and have ended. -/
theorem starts_in_order (s : σ) (moves : List (Move σ ρ)) :
    let c := (begin s).run moves
    let jobs := moves.filterMap Move.job?
    c.started <+: numbered jobs ∧
    (∀ before t job after, c.log = before ++ .started t job :: after →
      ∀ u < t, ∃ e, .finished u (.ended e) ∈ before) ∧
    (∀ f : JobEnd ρ → JobEnd ρ,
      ((begin s).run ((moves.filter Move.keepsTickets).map (Move.mapEnd f))).log = c.log.map (Incident.mapEnd f)) ∧
    (.close ∉ moves → c.started ++ c.queue.waiting = numbered jobs ∧
      (c.Resting → ∀ t < jobs.length,
        (∃ job, .started t job ∈ c.log) ∧ ∃ e, .finished t (.ended e) ∈ c.log)) := by
  intro c jobs
  have h : c.InOrder := inOrder_run s moves
  rw [show jobs = c.handed from (handed_run_begin s moves).symm]
  refine ⟨h.begun, h.alone, fun f => ((alike_begin s).run moves).log, fun hclose => ?_⟩
  have hopen : c.queue.isOpen = true := isOpen_run.mpr ⟨rfl, hclose⟩
  exact ⟨h.lossless hopen, fun hrest t ht => h.resting hopen hrest ht⟩

end Course

end Worksheet
