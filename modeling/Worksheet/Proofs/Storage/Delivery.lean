import Mathlib.Data.List.Nodup
import Mathlib.Tactic.Tauto
import Worksheet.Proofs.Storage.Order
/-!
# The delivery of results

Who holds a ticket is told what became of its job, and of no other.

* `Decides`, `Decided`: the move by which a job is over, and how;
* `Tidy`: which result may still be to be told;
* `Answered`: a result is there if the job is over, its ticket is watched and the result is not still to be told;
* `mem_log_run`: the log of a run holds just what its moves have decided;
* **`results_delivered`**: which results are there after a run, and when a flush is over.
-/

namespace Worksheet.Course

variable {σ ρ : Type} {c c' : Course σ ρ} {m : Move σ ρ} {t : Ticket} {fate : Fate ρ}

/-! ## What makes a job be over -/

/-- By the move the job is over, with that fate. -/
inductive Decides (c : Course σ ρ) : Move σ ρ → Ticket → Fate ρ → Prop
  /-- It ends as it was made to end when it was handed in. -/
  | last (t : Ticket) (job : Job σ ρ) (hhanded : c.handed[t]? = some job)
      (hrunning : c.queue.running = some (t, .last job.lastAct)) :
      Decides c .turn t (.ended (job.lastAct c.state).2)
  | close (t : Ticket) (hlive : t ∈ c.live.map (·.1)) : Decides c .close t .discarded
  | refuse (job : Job σ ρ) (hclosed : c.queue.isOpen = false) :
      Decides c (.enqueue job) c.handed.length .refused

/-- By one of the moves the job is over, with that fate. -/
def Decided (s : σ) (moves : List (Move σ ρ)) (t : Ticket) (fate : Fate ρ) : Prop :=
  ∃ before m after, moves = before ++ m :: after ∧ Decides ((begin s).run before) m t fate

/-- What is left of a job ends as the job would have. -/
structure Faithful (c : Course σ ρ) : Prop where
  order : c.InOrder
  rests : ∀ t rest, (t, rest) ∈ c.live → ∃ job, c.handed[t]? = some job ∧ rest.lastAct = job.lastAct

theorem Faithful.moved (h : c.Faithful) (hm : c.Moved m c') : c'.Faithful := by
  refine ⟨h.order.moved hm, ?_⟩
  have hissued := h.order.tickets.issued
  have hrests := h.rests
  have hmore : ∀ {more : Job σ ρ} t rest, (t, rest) ∈ c.live →
      ∃ job, (c.handed ++ [more])[t]? = some job ∧ rest.lastAct = job.lastAct := by
    intro more t rest hlive
    obtain ⟨job, hjob, hact⟩ := hrests t rest hlive
    obtain ⟨ht, -⟩ := List.getElem?_eq_some_iff.mp hjob
    exact ⟨job, by rwa [List.getElem?_append_left ht], hact⟩
  cases hm with
  | accept job hopen =>
    intro t rest hlive
    simp only [live, ← List.append_assoc, List.mem_append, List.mem_singleton] at hlive
    rcases hlive with hlive | hlive
    · exact hmore t rest (List.mem_append.mpr hlive)
    · obtain ⟨rfl, rfl⟩ := Prod.mk.inj hlive
      exact ⟨rest, by simp [hissued], rfl⟩
  | refuse job hclosed => exact hmore
  | start t job rest htold hrunning hwaiting => simpa [live, hrunning, hwaiting] using hrests
  | turn t act next hrunning =>
    simp only [live, hrunning, Option.toList_some, List.singleton_append, List.mem_cons] at hrests ⊢
    intro u rest hlive
    rcases hlive with hlive | hlive
    · obtain ⟨rfl, rfl⟩ := Prod.mk.inj hlive
      exact hrests u (.turn act rest) (Or.inl rfl)
    · exact hrests u rest (Or.inr hlive)
  | last t act hrunning =>
    intro u rest hlive
    refine hrests u rest (List.mem_append_right _ ?_)
    simpa [live] using hlive
  | tell t e huntold => simpa [live] using hrests
  | close => simp [live]
  | _ => exact hrests

theorem faithful_run (s : σ) (moves : List (Move σ ρ)) : ((begin s).run moves).Faithful := by
  refine run_induction (fun c m h => h.moved (c.step_moved m)) ⟨inOrder_run s [], ?_⟩ moves
  simp [begin, live, WriteQueue.new]

theorem log_prefix_step (c : Course σ ρ) (m : Move σ ρ) : c.log <+: (c.step m).log := by
  have hm := c.step_moved m
  generalize c.step m = c' at hm
  cases hm <;> simp

/-- What is new in the log is what the move has decided. -/
theorem mem_log_step (h : c.Faithful) :
    .finished t fate ∈ (c.step m).log ↔ .finished t fate ∈ c.log ∨ Decides c m t fate := by
  constructor
  · intro hmem
    have hm := c.step_moved m
    generalize c.step m = c' at hm hmem
    cases hm with
    | refuse job hclosed =>
      refine (List.mem_append.mp hmem).imp_right fun hnew => ?_
      cases List.mem_singleton.mp hnew
      rw [h.order.tickets.issued]
      exact .refuse job hclosed
    | start => exact Or.inl (by simpa using hmem)
    | last u act hrunning =>
      refine (List.mem_append.mp hmem).imp_right fun hnew => ?_
      cases List.mem_singleton.mp hnew
      obtain ⟨job, hhanded, hact⟩ := h.rests t (.last act) (by simp [live, hrunning])
      obtain rfl : act = job.lastAct := hact
      exact .last t job hhanded hrunning
    | close =>
      refine (List.mem_append.mp hmem).imp_right fun hnew => ?_
      obtain ⟨hlive, rfl⟩ := mem_dropped.mp hnew
      exact .close t hlive
    | _ => exact Or.inl hmem
  · rintro (hmem | hnew)
    · exact (c.log_prefix_step m).subset hmem
    · cases hnew with
      | last t job hhanded hrunning => simp [step, hrunning]
      | close t hlive => exact List.mem_append_right _ (mem_dropped.mpr ⟨hlive, rfl⟩)
      | refuse job hclosed => simp [step, hclosed, h.order.tickets.issued]

variable {s : σ} {moves later : List (Move σ ρ)} {e : JobEnd ρ}

theorem Decided.append (h : Decided s moves t fate) : Decided s (moves ++ later) t fate := by
  obtain ⟨before, m, after, rfl, hd⟩ := h
  exact ⟨before, m, after ++ later, by simp, hd⟩

theorem decided_concat :
    Decided s (moves ++ [m]) t fate ↔ Decided s moves t fate ∨ Decides ((begin s).run moves) m t fate := by
  constructor
  · rintro ⟨before, m', after, heq, hd⟩
    rcases List.eq_nil_or_concat' after with rfl | ⟨after, m'', rfl⟩
    · obtain ⟨rfl, hm⟩ := List.append_inj' heq rfl
      cases hm
      exact Or.inr hd
    · rw [← List.cons_append, ← List.append_assoc] at heq
      exact Or.inl ⟨before, m', after, (List.append_inj' heq rfl).1, hd⟩
  · rintro (hd | hd)
    · exact hd.append
    · exact ⟨moves, m, [], rfl, hd⟩

/-- The log of a run holds just what its moves have decided. -/
theorem mem_log_run (s : σ) (moves : List (Move σ ρ)) :
    .finished t fate ∈ ((begin s).run moves).log ↔ Decided s moves t fate := by
  induction moves using List.reverseRecOn with
  | nil => simp [begin, Decided]
  | append_singleton moves m ih =>
    rw [run_append, run_cons, run_nil, mem_log_step (faithful_run s moves), ih, decided_concat]

/-! ## What is there -/

theorem Numbered.fate_unique (h : c.Numbered) {fate' : Fate ρ} (hfinished : .finished t fate ∈ c.log)
    (hfinished' : .finished t fate' ∈ c.log) : fate = fate' := by
  obtain ⟨before, after, hlog⟩ := List.append_of_mem hfinished
  have hfresh : t ∉ (before ++ after).filterMap Incident.finished? := by
    have hnodup := (List.nodup_append.mp h.nodup).1
    have hhead : Incident.finished? (Incident.finished (σ := σ) t fate) = some t := rfl
    rw [finished, hlog, List.filterMap_append, List.filterMap_cons_some hhead, List.nodup_middle,
      ← List.filterMap_append] at hnodup
    exact (List.nodup_cons.mp hnodup).1
  rw [hlog, List.mem_append, List.mem_cons, or_left_comm, ← List.mem_append] at hfinished'
  rcases hfinished' with heq | hmem
  · cases heq
    rfl
  · have hagain : t ∈ (before ++ after).filterMap Incident.finished? := List.mem_filterMap.mpr ⟨_, hmem, rfl⟩
    exact absurd hagain hfresh

theorem Numbered.ne_issued (h : c.Numbered) (hfinished : .finished t fate ∈ c.log) : t ≠ c.queue.issued := by
  rw [h.issued]
  exact (h.lt_of_finished (mem_finished.mpr ⟨fate, hfinished⟩)).ne

theorem Numbered.not_live (h : c.Numbered) (hfinished : .finished t fate ∈ c.log) : t ∉ c.live.map (·.1) := by
  intro ht
  exact (List.nodup_append.mp h.nodup).2.2 t (mem_finished.mpr ⟨fate, hfinished⟩) t ht rfl

/-- Only a job that has ended has a result that is still to be told, and no other job runs meanwhile. Only tickets
that were given out are watched. -/
structure Tidy (c : Course σ ρ) : Prop where
  tickets : c.Numbered
  busy : c.untold ≠ none → c.queue.running = none
  untold : ∀ t e, c.untold = some (t, e) → .finished t (.ended e) ∈ c.log
  watched : ∀ t ∈ c.queue.watched, t < c.handed.length

theorem Tidy.untold_eq_none (h : c.Tidy) {running : Ticket × Job σ ρ} (hrunning : c.queue.running = some running) :
    c.untold = none := by
  by_contra hne
  simp [h.busy hne] at hrunning

theorem Tidy.moved (h : c.Tidy) (hm : c.Moved m c') : c'.Tidy := by
  have htickets := h.tickets.moved hm
  have hissued := h.tickets.issued
  have hwatched : ∀ job, ∀ t ∈ c.queue.issued :: c.queue.watched, t < (c.handed ++ [job]).length := by
    intro job t ht
    rw [List.length_append, List.length_singleton]
    rcases List.mem_cons.mp ht with rfl | ht
    · omega
    · exact Nat.lt_succ_of_lt (h.watched t ht)
  cases hm with
  | accept job _ => exact ⟨htickets, h.busy, h.untold, hwatched job⟩
  | refuse job _ => exact ⟨htickets, h.busy, fun t e he => List.mem_append_left _ (h.untold t e he), hwatched job⟩
  | abandon u => exact ⟨htickets, h.busy, h.untold, fun t ht => h.watched t (List.mem_of_mem_filter ht)⟩
  | start u job rest htold _ _ => exact ⟨htickets, by simp [htold], by simp [htold], h.watched⟩
  | turn u act next hrunning =>
    have htold := h.untold_eq_none hrunning
    exact ⟨htickets, by simp [htold], h.untold, h.watched⟩
  | last u act hrunning =>
    refine ⟨htickets, fun _ => rfl, ?_, h.watched⟩
    rintro t e ⟨⟩
    exact List.mem_append_right _ (List.mem_singleton_self _)
  | tell u e _ => exact ⟨htickets, fun hne => absurd rfl hne, by simp, by simpa using h.watched⟩
  | close =>
    exact ⟨htickets, fun _ => WriteQueue.running_close, fun t e he => List.mem_append_left _ (h.untold t e he),
      by simpa using h.watched⟩
  | outside | idle => exact ⟨htickets, h.busy, h.untold, h.watched⟩

/-- A result is there if the job is over, the ticket is watched, and the result is not still to be told. -/
structure Answered (c : Course σ ρ) : Prop where
  tidy : c.Tidy
  results : ∀ t r, (t, r) ∈ c.queue.results ↔
    t ∈ c.queue.watched ∧ (∀ e, c.untold ≠ some (t, e)) ∧
      ∃ fate, .finished t fate ∈ c.log ∧ r = fate.result

theorem Answered.moved (h : c.Answered) (hm : c.Moved m c') : c'.Answered := by
  refine ⟨h.tidy.moved hm, fun t r => ?_⟩
  have hnumbered := h.tidy.tickets
  have huntold := h.tidy.untold
  have hresults := h.results
  cases hm with
  | accept job hopen =>
    rw [hresults, List.mem_cons]
    -- the new ticket is watched, and its job is not over
    constructor
    · rintro ⟨ht, hrest⟩
      exact ⟨Or.inr ht, hrest⟩
    · rintro ⟨ht, hne, fate, hfinished, hr⟩
      exact ⟨ht.resolve_left (hnumbered.ne_issued hfinished), hne, fate, hfinished, hr⟩
  | refuse job hclosed =>
    simp only [List.mem_cons, List.mem_append, List.not_mem_nil, or_false, hresults]
    constructor
    · rintro (heq | ⟨ht, hne, fate, hfinished, hr⟩)
      · obtain ⟨rfl, rfl⟩ := Prod.mk.inj heq
        exact ⟨Or.inl rfl, fun e he => hnumbered.ne_issued (huntold _ e he) rfl, .refused, Or.inr rfl, rfl⟩
      · exact ⟨Or.inr ht, hne, fate, Or.inl hfinished, hr⟩
    · rintro ⟨ht, hne, fate, hfinished | hfinished, hr⟩
      · exact Or.inr ⟨ht.resolve_left (hnumbered.ne_issued hfinished), hne, fate, hfinished, hr⟩
      · cases hfinished
        exact Or.inl (Prod.ext rfl hr)
  | abandon u =>
    simp only [WriteQueue.abandon, List.mem_filter, hresults]
    tauto
  | start u job rest _ _ _ => simpa using hresults t r
  | last u act hrunning =>
    have hu : u ∈ c.live.map (·.1) := by simp [live, hrunning]
    simp only [WriteQueue.results_leave, WriteQueue.watched_leave, hresults, h.tidy.untold_eq_none hrunning,
      List.mem_append, List.mem_singleton]
    -- the job is over, but its result is still to be told
    constructor
    · rintro ⟨ht, -, fate, hfinished, hr⟩
      refine ⟨ht, ?_, fate, Or.inl hfinished, hr⟩
      rintro e ⟨⟩
      exact hnumbered.not_live hfinished hu
    · rintro ⟨ht, hne, fate, hfinished | hfinished, hr⟩
      · exact ⟨ht, by simp, fate, hfinished, hr⟩
      · cases hfinished
        exact absurd rfl (hne _)
  | tell u e htell =>
    simp only [WriteQueue.mem_results_deliver_iff, WriteQueue.watched_deliver, hresults, htell]
    have hfinished := huntold u e htell
    constructor
    · rintro (⟨ht, -, hfate⟩ | ⟨hu, heq⟩)
      · exact ⟨ht, by simp, hfate⟩
      · obtain ⟨rfl, rfl⟩ := Prod.mk.inj heq
        exact ⟨hu, by simp, .ended e, hfinished, rfl⟩
    · rintro ⟨ht, -, fate, hfate, hr⟩
      by_cases htu : t = u
      · subst htu
        obtain rfl := hnumbered.fate_unique hfate hfinished
        exact Or.inr ⟨ht, Prod.ext rfl hr⟩
      · exact Or.inl ⟨ht, fun e' he' => htu (by cases he'; rfl), fate, hfate, hr⟩
  | close =>
    simp only [WriteQueue.mem_results_close, WriteQueue.watched_close, hresults, List.mem_append, mem_dropped]
    constructor
    · rintro (⟨ht, hne, fate, hfinished, hr⟩ | ⟨job, hjob, ht, heq⟩)
      · exact ⟨ht, hne, fate, Or.inl hfinished, hr⟩
      · obtain ⟨rfl, rfl⟩ := Prod.mk.inj heq
        have hlive : job.1 ∈ c.live.map (·.1) := List.mem_map_of_mem (List.mem_append.mpr hjob)
        refine ⟨ht, fun e he => ?_, .discarded, Or.inr ⟨hlive, rfl⟩, rfl⟩
        exact hnumbered.not_live (huntold _ e he) hlive
    · rintro ⟨ht, hne, fate, hfinished | ⟨hlive, rfl⟩, rfl⟩
      · exact Or.inl ⟨ht, hne, fate, hfinished, rfl⟩
      · obtain ⟨job, hjob, rfl⟩ := List.mem_map.mp hlive
        exact Or.inr ⟨job, List.mem_append.mp hjob, ht, rfl⟩
  | turn | outside | idle => exact hresults t r

theorem answered_run (s : σ) (moves : List (Move σ ρ)) : ((begin s).run moves).Answered := by
  refine run_induction (fun c m h => h.moved (c.step_moved m)) ⟨⟨numbered_begin s, ?_, ?_, ?_⟩, ?_⟩ moves
  · exact fun _ => rfl
  · simp [begin]
  · simp [begin, WriteQueue.new]
  · simp [begin, WriteQueue.new]

theorem Answered.result?_eq_some_iff (h : c.Answered) {r : Except SheetError ρ} :
    c.queue.result? t = some r ↔ (t, r) ∈ c.queue.results := by
  refine ⟨WriteQueue.mem_of_result?, fun hmem => ?_⟩
  cases hresult : c.queue.result? t with
  | none =>
    rw [WriteQueue.result?, Option.map_eq_none_iff, List.find?_eq_none] at hresult
    exact absurd (beq_self_eq_true t) (hresult _ hmem)
  | some r' =>
    obtain ⟨-, -, fate, hfate, rfl⟩ := (h.results t r).mp hmem
    obtain ⟨-, -, fate', hfate', rfl⟩ := (h.results t r').mp (WriteQueue.mem_of_result? hresult)
    rw [h.tidy.tickets.fate_unique hfate hfate']

theorem watched_step (h : c.Numbered) (hm : m ≠ .abandon t) (ht : t < (c.step m).handed.length)
    (hwatched : t < c.handed.length → t ∈ c.queue.watched) : t ∈ (c.step m).queue.watched := by
  have hmoved := c.step_moved m
  generalize c.step m = c' at hmoved ht
  cases hmoved with
  | accept job _ | refuse job _ =>
    rw [List.length_append, List.length_singleton] at ht
    rcases Nat.lt_succ_iff_lt_or_eq.mp ht with ht | rfl
    · exact List.mem_cons_of_mem _ (hwatched ht)
    · rw [← h.issued]
      exact List.mem_cons_self
  | abandon u =>
    refine List.mem_filter.mpr ⟨hwatched ht, ?_⟩
    simpa using fun htu : t = u => hm (htu ▸ rfl)
  | tell u e _ => simpa using hwatched ht
  | close => simpa using hwatched ht
  | _ => exact hwatched ht

/-- A ticket is watched as long as it is not given away. -/
theorem watched_run (s : σ) {moves : List (Move σ ρ)} (ht : t < ((begin s).run moves).handed.length)
    (hkept : .abandon t ∉ moves) : t ∈ ((begin s).run moves).queue.watched := by
  induction moves using List.reverseRecOn with
  | nil => exact absurd ht (Nat.not_lt_zero t)
  | append_singleton moves m ih =>
    rw [List.mem_append, not_or, List.mem_singleton] at hkept
    rw [run_append, run_cons, run_nil] at ht ⊢
    exact watched_step (inOrder_run s moves).tickets (Ne.symm hkept.2) ht fun ht => ih ht hkept.1

/-! ## All together -/

theorem untold_tell : (c.step .tell).untold = none := by
  rw [step]
  split
  · assumption
  · rfl

/-- What has been decided is told, unless the ticket is given away. -/
theorem result?_tell (h : Decided s moves t fate) (hkept : .abandon t ∉ moves) :
    (((begin s).run moves).step .tell).queue.result? t = some fate.result := by
  have hanswered := answered_run s (moves ++ [.tell])
  have hlog := (mem_log_run s (moves ++ [.tell])).mpr h.append
  have hwatched : t ∈ ((begin s).run (moves ++ [.tell])).queue.watched := by
    refine watched_run s ?_ (by simpa using hkept)
    exact hanswered.tidy.tickets.lt_of_finished (mem_finished.mpr ⟨fate, hlog⟩)
  rw [run_append] at hanswered hlog hwatched
  refine hanswered.result?_eq_some_iff.mpr ((hanswered.results t _).mpr ⟨hwatched, ?_, fate, hlog, rfl⟩)
  intro e he
  rw [run_cons, run_nil, untold_tell] at he
  cases he

theorem Decided.ended_before (h : Decided s moves t (.ended e)) {u : Ticket} (hu : u < t) :
    ∃ e', Decided s moves u (.ended e') := by
  obtain ⟨before, m, after, rfl, hd⟩ := h
  cases hd with
  | last t job hhanded hrunning =>
    have horder := inOrder_run s before
    have hlive : ((begin s).run before).live = (t, .last job.lastAct) :: ((begin s).run before).queue.waiting := by
      simp [live, hrunning]
    have hfinished : u ∈ ((begin s).run before).finished := by
      rw [horder.tickets.finished_eq hlive]
      exact List.mem_range.mpr hu
    obtain ⟨fate, hfate⟩ := mem_finished.mp hfinished
    obtain ⟨e', rfl⟩ := horder.kept (horder.tickets.isOpen (by simp [hlive])) u fate hfate
    exact ⟨e', ((mem_log_run s before).mp hfate).append⟩

/-- A job that does nothing ends with its result, unless the worker is stopped. -/
theorem Decided.done {d : ρ} (h : Decided s moves t fate)
    (hdone : ((begin s).run moves).handed[t]? = some (.done d)) :
    fate = .ended (.settled (.ok d)) ∨ (fate.result = .error .queueClosed ∧ .close ∈ moves) := by
  obtain ⟨before, m, after, rfl, hd⟩ := h
  cases hd with
  | last t job hhanded hrunning =>
    left
    obtain ⟨ht, -⟩ := List.getElem?_eq_some_iff.mp hhanded
    rw [run_append, handed_run, List.getElem?_append_left ht, hhanded] at hdone
    cases hdone
    rfl
  | close t hlive => exact Or.inr ⟨rfl, by simp⟩
  | refuse job hclosed => exact Or.inr ⟨rfl, List.mem_append_left _ (isOpen_run_begin.mp hclosed)⟩

/-- **Who holds a ticket is told what became of its job.** A result is there just if the ticket is watched and
the job is over, save the one result that is still to be told; and it is the result that the job itself has
made by its last turn, or that the queue is closed if the job crashed, was dropped when the worker was stopped
or was handed in after that. No job is over in two ways, and who does not give a ticket away watches it. A job
that was over before the worker was stopped is told of all the same. A flush succeeds only when all jobs handed
in before have ended, and fails only if the worker was stopped. -/
theorem results_delivered [Inhabited ρ] (s : σ) (moves : List (Move σ ρ)) :
    let c := (begin s).run moves
    let jobs := moves.filterMap Move.job?
    (∀ t r, c.queue.result? t = some r ↔ t ∈ c.queue.watched ∧ (∀ e, c.untold ≠ some (t, e)) ∧
      ∃ fate, Decided s moves t fate ∧ r = fate.result) ∧
    (∀ t fate fate', Decided s moves t fate → Decided s moves t fate' → fate = fate') ∧
    (∀ t < jobs.length, .abandon t ∉ moves → t ∈ c.queue.watched) ∧
    (∀ before after t r, moves = before ++ .close :: after → Decided s before t (.ended (.settled r)) →
      .abandon t ∉ moves → (c.step .tell).queue.result? t = some r) ∧
    (∀ before after t, moves = before ++ .flush :: after → t = (before.filterMap Move.job?).length →
      (∀ r, c.queue.result? t = some (.ok r) → ∀ u < t, ∃ e, Decided s moves u (.ended e)) ∧
      (∀ e, c.queue.result? t = some (.error e) → e = .queueClosed ∧ .close ∈ moves)) := by
  intro c jobs
  have hjobs : jobs = c.handed := (handed_run_begin s moves).symm
  have hanswered : c.Answered := answered_run s moves
  have hlog : ∀ {t fate}, .finished t fate ∈ c.log ↔ Decided s moves t fate := mem_log_run s moves
  have hresult : ∀ t r, c.queue.result? t = some r ↔ t ∈ c.queue.watched ∧ (∀ e, c.untold ≠ some (t, e)) ∧
      ∃ fate, Decided s moves t fate ∧ r = fate.result := by
    intro t r
    simp only [hanswered.result?_eq_some_iff, hanswered.results, hlog]
  refine ⟨hresult, ?_, fun t ht hkept => watched_run s (hjobs ▸ ht) hkept, ?_, ?_⟩
  · intro t fate fate' h h'
    exact hanswered.tidy.tickets.fate_unique (hlog.mpr h) (hlog.mpr h')
  · rintro before after t r hmoves h hkept
    have hmore : Decided s moves t (.ended (.settled r)) := by
      rw [hmoves]
      exact h.append
    exact result?_tell hmore hkept
  · intro before after t hmoves ht
    have hdone : c.handed[t]? = some (.done default) := by
      rw [← hjobs, show jobs = _ from congrArg (List.filterMap Move.job?) hmoves, List.filterMap_append, ht,
        List.getElem?_append_right (Nat.le_refl _), Nat.sub_self]
      rfl
    constructor
    · intro r hr u hu
      obtain ⟨-, -, fate, hfate, heq⟩ := (hresult t _).mp hr
      rcases hfate.done hdone with rfl | ⟨hclosed, -⟩
      · exact hfate.ended_before hu
      · rw [hclosed] at heq
        cases heq
    · intro e he
      obtain ⟨-, -, fate, hfate, heq⟩ := (hresult t _).mp he
      rcases hfate.done hdone with rfl | ⟨hclosed, hclose⟩
      · cases heq
      · rw [hclosed] at heq
        cases heq
        exact ⟨rfl, hclose⟩

end Worksheet.Course
