import Worksheet.Proofs.Storage.Delivery
/-!
# The number of pending jobs

The counter of a queue goes up when a job is handed in, and comes down again once for each job.

* `Counted`: it is the number of jobs that are not over;
* **`pending_run`**: what it is after a run.
-/

namespace Worksheet.Course

variable {σ ρ : Type} {c c' : Course σ ρ} {m : Move σ ρ}

/-- The counter is the number of jobs that are not over. -/
structure Counted (c : Course σ ρ) : Prop where
  tickets : c.Numbered
  count : c.queue.pending = c.live.length

theorem Counted.moved (h : c.Counted) (hm : c.Moved m c') : c'.Counted := by
  refine ⟨h.tickets.moved hm, ?_⟩
  have hcount := h.count
  cases hm with
  | accept job hopen =>
    simp only [live, List.length_append] at hcount ⊢
    rw [hcount, List.length_singleton, Nat.add_assoc]
  | start t job rest htold hrunning hwaiting => simpa [live, hrunning, hwaiting, Nat.add_comm] using hcount
  | turn t act next hrunning => simpa [live, hrunning] using hcount
  | last t act hrunning =>
    have hpending : c.queue.pending = c.queue.waiting.length + 1 := by
      simpa [live, hrunning, Nat.add_comm] using hcount
    simp [live, WriteQueue.pending_leave, hpending]
  | tell t e huntold => simpa [live] using hcount
  | close =>
    have hpending : c.queue.close.pending = c.queue.pending - c.live.length :=
      WriteQueue.pending_close hcount.symm.le
    simp [live, hpending, hcount]
  | _ => exact hcount

theorem counted_run (s : σ) (moves : List (Move σ ρ)) : ((begin s).run moves).Counted :=
  run_induction (fun c m h => h.moved (c.step_moved m)) ⟨numbered_begin s, rfl⟩ moves

theorem Counted.pending_add (h : c.Counted) : c.queue.pending + c.finished.length = c.handed.length := by
  have hlength := congrArg List.length h.tickets.tickets
  simp only [List.length_append, List.length_map, List.length_range] at hlength
  have hcount := h.count
  omega

theorem Counted.pending_eq (h : c.Counted) :
    c.queue.pending = ((List.range c.handed.length).filter (· ∉ c.finished)).length := by
  have hrest : (c.live.map (·.1)).filter (· ∉ c.finished) = c.live.map (·.1) := by
    refine List.filter_eq_self.mpr fun t ht => ?_
    simpa using fun hfinished => (List.nodup_append.mp h.tickets.nodup).2.2 t hfinished t ht rfl
  rw [← h.tickets.tickets, List.filter_append, hrest, h.count]
  simp

/-- **The counter is the number of jobs that were handed in and are not over.** It comes down once for each job
that has ended or was dropped, so that it never goes below zero. A job that is handed in when there is no worker
leaves it as it was, after the worker was stopped it is zero, and a job counts no longer when its result is
there. -/
theorem pending_run (s : σ) (moves : List (Move σ ρ)) :
    let c := (begin s).run moves
    let jobs := moves.filterMap Move.job?
    c.queue.pending = ((List.range jobs.length).filter (· ∉ c.finished)).length ∧
    (∀ t, t ∈ c.finished ↔ ∃ fate, Decided s moves t fate) ∧
    (c.finished.Nodup ∧ c.queue.pending + c.finished.length = jobs.length) ∧
    (c.queue.isOpen = false → ∀ job, (c.queue.enqueue job).2.pending = c.queue.pending) ∧
    (.close ∈ moves → c.queue.pending = 0) ∧
    (∀ t r, c.queue.result? t = some r → t ∈ c.finished) := by
  intro c jobs
  have hcounted : c.Counted := counted_run s moves
  rw [show jobs = c.handed from (handed_run_begin s moves).symm]
  refine ⟨hcounted.pending_eq, ?_, ⟨?_, hcounted.pending_add⟩, ?_, ?_, ?_⟩
  · intro t
    simp only [mem_finished, c, mem_log_run]
  · exact (List.nodup_append.mp hcounted.tickets.nodup).1
  · intro hclosed job
    rw [WriteQueue.enqueue_of_closed hclosed]
  · intro hclose
    rw [hcounted.count, hcounted.tickets.shut (isOpen_run_begin.mpr hclose)]
    rfl
  · intro t r hr
    obtain ⟨-, -, fate, hfate, -⟩ := ((answered_run s moves).results t r).mp (WriteQueue.mem_of_result? hr)
    exact mem_finished.mpr ⟨fate, hfate⟩

end Worksheet.Course
