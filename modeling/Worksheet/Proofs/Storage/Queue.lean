import Mathlib.Data.List.Basic
import Mathlib.Tactic.SplitIfs
import Worksheet.Storage.WriteQueue
/-!
# Moves of the queue of writes

What each move does to the parts of a queue.

* `enqueue_of_isOpen`, `enqueue_of_closed`: a job that is handed in waits behind the others, or is dropped;
* `waiting_deliver`, `mem_results_deliver` and others: a delivery touches the results only;
* `waiting_finish`, `mem_results_finish` and others: the end of a job;
* `pending_close`, `mem_results_close` and others: every job is dropped at the end.
-/

namespace Worksheet.WriteQueue

variable {σ ρ : Type} {q : WriteQueue σ ρ} {r : Except SheetError ρ} {t : Ticket} {e : JobEnd ρ}

theorem enqueue_of_isOpen (h : q.isOpen = true) (job : Job σ ρ) :
    q.enqueue job = (q.issued, { q with
      issued := q.issued + 1
      watched := q.issued :: q.watched
      waiting := q.waiting ++ [(q.issued, job)]
      pending := q.pending + 1 }) := by
  rw [enqueue]
  exact if_pos h

theorem enqueue_of_closed (h : q.isOpen = false) (job : Job σ ρ) :
    q.enqueue job = (q.issued, { q with
      issued := q.issued + 1
      watched := q.issued :: q.watched
      results := (q.issued, .error .queueClosed) :: q.results }) := by
  rw [enqueue]
  dsimp only
  rw [if_neg (by simp [h])]
  simp [drop, release, deliver]

/-! ## Deliveries -/

@[simp] theorem isOpen_deliver : (q.deliver t r).isOpen = q.isOpen := by
  unfold deliver; split_ifs <;> rfl

@[simp] theorem waiting_deliver : (q.deliver t r).waiting = q.waiting := by
  unfold deliver; split_ifs <;> rfl

@[simp] theorem running_deliver : (q.deliver t r).running = q.running := by
  unfold deliver; split_ifs <;> rfl

@[simp] theorem issued_deliver : (q.deliver t r).issued = q.issued := by
  unfold deliver; split_ifs <;> rfl

@[simp] theorem pending_deliver : (q.deliver t r).pending = q.pending := by
  unfold deliver; split_ifs <;> rfl

@[simp] theorem watched_deliver : (q.deliver t r).watched = q.watched := by
  unfold deliver; split_ifs <;> rfl

theorem mem_results_deliver_iff {d : Ticket × Except SheetError ρ} :
    d ∈ (q.deliver t r).results ↔ d ∈ q.results ∨ (t ∈ q.watched ∧ d = (t, r)) := by
  unfold deliver
  split_ifs with h
  · simp only [List.contains_eq_mem, decide_eq_true_eq] at h
    simp [h, or_comm]
  · simp only [List.contains_eq_mem, decide_eq_true_eq] at h
    simp [h]

theorem mem_results_deliver {d : Ticket × Except SheetError ρ} (h : d ∈ (q.deliver t r).results) :
    d ∈ q.results ∨ d = (t, r) :=
  (mem_results_deliver_iff.mp h).imp_right And.right

/-! ## Ends of jobs -/

@[simp] theorem isOpen_leave : q.leave.isOpen = q.isOpen := rfl

@[simp] theorem waiting_leave : q.leave.waiting = q.waiting := rfl

@[simp] theorem running_leave : q.leave.running = none := rfl

@[simp] theorem issued_leave : q.leave.issued = q.issued := rfl

@[simp] theorem watched_leave : q.leave.watched = q.watched := rfl

@[simp] theorem results_leave : q.leave.results = q.results := rfl

theorem pending_leave (h : q.pending ≠ 0) : q.leave.pending = q.pending - 1 :=
  if_neg h

@[simp] theorem isOpen_finish : (q.finish t e).isOpen = q.isOpen := by
  cases e <;> exact isOpen_deliver

@[simp] theorem waiting_finish : (q.finish t e).waiting = q.waiting := by
  cases e <;> exact waiting_deliver

@[simp] theorem running_finish : (q.finish t e).running = none := by
  cases e <;> exact running_deliver

@[simp] theorem issued_finish : (q.finish t e).issued = q.issued := by
  cases e <;> exact issued_deliver

theorem mem_results_finish {d : Ticket × Except SheetError ρ}
    (h : d ∈ (q.finish t (.settled r)).results) : d ∈ q.results ∨ d = (t, r) :=
  mem_results_deliver (q := q.leave) h

theorem mem_of_result? (h : q.result? t = some r) : (t, r) ∈ q.results := by
  obtain ⟨d, hd, rfl⟩ := Option.map_eq_some_iff.mp h
  obtain rfl : d.1 = t := by simpa using List.find?_some hd
  exact List.mem_of_find?_eq_some hd

/-! ## Dropping jobs -/

section Drops

variable {jobs : List (Ticket × Job σ ρ)}

theorem foldl_drop_frame (jobs : List (Ticket × Job σ ρ)) (q : WriteQueue σ ρ) :
    ∃ pending results, jobs.foldl (fun q job => q.drop job.1) q =
      { q with pending := pending, results := results } := by
  induction jobs generalizing q with
  | nil => exact ⟨_, _, rfl⟩
  | cons job jobs ih =>
    obtain ⟨pending, results, h⟩ := ih (q.drop job.1)
    refine ⟨pending, results, ?_⟩
    rw [List.foldl_cons, h, drop, release, deliver]
    split_ifs <;> rfl

/-- Each dropped job counts once, and never more than were counted. -/
theorem pending_foldl_drop (h : jobs.length ≤ q.pending) :
    (jobs.foldl (fun q job => q.drop job.1) q).pending = q.pending - jobs.length := by
  induction jobs generalizing q with
  | nil => rfl
  | cons job jobs ih =>
    have hpos : q.pending ≠ 0 := by simp at h; omega
    have hdrop : (q.drop job.1).pending = q.pending - 1 := by
      rw [drop, pending_deliver, release]
      exact if_neg hpos
    rw [List.foldl_cons, ih (by simp at h; omega), hdrop, List.length_cons]
    omega

theorem mem_results_foldl_drop {d : Ticket × Except SheetError ρ} :
    d ∈ (jobs.foldl (fun q job => q.drop job.1) q).results ↔
      d ∈ q.results ∨ ∃ job ∈ jobs, job.1 ∈ q.watched ∧ d = (job.1, .error .queueClosed) := by
  induction jobs generalizing q with
  | nil => simp
  | cons job jobs ih =>
    have hwatched : (q.drop job.1).watched = q.watched := watched_deliver
    have hresults : d ∈ (q.drop job.1).results ↔
        d ∈ q.results ∨ (job.1 ∈ q.watched ∧ d = (job.1, .error .queueClosed)) :=
      mem_results_deliver_iff (q := q.release)
    rw [List.foldl_cons, ih, hwatched, hresults]
    simp [or_assoc]

theorem close_frame (q : WriteQueue σ ρ) : ∃ pending results, q.close =
    { q with isOpen := false, running := none, waiting := [], pending := pending, results := results } :=
  foldl_drop_frame _ _

@[simp] theorem isOpen_close : q.close.isOpen = false := by
  obtain ⟨_, _, h⟩ := q.close_frame; rw [h]

@[simp] theorem waiting_close : q.close.waiting = [] := by
  obtain ⟨_, _, h⟩ := q.close_frame; rw [h]

@[simp] theorem running_close : q.close.running = none := by
  obtain ⟨_, _, h⟩ := q.close_frame; rw [h]

@[simp] theorem issued_close : q.close.issued = q.issued := by
  obtain ⟨_, _, h⟩ := q.close_frame; rw [h]

@[simp] theorem watched_close : q.close.watched = q.watched := by
  obtain ⟨_, _, h⟩ := q.close_frame; rw [h]

theorem pending_close (h : (q.running.toList ++ q.waiting).length ≤ q.pending) :
    q.close.pending = q.pending - (q.running.toList ++ q.waiting).length :=
  pending_foldl_drop h

theorem mem_results_close {d : Ticket × Except SheetError ρ} :
    d ∈ q.close.results ↔ d ∈ q.results ∨
      ∃ job ∈ q.running.toList ++ q.waiting, job.1 ∈ q.watched ∧ d = (job.1, .error .queueClosed) :=
  mem_results_foldl_drop

end Drops

end Worksheet.WriteQueue
