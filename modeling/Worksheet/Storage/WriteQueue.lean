import Worksheet.SheetError
/-!
# The queue of writes

Writes are carried out in the order in which they were handed in, one at a time, by a worker. Whoever
hands in a job gets a ticket for its result and need not wait for it. A job that fails or crashes does
not hold up the ones behind it.

* `Job`: work on a state, done in turns, with an end;
* `WriteQueue` with its moves: `enqueue`, `abandon`, `start`, `turn`, `close`;
* `WriteQueue.round` and `WriteQueue.await`: one thread that makes the moves of the worker until a
  result is there.
-/

namespace Worksheet

/-! ## Jobs -/

/-- How a job ends. -/
inductive JobEnd (ρ : Type)
  | settled (result : Except SheetError ρ)
  /-- The job breaks off without a result. -/
  | crashed

/-- What is told of a job that has ended. -/
def JobEnd.result {ρ : Type} : JobEnd ρ → Except SheetError ρ
  | settled r => r
  | crashed => .error .queueClosed

/-- Work on a state. -/
inductive Job (σ ρ : Type)
  /-- Does something and goes on in another turn. -/
  | turn (act : σ → σ) (next : Job σ ρ)
  /-- Does something and ends. -/
  | last (act : σ → σ × JobEnd ρ)

namespace Job

variable {σ ρ : Type}

/-- The number of turns that a job takes. -/
def turns : Job σ ρ → Nat
  | turn _ next => next.turns + 1
  | last _ => 1

/-- A job that does nothing and ends with a result. -/
def done (result : ρ) : Job σ ρ :=
  last fun s => (s, .settled (.ok result))

/-- Lets some turns pass before a job. -/
def after (job : Job σ ρ) : Nat → Job σ ρ
  | 0 => job
  | n + 1 => turn id (job.after n)

end Job

/-! ## The queue -/

/-- What stands for a job and for its result. -/
abbrev Ticket : Type :=
  Nat

/-- A queue of jobs with its worker. -/
structure WriteQueue (σ ρ : Type) where
  /-- The worker is there. -/
  isOpen : Bool
  /-- The jobs that have not started, the oldest first. -/
  waiting : List (Ticket × Job σ ρ)
  /-- What is left of the job that has started last, unless it is over. -/
  running : Option (Ticket × Job σ ρ)
  /-- The number of tickets given out. -/
  issued : Nat
  /-- The number of jobs that count as pending. -/
  pending : Nat
  /-- The tickets whose holders want the result. -/
  watched : List Ticket
  /-- The results that have been delivered. -/
  results : List (Ticket × Except SheetError ρ)

namespace WriteQueue

variable {σ ρ : Type}

/-- A queue with a worker and without jobs. -/
def new : WriteQueue σ ρ :=
  ⟨true, [], none, 0, 0, [], []⟩

/-- Some job is pending. -/
def hasPending (q : WriteQueue σ ρ) : Bool :=
  0 < q.pending

/-- The result that a ticket stands for, once it is there. -/
def result? (q : WriteQueue σ ρ) (t : Ticket) : Option (Except SheetError ρ) :=
  (q.results.find? (·.1 == t)).map (·.2)

/-- Delivers a result, if anyone wants it. -/
def deliver (q : WriteQueue σ ρ) (t : Ticket) (r : Except SheetError ρ) : WriteQueue σ ρ :=
  if q.watched.contains t then { q with results := (t, r) :: q.results } else q

/-- One job less counts as pending. The counter has no sign: taken below zero, it would go on from its
largest number. -/
def release (q : WriteQueue σ ρ) : WriteQueue σ ρ :=
  { q with pending := if q.pending = 0 then UInt64.size - 1 else q.pending - 1 }

/-- Drops a job: it counts as pending no longer, and its result is that the queue is closed. -/
def drop (q : WriteQueue σ ρ) (t : Ticket) : WriteQueue σ ρ :=
  q.release.deliver t (.error .queueClosed)

/-- Hands in a job, which counts as pending at once. Without a worker it is dropped. -/
def enqueue (q : WriteQueue σ ρ) (job : Job σ ρ) : Ticket × WriteQueue σ ρ :=
  let t := q.issued
  let q := { q with issued := t + 1, watched := t :: q.watched, pending := q.pending + 1 }
  if q.isOpen then (t, { q with waiting := q.waiting ++ [(t, job)] }) else (t, q.drop t)

/-- Gives a ticket away. Its job is carried out all the same. -/
def abandon (q : WriteQueue σ ρ) (t : Ticket) : WriteQueue σ ρ :=
  { q with
    watched := q.watched.filter (· != t)
    results := q.results.filter (·.1 != t) }

/-- The worker starts on the oldest job, unless another one is running. -/
def start? (q : WriteQueue σ ρ) : Option (WriteQueue σ ρ) :=
  match q.running, q.waiting with
  | none, job :: rest => some { q with running := some job, waiting := rest }
  | _, _ => none

/-- The running job has taken its last turn. It counts as pending no longer. -/
def leave (q : WriteQueue σ ρ) : WriteQueue σ ρ :=
  { q.release with running := none }

/-- Ends a job: it counts as pending no longer, and then its result is delivered. -/
def finish (q : WriteQueue σ ρ) (t : Ticket) (e : JobEnd ρ) : WriteQueue σ ρ :=
  q.leave.deliver t e.result

/-- The running job takes a turn. -/
def turn? (q : WriteQueue σ ρ) (s : σ) : Option (σ × WriteQueue σ ρ) :=
  match q.running with
  | none => none
  | some (t, .turn act next) => some (act s, { q with running := some (t, next) })
  | some (t, .last act) =>
    let (s, e) := act s
    some (s, q.finish t e)

/-- Stops the worker. The job that is running and those that wait are dropped. -/
def close (q : WriteQueue σ ρ) : WriteQueue σ ρ :=
  (q.running.toList ++ q.waiting).foldl (fun q job => q.drop job.1)
    { q with isOpen := false, running := none, waiting := [] }

/-! ## One thread -/

/-- How many moves a round has at most. -/
def movesPerRound : Nat := 61

/-- How many moves are left to make. -/
def work (q : WriteQueue σ ρ) : Nat :=
  q.waiting.foldr (fun job moves => job.2.turns + 1 + moves) ((q.running.map (·.2.turns)).getD 0)

/-- The running job is not over after its next turn. -/
def yields (q : WriteQueue σ ρ) : Bool :=
  match q.running with
  | some (_, .turn _ _) => true
  | _ => false

/-- A round: moves of the worker, one after the other, until a job passes its turn on, nothing is left to
do, or the round has had its moves. -/
def round (q : WriteQueue σ ρ) (s : σ) : Nat → σ × WriteQueue σ ρ
  | 0 => (s, q)
  | n + 1 =>
    match q.turn? s with
    | some (s', q') => if q.yields then (s', q') else q'.round s' n
    | none =>
      match q.start? with
      | some q' => q'.round s n
      | none => (s, q)

/-- Rounds until a result is there. It is looked for between rounds only. -/
def awaitFor (t : Ticket) (q : WriteQueue σ ρ) (s : σ) : Nat → σ × WriteQueue σ ρ
  | 0 => (s, q)
  | n + 1 =>
    if (q.result? t).isSome then (s, q)
    else
      let (s, q) := q.round s movesPerRound
      q.awaitFor t s n

/-- Waits for a result. Every round makes a move, so that the moves left are rounds enough. -/
def await (q : WriteQueue σ ρ) (t : Ticket) (s : σ) : Option (Except SheetError ρ) × σ × WriteQueue σ ρ :=
  let (s, q) := q.awaitFor t s q.work
  (q.result? t, s, q)

/-- Waits until every job that was handed in before is over. -/
def flush [Inhabited ρ] (q : WriteQueue σ ρ) (s : σ) :
    Option (Except SheetError ρ) × σ × WriteQueue σ ρ :=
  let (t, q) := q.enqueue (.done default)
  q.await t s

end WriteQueue

end Worksheet
