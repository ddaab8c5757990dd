import NetworkLib.Theory.Trace

/-! # The asynchronous logger

`AsyncLogger` after `Initialize`: any number of threads that call `Enqueue` or `EnqueueWithTimeout`,
the worker thread, and the thread that calls `Shutdown`. Each step is one section under
`queue_mutex_`, one access to `running_`, one notification or one write to a sink. A wait on a
condition variable ends the section and puts the thread into the wait set, which it leaves when it
is notified or, if the wait has a deadline, when that has passed; the section that follows takes the
lock again. A step that a thread cannot take now changes nothing. -/

namespace NetworkLib.AsyncLogger

/-- `OverflowPolicy`. -/
inductive OverflowPolicy where
  | block
  | discardOldest
  | discardNewest
  deriving DecidableEq

/-- What the logger is set up with. -/
structure Config where
  /-- `async_queue_size`. -/
  asyncQueueSize : ℕ
  overflowPolicy : OverflowPolicy := .block
  /-- The number of sinks. -/
  sinks : ℕ := 1

/-- `BATCH_SIZE`. -/
def batchSize : ℕ := 32

/-- Where a logging thread is; `timed` if it is in `EnqueueWithTimeout`. -/
inductive Producer (ε : Type*) where
  | idle
  /-- It has found `running_` true, and is to take the lock. -/
  | entered (entry : ε) (timed : Bool)
  /-- In the wait set of `space_cv_`. -/
  | waiting (entry : ε) (timed : Bool)
  /-- Out of the wait set, by a notification or because the deadline has passed (`expired`), and to
  take the lock again. -/
  | woken (entry : ε) (timed expired : Bool)
  deriving DecidableEq

/-- An accepted entry, with the number of entries accepted before it. -/
abbrev Entry (ε : Type*) := ℕ × ε

/-- Writes to be done: the sink and the entry of each. -/
abbrev Writes (ε : Type*) := List (ℕ × Entry ε)

/-- Where the worker thread is. -/
inductive Worker (ε : Type*) where
  /-- Before the loop condition. -/
  | testing
  /-- To take the lock. -/
  | locking
  /-- In the wait set of `queue_cv_`. -/
  | waiting
  /-- Out of the wait set, and to take the lock again. -/
  | woken (expired : Bool)
  /-- Before `space_cv_.notify_all()`. -/
  | notifying (batch : List (Entry ε))
  /-- In `ProcessBatch`, with these writes to be done, for a batch of this size. -/
  | writing (todo : Writes ε) (size : ℕ)
  | exited

/-- Where the thread that calls `Shutdown` is. -/
inductive Shutdown (ε : Type*) where
  | idle
  /-- Before `queue_cv_.notify_all()`. -/
  | notifying
  /-- Before the join of the worker. -/
  | joining
  /-- To take what remains in the queue. -/
  | draining
  /-- In `ProcessBatch`. -/
  | writing (todo : Writes ε) (size : ℕ)
  /-- To flush the sinks and to let them go. -/
  | flushing
  | returned

/-- What the threads share, and where each of them is. -/
structure State (ι ε : Type*) where
  /-- `running_`. -/
  running : Bool := true
  /-- `queue_`. -/
  queue : List (Entry ε) := []
  /-- `dropped_count_`. -/
  dropped : ℕ := 0
  /-- `processed_count_`. -/
  processed : ℕ := 0
  producers : ι → Producer ε := fun _ => .idle
  worker : Worker ε := .testing
  shutdown : Shutdown ε := .idle
  /-- The entries accepted so far: the calls that pushed them return true. -/
  accepted : List (Entry ε) := []
  /-- The numbers of the entries `DISCARD_OLDEST` has taken off the queue. -/
  evicted : List ℕ := []
  /-- What has been written to each sink. -/
  written : ℕ → List (Entry ε) := fun _ => []

/-- One step of one thread. -/
inductive Event (ι ε : Type*) where
  /-- A thread calls `Enqueue` or `EnqueueWithTimeout`, and tests `running_`. -/
  | call (thread : ι) (entry : ε) (timed : Bool)
  /-- It takes the lock. -/
  | lock (thread : ι)
  /-- The deadline of its wait passes. -/
  | expire (thread : ι)
  /-- It takes the lock again. -/
  | relock (thread : ι)
  /-- The worker tests the loop condition. -/
  | workerTest
  /-- The worker takes the lock. -/
  | workerLock
  /-- `BATCH_TIMEOUT` passes. -/
  | workerExpire
  /-- `space_cv_.notify_all()`. -/
  | workerNotify
  /-- The next write of the worker. -/
  | workerWrite
  /-- `running_.exchange(false)`. -/
  | exchange
  /-- `queue_cv_.notify_all()`. -/
  | notify
  /-- The join of the worker. -/
  | join
  /-- The section in which `Shutdown` empties the queue. -/
  | drain
  /-- The next write of `Shutdown`. -/
  | write
  /-- The sinks are flushed and let go. -/
  | flush

variable {ι ε : Type*}

/-- The writes of `ProcessBatch`: the whole batch to one sink after another. -/
def processBatch (c : Config) (batch : List (Entry ε)) : Writes ε :=
  (List.range c.sinks).flatMap fun k => batch.map fun e => (k, e)

/-- A notification of a thread in the wait set of `space_cv_`. -/
def Producer.notified : Producer ε → Producer ε
  | .waiting entry timed => .woken entry timed false
  | p => p

/-- A notification of the worker, if it is in the wait set of `queue_cv_`. -/
def Worker.notified : Worker ε → Worker ε
  | .waiting => .woken false
  | w => w

namespace State

variable [DecidableEq ι] (c : Config) (s : State ι ε)

/-- A thread goes on elsewhere. -/
def go (thread : ι) (p : Producer ε) : State ι ε :=
  { s with producers := Function.update s.producers thread p }

/-- `queue_.push` and `queue_cv_.notify_one`, and the call returns true. -/
def push (thread : ι) (entry : ε) : State ι ε :=
  ({ s with
    queue := s.queue ++ [(s.accepted.length, entry)]
    accepted := s.accepted ++ [(s.accepted.length, entry)]
    worker := s.worker.notified } : State ι ε).go thread .idle

/-- A thread counts its entry as dropped and returns false. -/
def drop (thread : ι) : State ι ε :=
  ({ s with dropped := s.dropped + 1 } : State ι ε).go thread .idle

/-- `queue_.pop` on overflow; a full queue with room for an entry holds one. -/
def evict : State ι ε :=
  { s with
    queue := s.queue.tail
    evicted := s.evicted ++ (s.queue.head?.map Prod.fst).toList
    dropped := s.dropped + 1 }

/-- `Enqueue` and `EnqueueWithTimeout` up to the lock. -/
def call (thread : ι) (entry : ε) (timed : Bool) : State ι ε :=
  match s.producers thread with
  | .idle => if s.running then s.go thread (.entered entry timed) else s
  | _ => s

/-- The section of `TryEnqueue`; for `EnqueueWithTimeout` the wait comes before it. -/
def lock (thread : ι) : State ι ε :=
  match s.producers thread with
  | .entered entry timed =>
      if c.asyncQueueSize ≤ s.queue.length then
        match c.overflowPolicy with
        -- the predicate of the wait is evaluated first
        | .block => s.go thread (if s.running then .waiting entry timed else .idle)
        | .discardOldest => s.evict.push thread entry
        | .discardNewest => s.drop thread
      else s.push thread entry
  | _ => s

/-- The deadline of `space_cv_.wait_until`. -/
def expire (thread : ι) : State ι ε :=
  match s.producers thread with
  | .waiting entry true => s.go thread (.woken entry true true)
  | _ => s

/-- The section that follows a wait on `space_cv_`. -/
def relock (thread : ι) : State ι ε :=
  match s.producers thread with
  | .woken entry timed expired =>
      if s.queue.length < c.asyncQueueSize ∨ ¬ s.running then
        -- space, or shut down: a call that is shut down returns false
        if s.running then s.push thread entry else s.go thread .idle
      -- still full: a timed wait that is over counts a drop, another wait goes on
      else if expired then s.drop thread
      else s.go thread (.waiting entry timed)
  | _ => s

/-- `while (running_)`. -/
def workerTest : State ι ε :=
  match s.worker with
  -- the loop is left here with whatever is in the queue
  | .testing => { s with worker := if s.running then .locking else .exited }
  | _ => s

/-- The worker's section once its wait is over. -/
def collect : State ι ε :=
  if ¬ s.running ∧ s.queue = [] then { s with worker := .exited }
  else
    { s with
      queue := s.queue.drop batchSize
      -- an empty batch is neither announced nor processed
      worker := if s.queue = [] then .testing else .notifying (s.queue.take batchSize) }

/-- The worker's section, which waits unless there is something to do or the time has passed. -/
def workerLock : State ι ε :=
  match s.worker with
  | .locking => if s.queue ≠ [] ∨ ¬ s.running then s.collect else { s with worker := .waiting }
  | .woken expired =>
      if s.queue ≠ [] ∨ ¬ s.running ∨ expired then s.collect else { s with worker := .waiting }
  | _ => s

/-- `BATCH_TIMEOUT` of `queue_cv_.wait_for`. -/
def workerExpire : State ι ε :=
  match s.worker with
  | .waiting => { s with worker := .woken true }
  | _ => s

/-- `space_cv_.notify_all()`. -/
def workerNotify : State ι ε :=
  match s.worker with
  | .notifying batch =>
      { s with
        producers := fun thread => (s.producers thread).notified
        worker := .writing (processBatch c batch) batch.length }
  | _ => s

/-- A write to a sink. -/
def writeTo (k : ℕ) (e : Entry ε) : State ι ε :=
  { s with written := Function.update s.written k (s.written k ++ [e]) }

/-- The worker in `ProcessBatch`. -/
def workerWrite : State ι ε :=
  match s.worker with
  | .writing ((k, e) :: todo) size =>
      ({ s with worker := .writing todo size } : State ι ε).writeTo k e
  | .writing [] size => { s with processed := s.processed + size, worker := .testing }
  | _ => s

/-- `running_.exchange(false)`. -/
def exchange : State ι ε :=
  match s.shutdown with
  | .idle => { s with running := false, shutdown := if s.running then .notifying else .returned }
  | _ => s

/-- `queue_cv_.notify_all()`. -/
def notify : State ι ε :=
  match s.shutdown with
  | .notifying => { s with worker := s.worker.notified, shutdown := .joining }
  | _ => s

/-- `worker_.join()`. -/
def join : State ι ε :=
  match s.shutdown, s.worker with
  | .joining, .exited => { s with shutdown := .draining }
  | _, _ => s

/-- The final drain. -/
def drain : State ι ε :=
  match s.shutdown with
  | .draining =>
      { s with
        queue := []
        shutdown := if s.queue = [] then .flushing
          else .writing (processBatch c s.queue) s.queue.length }
  | _ => s

/-- `Shutdown` in `ProcessBatch`. -/
def write : State ι ε :=
  match s.shutdown with
  | .writing ((k, e) :: todo) size =>
      ({ s with shutdown := .writing todo size } : State ι ε).writeTo k e
  | .writing [] size => { s with processed := s.processed + size, shutdown := .flushing }
  | _ => s

/-- The end of `Shutdown`. -/
def flush : State ι ε :=
  match s.shutdown with
  | .flushing => { s with shutdown := .returned }
  | _ => s

/-- One step. -/
def step : State ι ε → Event ι ε → State ι ε
  | s, .call thread entry timed => s.call thread entry timed
  | s, .lock thread => s.lock c thread
  | s, .expire thread => s.expire thread
  | s, .relock thread => s.relock c thread
  | s, .workerTest => s.workerTest
  | s, .workerLock => s.workerLock
  | s, .workerExpire => s.workerExpire
  | s, .workerNotify => s.workerNotify c
  | s, .workerWrite => s.workerWrite
  | s, .exchange => s.exchange
  | s, .notify => s.notify
  | s, .join => s.join
  | s, .drain => s.drain c
  | s, .write => s.write
  | s, .flush => s.flush

/-- The state reached by a run. -/
def after (es : List (Event ι ε)) : State ι ε := Trace.run (step c) {} es

end State

/-! ## What a step leaves alone -/

/-- A step of the worker. -/
def Event.OfWorker : Event ι ε → Prop
  | .workerTest => True
  | .workerLock => True
  | .workerExpire => True
  | .workerNotify => True
  | .workerWrite => True
  | _ => False

/-- A step of the thread that calls `Shutdown`. -/
def Event.OfShutdown : Event ι ε → Prop
  | .exchange => True
  | .notify => True
  | .join => True
  | .drain => True
  | .write => True
  | .flush => True
  | _ => False

/-- A step of a logging thread, or the one that notifies all of them. -/
def Event.MovesProducers : Event ι ε → Prop
  | .call _ _ _ => True
  | .lock _ => True
  | .expire _ => True
  | .relock _ => True
  | .workerNotify => True
  | _ => False

namespace State

variable [DecidableEq ι] {c : Config} {s : State ι ε} {e : Event ι ε}

omit [DecidableEq ι] in
/-- Taking a batch does not touch `Shutdown`. -/
theorem shutdown_collect (s : State ι ε) : s.collect.shutdown = s.shutdown := by
  unfold collect
  split <;> rfl

omit [DecidableEq ι] in
/-- Nor does it touch `running_`. -/
theorem running_collect (s : State ι ε) : s.collect.running = s.running := by
  unfold collect
  split <;> rfl

/-- Nobody else moves the thread that calls `Shutdown`. -/
theorem shutdown_step (he : ¬ e.OfShutdown) : (step c s e).shutdown = s.shutdown := by
  cases e with
  | call thread entry timed => rw [step, call]; (repeat' split) <;> rfl
  | lock thread => rw [step, lock]; (repeat' split) <;> rfl
  | expire thread => rw [step, expire]; split <;> rfl
  | relock thread => rw [step, relock]; (repeat' split) <;> rfl
  | workerTest => rw [step, workerTest]; split <;> rfl
  | workerLock =>
      rw [step, workerLock]
      repeat' split
      all_goals first | rfl | exact shutdown_collect s
  | workerExpire => rw [step, workerExpire]; split <;> rfl
  | workerNotify => rw [step, workerNotify]; split <;> rfl
  | workerWrite => rw [step, workerWrite]; split <;> rfl
  | _ => exact absurd trivial he

omit [DecidableEq ι] in
/-- Nor the threads that call. -/
theorem producers_collect (s : State ι ε) : s.collect.producers = s.producers := by
  unfold collect
  split <;> rfl

/-- Nobody else moves the logging threads. -/
theorem producers_step (he : ¬ e.MovesProducers) : (step c s e).producers = s.producers := by
  cases e with
  | workerTest => rw [step, workerTest]; split <;> rfl
  | workerLock =>
      rw [step, workerLock]
      repeat' split
      all_goals first | rfl | exact producers_collect s
  | workerExpire => rw [step, workerExpire]; split <;> rfl
  | workerWrite => rw [step, workerWrite]; split <;> rfl
  | exchange => rw [step, exchange]; split <;> rfl
  | notify => rw [step, notify]; split <;> rfl
  | join => rw [step, join]; split <;> rfl
  | drain => rw [step, drain]; split <;> rfl
  | write => rw [step, write]; split <;> rfl
  | flush => rw [step, flush]; split <;> rfl
  | _ => exact absurd trivial he

/-- Only `Shutdown` changes `running_`. -/
theorem running_step (he : ¬ e.OfShutdown) : (step c s e).running = s.running := by
  cases e with
  | call thread entry timed => rw [step, call]; (repeat' split) <;> rfl
  | lock thread => rw [step, lock]; (repeat' split) <;> rfl
  | expire thread => rw [step, expire]; split <;> rfl
  | relock thread => rw [step, relock]; (repeat' split) <;> rfl
  | workerTest => rw [step, workerTest]; split <;> rfl
  | workerLock =>
      rw [step, workerLock]
      repeat' split
      all_goals first | rfl | exact running_collect s
  | workerExpire => rw [step, workerExpire]; split <;> rfl
  | workerNotify => rw [step, workerNotify]; split <;> rfl
  | workerWrite => rw [step, workerWrite]; split <;> rfl
  | _ => exact absurd trivial he

/-- `running_` is cleared for good. -/
theorem running_step_of_cleared (hrun : s.running = false) (e : Event ι ε) :
    (step c s e).running = false := by
  by_cases he : e.OfShutdown
  · cases e with
    | exchange => rw [step, exchange]; split <;> first | rfl | exact hrun
    | notify => rw [step, notify]; split <;> exact hrun
    | join => rw [step, join]; split <;> exact hrun
    | drain => rw [step, drain]; split <;> exact hrun
    | write => rw [step, write]; split <;> exact hrun
    | flush => rw [step, flush]; split <;> exact hrun
    | _ => exact he.elim
  · rw [running_step he, hrun]

/-- Once it has returned, the worker does nothing. -/
theorem step_of_exited (hw : s.worker = .exited) (he : e.OfWorker) : step c s e = s := by
  cases e with
  | workerTest => simp only [step, workerTest, hw]
  | workerLock => simp only [step, workerLock, hw]
  | workerExpire => simp only [step, workerExpire, hw]
  | workerNotify => simp only [step, workerNotify, hw]
  | workerWrite => simp only [step, workerWrite, hw]
  | _ => exact he.elim

/-- Where the worker is after a step that it does not take: a notification moves it only if it
waits. -/
theorem worker_step (he : ¬ e.OfWorker) :
    (step c s e).worker = s.worker ∨ (step c s e).worker = s.worker.notified := by
  cases e with
  | call thread entry timed => rw [step, call]; (repeat' split) <;> exact .inl rfl
  | lock thread =>
      rw [step, lock]
      repeat' split
      all_goals first | exact .inl rfl | exact .inr rfl
  | expire thread => rw [step, expire]; split <;> exact .inl rfl
  | relock thread =>
      rw [step, relock]
      repeat' split
      all_goals first | exact .inl rfl | exact .inr rfl
  | exchange => rw [step, exchange]; split <;> exact .inl rfl
  | notify =>
      rw [step, notify]
      split
      · exact .inr rfl
      · exact .inl rfl
  | join => rw [step, join]; split <;> exact .inl rfl
  | drain => rw [step, drain]; split <;> exact .inl rfl
  | write => rw [step, write]; split <;> exact .inl rfl
  | flush => rw [step, flush]; split <;> exact .inl rfl
  | _ => exact absurd trivial he

/-- The worker returns for good. -/
theorem worker_step_of_exited (hw : s.worker = .exited) (e : Event ι ε) :
    (step c s e).worker = .exited := by
  by_cases he : e.OfWorker
  · rw [step_of_exited hw he, hw]
  · rcases worker_step (c := c) (s := s) he with h | h
    · rw [h, hw]
    · rw [h, hw]
      rfl

end State

end NetworkLib.AsyncLogger
