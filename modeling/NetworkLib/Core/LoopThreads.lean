import NetworkLib.Theory.Trace

/-! # The threads around an event loop

The thread that runs `EventLoop::Run`, any number of threads that call `RunInLoop`, and the thread
that calls `Server::Start` and then `Server::Stop`. Each step is one access to what they share: the
flag `running_`, the counter of the eventfd and the queue `pending_tasks_` under its lock. A step
that a thread cannot take now changes nothing. -/

namespace NetworkLib

/-- A task: what it is, and the tasks it passes to `RunInLoop` in turn, which on the loop's thread
run at once. -/
inductive Task where
  | mk (name : ℕ) (runInLoop : List Task)

namespace Task

/-- The tasks a task passes to `RunInLoop`. -/
def calls : Task → List Task
  | .mk _ calls => calls

mutual

/-- What runs when the loop's thread runs a task: the task and everything it passes on, in order. -/
def run : Task → List Task
  | .mk name calls => .mk name calls :: runAll calls

/-- What runs when the loop's thread runs some tasks. -/
def runAll : List Task → List Task
  | [] => []
  | t :: ts => t.run ++ runAll ts

end

/-- Tasks run one after another. -/
theorem runAll_eq (ts : List Task) : runAll ts = ts.flatMap run := by
  induction ts with
  | nil => rw [runAll, List.flatMap_nil]
  | cons t ts ih => rw [runAll, ih, List.flatMap_cons]

/-- A task runs, and then those it calls. -/
theorem run_eq (t : Task) : t.run = t :: t.calls.flatMap run := by
  obtain ⟨name, calls⟩ := t
  rw [run, runAll_eq, Task.calls]

end Task

namespace LoopThreads

/-- A callback of an event that `Poll` returned: `HandleRead` of the eventfd, or the callback of
another descriptor with the tasks it passes to `RunInLoop`. -/
inductive Callback where
  | wakeup
  | other (calls : List Task)

/-- Where the thread of the loop is. -/
inductive Loop where
  /-- The thread does not exist yet. -/
  | unborn
  /-- In `Run`, before `running_ = true`. -/
  | entering
  /-- Before the loop condition. -/
  | testing
  /-- In `Poll`. -/
  | polling
  /-- Before the next event of a batch. -/
  | dispatching (batch : List Callback)
  /-- In `HandleRead`, between the read of the eventfd and the swap. -/
  | swapping (batch : List Callback)
  /-- Running tasks: those passed to `RunInLoop` that run at once, then those taken from the queue.
  -/
  | executing (inLoop : List Task) (tasks : List (ℕ × Task)) (batch : List Callback)
  | returned

/-- Where the thread that starts and stops the server is. -/
inductive Caller where
  | idle
  /-- `Server::Start` has returned. -/
  | started
  /-- In `EventLoop::Stop`, between `running_ = false` and the wake-up. -/
  | stopping
  /-- `EventLoop::Stop` has completed; `Server::Stop` joins the loop's thread. -/
  | joining
  deriving DecidableEq

/-- What the threads share, and where each of them is. -/
structure State (ι : Type*) where
  /-- `running_`. -/
  running : Bool := false
  /-- The counter of the eventfd. -/
  eventfd : ℕ := 0
  /-- `pending_tasks_`; each task with the number of its push. -/
  pending : List (ℕ × Task) := []
  loop : Loop := .unborn
  caller : Caller := .idle
  /-- The threads in `QueueInLoop`, between the push and the wake-up. -/
  posting : ι → Bool := fun _ => false
  /-- The tasks pushed so far. -/
  pushed : List (ℕ × Task) := []
  /-- The tasks run so far; those taken from the queue with their number. -/
  log : List (Option ℕ × Task) := []
  /-- The tasks begun so far for a callback, or from the queue. -/
  begun : List Task := []

/-- One step of one thread. -/
inductive Event (ι : Type*) where
  /-- A thread other than the loop's calls `RunInLoop`, which pushes the task. -/
  | push (thread : ι) (task : Task)
  /-- The wake-up at the end of `QueueInLoop`. -/
  | wake (thread : ι)
  /-- `Server::Start` creates the thread of the loop. -/
  | start
  /-- `running_ = false` in `EventLoop::Stop`. -/
  | stop
  /-- The wake-up at the end of `EventLoop::Stop`. -/
  | stopWake
  /-- `running_ = true` in `Run`. -/
  | enter
  /-- The loop condition. -/
  | test
  /-- `Poll` returns other descriptors before and after the eventfd, which is among them only if it
  is readable. -/
  | poll (before after : List (List Task)) (seen : Bool)
  /-- `Poll` fails. -/
  | pollFails
  /-- The callback of the next event begins. -/
  | dispatch
  /-- The queue is swapped. -/
  | swap
  /-- The next task is run. -/
  | execute

namespace State

variable {ι : Type*} [DecidableEq ι]

/-- The most an eventfd counts. -/
def maxEventfd : ℕ := 2 ^ 64 - 2

/-- `WakeUp`. A write that would overflow the counter fails. -/
def wakeUp (s : State ι) : State ι :=
  if s.eventfd + 1 ≤ maxEventfd then { s with eventfd := s.eventfd + 1 } else s

/-- The push of `QueueInLoop`. -/
def push (s : State ι) (thread : ι) (task : Task) : State ι :=
  if s.posting thread then s
  else { s with
    pending := s.pending ++ [(s.pushed.length, task)]
    pushed := s.pushed ++ [(s.pushed.length, task)]
    posting := Function.update s.posting thread true }

/-- The rest of `QueueInLoop`. -/
def wake (s : State ι) (thread : ι) : State ι :=
  if s.posting thread then
    ({ s with posting := Function.update s.posting thread false } : State ι).wakeUp
  else s

/-- `Server::Start`. -/
def start (s : State ι) : State ι :=
  match s.caller, s.loop with
  | .idle, .unborn => { s with caller := .started, loop := .entering }
  | _, _ => s

/-- `running_ = false` in `EventLoop::Stop`, called by `Server::Stop`. -/
def stop (s : State ι) : State ι :=
  match s.caller with
  | .started => { s with caller := .stopping, running := false }
  | _ => s

/-- The wake-up of `EventLoop::Stop`. -/
def stopWake (s : State ι) : State ι :=
  match s.caller with
  | .stopping => ({ s with caller := .joining } : State ι).wakeUp
  | _ => s

/-- `running_ = true`. -/
def enter (s : State ι) : State ι :=
  match s.loop with
  | .entering => { s with running := true, loop := .testing }
  | _ => s

/-- `while (running_)`. -/
def test (s : State ι) : State ι :=
  match s.loop with
  | .testing => { s with loop := if s.running then .polling else .returned }
  | _ => s

/-- `Poll`. -/
def poll (s : State ι) (before after : List (List Task)) (seen : Bool) : State ι :=
  match s.loop with
  | .polling =>
      let eventfd := if seen ∧ 0 < s.eventfd then [Callback.wakeup] else []
      { s with loop := .dispatching (before.map .other ++ eventfd ++ after.map .other) }
  | _ => s

/-- `Poll` fails, and `Run` returns. -/
def pollFails (s : State ι) : State ι :=
  match s.loop with
  | .polling => { s with loop := .returned }
  | _ => s

/-- The next event of the batch: `HandleRead` reads the eventfd, another callback runs the tasks it
passes to `RunInLoop`. -/
def dispatch (s : State ι) : State ι :=
  match s.loop with
  | .dispatching [] => { s with loop := .testing }
  | .dispatching (.wakeup :: batch) => { s with eventfd := 0, loop := .swapping batch }
  | .dispatching (.other calls :: batch) =>
      { s with begun := s.begun ++ calls, loop := .executing calls [] batch }
  | _ => s

/-- `tasks.swap(pending_tasks_)`. -/
def swap (s : State ι) : State ι :=
  match s.loop with
  | .swapping batch => { s with pending := [], loop := .executing [] s.pending batch }
  | _ => s

/-- The next task. What it passes to `RunInLoop` runs before anything else. -/
def execute (s : State ι) : State ι :=
  match s.loop with
  | .executing (t :: inLoop) tasks batch =>
      -- on the loop's thread `RunInLoop` runs its task before it returns
      { s with log := s.log ++ [(none, t)], loop := .executing (t.calls ++ inLoop) tasks batch }
  | .executing [] ((n, t) :: tasks) batch =>
      { s with
        log := s.log ++ [(some n, t)]
        begun := s.begun ++ [t]
        loop := .executing t.calls tasks batch }
  | .executing [] [] batch => { s with loop := .dispatching batch }
  | _ => s

/-- One step. -/
def step (s : State ι) : Event ι → State ι
  | .push thread task => s.push thread task
  | .wake thread => s.wake thread
  | .start => s.start
  | .stop => s.stop
  | .stopWake => s.stopWake
  | .enter => s.enter
  | .test => s.test
  | .poll before after seen => s.poll before after seen
  | .pollFails => s.pollFails
  | .dispatch => s.dispatch
  | .swap => s.swap
  | .execute => s.execute

/-- The state reached by a run. -/
def after (es : List (Event ι)) : State ι := Trace.run step {} es

end State

end LoopThreads

end NetworkLib
