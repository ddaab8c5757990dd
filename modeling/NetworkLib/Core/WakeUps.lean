import NetworkLib.Core.LoopThreads

/-! # Wake-ups are not lost

What holds of the threads around an event loop whatever the order of their steps: the tasks pushed
are run in that order, each at most once, and as long as some are pending the loop is awake or about
to be woken. A request to stop, on the other hand, is lost when it comes before the loop's thread
has set `running_`. -/

namespace NetworkLib.LoopThreads

variable {ι : Type*}

/-! ## Queued tasks -/

namespace Loop

/-- The tasks taken from the queue and not run yet. -/
def taken : Loop → List (ℕ × Task)
  | .executing _ tasks _ => tasks
  | _ => []

/-- The tasks passed to `RunInLoop` that are to run before anything else. -/
def inLoop : Loop → List Task
  | .executing inLoop _ _ => inLoop
  | _ => []

/-- The loop has read the eventfd and will swap the queue. -/
def IsSwapping : Loop → Prop
  | .swapping _ => True
  | _ => False

/-- The loop neither holds tasks nor is about to take some. -/
def Quiet (l : Loop) : Prop := l.taken = [] ∧ l.inLoop = [] ∧ ¬ l.IsSwapping

end Loop

namespace State

/-- The tasks taken from the queue that have begun to run, in the order in which they began. -/
def executed (s : State ι) : List (ℕ × Task) :=
  s.log.filterMap fun entry => entry.1.map fun n => (n, entry.2)

/-- A wake-up is under way: the eventfd can be read, or a thread is about to write it, or the loop
has read it and will take what is pending. -/
def Awake (s : State ι) : Prop :=
  0 < s.eventfd ∨ (∃ thread, s.posting thread = true) ∨ s.loop.IsSwapping

/-- What every step keeps. -/
structure QueueInvariant (s : State ι) : Prop where
  /-- The tasks pushed have run, are taken, or are pending, in the order of the pushes. -/
  inOrder : s.executed ++ s.loop.taken ++ s.pending = s.pushed
  /-- The pushes are numbered. -/
  numbered : s.pushed.map Prod.fst = List.range s.pushed.length
  /-- What has run and what is to run at once is what the tasks begun consist of. -/
  nested : s.log.map Prod.snd ++ s.loop.inLoop.flatMap Task.run = s.begun.flatMap Task.run
  /-- **No wake-up is lost.** -/
  awake : s.pending ≠ [] → s.Awake

/-- No task has been queued at the start. -/
theorem queueInvariant_init : QueueInvariant ({} : State ι) :=
  ⟨rfl, rfl, rfl, fun h => absurd rfl h⟩

/-- After `WakeUp` the eventfd can be read. -/
theorem eventfd_wakeUp_pos (s : State ι) : 0 < s.wakeUp.eventfd := by
  unfold wakeUp
  split
  · exact Nat.succ_pos _
  · next h =>
      have hmax : maxEventfd = 2 ^ 64 - 2 := rfl
      omega

/-- `WakeUp` changes nothing but the counter. -/
theorem wakeUp_eq (s : State ι) : s.wakeUp = { s with eventfd := s.wakeUp.eventfd } := by
  unfold wakeUp
  split <;> rfl

/-- A wake-up leaves the tasks as they are, and wakes the loop for those that wait. -/
theorem queueInvariant_wakeUp {s : State ι}
    (hpushed : s.executed ++ s.loop.taken ++ s.pending = s.pushed)
    (hnumbered : s.pushed.map Prod.fst = List.range s.pushed.length)
    (hnested : s.log.map Prod.snd ++ s.loop.inLoop.flatMap Task.run = s.begun.flatMap Task.run) :
    QueueInvariant s.wakeUp := by
  have hpos := eventfd_wakeUp_pos s
  rw [wakeUp_eq] at hpos ⊢
  exact ⟨hpushed, hnumbered, hnested, fun _ => .inl hpos⟩

/-- A task that is queued stands at the end. -/
theorem queueInvariant_push [DecidableEq ι] {s : State ι} (hs : QueueInvariant s) (thread : ι)
    (task : Task) :
    QueueInvariant (s.push thread task) := by
  unfold push
  split
  · exact hs
  · refine ⟨?_, ?_, hs.nested, fun _ => .inr (.inl ⟨thread, Function.update_self ..⟩)⟩
    · show s.executed ++ s.loop.taken ++ (s.pending ++ _) = s.pushed ++ _
      rw [← List.append_assoc, hs.inOrder]
    · rw [List.map_append, hs.numbered, List.length_append, List.length_singleton,
        List.range_succ]
      rfl

/-- So does the wake-up behind a push. -/
theorem queueInvariant_wake [DecidableEq ι] {s : State ι} (hs : QueueInvariant s) (thread : ι) :
    QueueInvariant (s.wake thread) := by
  unfold wake
  split
  · exact queueInvariant_wakeUp hs.inOrder hs.numbered hs.nested
  · exact hs

/-- So does what the caller of `Run` does. -/
theorem queueInvariant_caller {s : State ι} (hs : QueueInvariant s) (caller : Caller)
    (running : Bool) : QueueInvariant { s with caller, running } :=
  ⟨hs.inOrder, hs.numbered, hs.nested, hs.awake⟩

/-- A step of the loop that neither takes nor runs tasks. -/
theorem queueInvariant_loop {s : State ι} (hs : QueueInvariant s) {l loop : Loop}
    (hl : s.loop = l) (hquiet : l.Quiet) (hquiet' : loop.Quiet) :
    QueueInvariant { s with loop } := by
  obtain ⟨htaken, hinLoop, hswapping⟩ := hquiet
  refine ⟨?_, hs.numbered, ?_, fun h => ?_⟩
  · rw [hquiet'.1, ← htaken, ← hl]
    exact hs.inOrder
  · rw [hquiet'.2.1, ← hinLoop, ← hl]
    exact hs.nested
  · exact (hs.awake h).imp_right fun h => .inl (h.resolve_right fun h => hswapping (hl ▸ h))

/-- The eventfd is read just before the queue is swapped, so what was pending is taken. -/
theorem queueInvariant_dispatch {s : State ι} (hs : QueueInvariant s) :
    QueueInvariant s.dispatch := by
  unfold dispatch
  split
  · next h => exact queueInvariant_loop hs h ⟨rfl, rfl, id⟩ ⟨rfl, rfl, id⟩
  · next h =>
      have hinOrder := hs.inOrder
      have hnested := hs.nested
      rw [h] at hinOrder hnested
      exact ⟨hinOrder, hs.numbered, hnested, fun _ => .inr (.inr trivial)⟩
  · next calls batch h =>
      have hinOrder := hs.inOrder
      have hnested := hs.nested
      have hawake := hs.awake
      rw [Awake] at hawake
      rw [h] at hinOrder hnested hawake
      refine ⟨hinOrder, hs.numbered, ?_, fun hpending => ?_⟩
      · show s.log.map Prod.snd ++ calls.flatMap Task.run = (s.begun ++ calls).flatMap Task.run
        rw [List.flatMap_append, ← hnested, List.append_assoc]
        rfl
      · exact (hawake hpending).imp_right fun h => .inl (h.resolve_right id)
  · exact hs

/-- What is queued is taken as it stands. -/
theorem queueInvariant_swap {s : State ι} (hs : QueueInvariant s) : QueueInvariant s.swap := by
  unfold swap
  split
  · next batch h =>
      have hinOrder := hs.inOrder
      have hnested := hs.nested
      rw [h] at hinOrder hnested
      refine ⟨?_, hs.numbered, hnested, fun hpending => absurd rfl hpending⟩
      show s.executed ++ s.pending ++ [] = s.pushed
      rw [List.append_nil]
      simpa [Loop.taken] using hinOrder
  · exact hs

/-- A task runs before the tasks behind it, and what it passes on runs right after it. -/
theorem queueInvariant_execute {s : State ι} (hs : QueueInvariant s) :
    QueueInvariant s.execute := by
  unfold execute
  split
  · next t inLoop tasks batch h =>
      -- a task passed to `RunInLoop` by a callback or by another task
      obtain ⟨hinOrder, hnumbered, hnested, hawake⟩ := hs
      rw [Awake, h] at hawake
      rw [h] at hinOrder hnested
      refine ⟨?_, hnumbered, ?_, fun hpending => ?_⟩
      · simpa [executed, Loop.taken] using hinOrder
      · show (s.log ++ [(none, t)]).map Prod.snd ++ (t.calls ++ inLoop).flatMap Task.run = _
        rw [← hnested, Loop.inLoop, List.flatMap_cons, Task.run_eq t, List.map_append,
          List.flatMap_append]
        simp
      · exact (hawake hpending).imp_right fun h => .inl (h.resolve_right id)
  · next n t tasks batch h =>
      -- a task taken from the queue
      obtain ⟨hinOrder, hnumbered, hnested, hawake⟩ := hs
      rw [Awake, h] at hawake
      rw [h] at hinOrder hnested
      refine ⟨?_, hnumbered, ?_, fun hpending => ?_⟩
      · simpa [executed, Loop.taken] using hinOrder
      · show (s.log ++ [(some n, t)]).map Prod.snd ++ t.calls.flatMap Task.run
          = (s.begun ++ [t]).flatMap Task.run
        rw [List.flatMap_append, ← hnested, List.flatMap_singleton, Task.run_eq t, List.map_append]
        simp [Loop.inLoop]
      · exact (hawake hpending).imp_right fun h => .inl (h.resolve_right id)
  · next h => exact queueInvariant_loop hs h ⟨rfl, rfl, id⟩ ⟨rfl, rfl, id⟩
  · exact hs

variable [DecidableEq ι]

/-- Every step keeps the invariant. -/
theorem queueInvariant_step (s : State ι) (e : Event ι) (hs : QueueInvariant s) :
    QueueInvariant (s.step e) := by
  cases e with
  | push thread task => exact queueInvariant_push hs thread task
  | wake thread => exact queueInvariant_wake hs thread
  | start =>
      show QueueInvariant s.start
      unfold start
      split
      · next h =>
          have hloop : QueueInvariant { s with loop := .entering } :=
            queueInvariant_loop hs h ⟨rfl, rfl, id⟩ ⟨rfl, rfl, id⟩
          exact queueInvariant_caller hloop _ _
      · exact hs
  | stop =>
      show QueueInvariant s.stop
      unfold stop
      split
      · exact queueInvariant_caller hs _ _
      · exact hs
  | stopWake =>
      show QueueInvariant s.stopWake
      unfold stopWake
      split
      · exact queueInvariant_wakeUp hs.inOrder hs.numbered hs.nested
      · exact hs
  | enter =>
      show QueueInvariant s.enter
      unfold enter
      split
      · next h =>
          have hloop : QueueInvariant { s with loop := .testing } :=
            queueInvariant_loop hs h ⟨rfl, rfl, id⟩ ⟨rfl, rfl, id⟩
          exact queueInvariant_caller hloop _ _
      · exact hs
  | test =>
      show QueueInvariant s.test
      unfold test
      split
      · next h =>
          refine queueInvariant_loop hs h ⟨rfl, rfl, id⟩ ?_
          split <;> exact ⟨rfl, rfl, id⟩
      · exact hs
  | poll before after seen =>
      show QueueInvariant (s.poll before after seen)
      unfold poll
      split
      · next h => exact queueInvariant_loop hs h ⟨rfl, rfl, id⟩ ⟨rfl, rfl, id⟩
      · exact hs
  | pollFails =>
      show QueueInvariant s.pollFails
      unfold pollFails
      split
      · next h => exact queueInvariant_loop hs h ⟨rfl, rfl, id⟩ ⟨rfl, rfl, id⟩
      · exact hs
  | dispatch => exact queueInvariant_dispatch hs
  | swap => exact queueInvariant_swap hs
  | execute => exact queueInvariant_execute hs

/-- The invariant holds of every state reached. -/
theorem queueInvariant_after (es : List (Event ι)) : QueueInvariant (after es) :=
  Trace.run_preserves queueInvariant_step queueInvariant_init es

/-- **Queued tasks are never lost, duplicated or reordered.** For every order of the steps of any
number of posting threads with those of the loop: every task pushed has run, has been taken from the
queue to run, or is pending, in the order of the pushes; the tasks taken from the queue run in the
order in which they were pushed, each push at most once; a task passed to `RunInLoop` on the loop's
thread runs right there, once; and as long as a task is pending a wake-up is under way. -/
theorem tasks_exact (es : List (Event ι)) :
    let s : State ι := after es
    s.executed ++ s.loop.taken ++ s.pending = s.pushed ∧
    (s.executed <+: s.pushed ∧ (s.executed.map Prod.fst).Nodup) ∧
    s.log.map Prod.snd ++ s.loop.inLoop.flatMap Task.run = s.begun.flatMap Task.run ∧
    ¬ (s.pending ≠ [] ∧ s.eventfd = 0 ∧ (∀ thread, s.posting thread = false) ∧
      ¬ s.loop.IsSwapping) := by
  intro s
  obtain ⟨hinOrder, hnumbered, hnested, hawake⟩ := queueInvariant_after es
  have hfront : s.executed <+: s.pushed := ⟨s.loop.taken ++ s.pending, by
    rw [← List.append_assoc]
    exact hinOrder⟩
  refine ⟨hinOrder, ⟨hfront, ?_⟩, hnested, ?_⟩
  · have hnodup : (s.pushed.map Prod.fst).Nodup := by
      rw [hnumbered]
      exact List.nodup_range
    exact (hfront.map Prod.fst).sublist.nodup hnodup
  · rintro ⟨hpending, heventfd, hposting, hswapping⟩
    rcases hawake hpending with hpos | ⟨thread, hthread⟩ | h
    · exact hpos.ne' heventfd
    · rw [hposting thread] at hthread
      cases hthread
    · exact hswapping h

/-- Three tasks of two threads: the first has run, with the one it passes to `RunInLoop`, the second
is taken from the queue, and the third is pending, pushed after the swap. -/
theorem tasks_exact_queued :
    let es : List (Event Bool) := [.start, .enter, .test, .push true (.mk 1 [.mk 2 []]),
      .push false (.mk 3 []), .wake true, .poll [] [] true, .dispatch, .swap, .wake false,
      .push true (.mk 4 []), .execute, .execute]
    let s : State Bool := after es
    (s.executed = [(0, .mk 1 [.mk 2 []])] ∧ s.loop.taken = [(1, .mk 3 [])] ∧
      s.pending = [(2, .mk 4 [])] ∧ s.log.map Prod.snd = [.mk 1 [.mk 2 []], .mk 2 []]) ∧
    s.executed ++ s.loop.taken ++ s.pending = s.pushed ∧
    (s.executed <+: s.pushed ∧ (s.executed.map Prod.fst).Nodup) ∧
    s.log.map Prod.snd ++ s.loop.inLoop.flatMap Task.run = s.begun.flatMap Task.run ∧
    ¬ (s.pending ≠ [] ∧ s.eventfd = 0 ∧ (∀ thread, s.posting thread = false) ∧
      ¬ s.loop.IsSwapping) := by
  intro es s
  exact ⟨⟨rfl, rfl, rfl, rfl⟩, tasks_exact es⟩

/-! ## Stop requests -/

/-- `EventLoop::Stop` has set `running_` to `false`. -/
def Stopped (s : State ι) : Prop := s.caller = .stopping ∨ s.caller = .joining

/-- The event is an evaluation of the loop condition to `true`. -/
def GoesOn (s : State ι) (e : Event ι) : Prop := e = .test ∧ s.loop = .testing ∧ s.running = true

/-- `EventLoop::Stop` has completed, and the loop waits in `Poll` with nothing to wake it: the join
of `Server::Stop` hangs. -/
def Hangs (s : State ι) : Prop := s.caller = .joining ∧ s.loop = .polling ∧ s.eventfd = 0

/-- The event does not set `running_` to `false` before the loop's thread has set it to `true`. -/
def InTime (s : State ι) (e : Event ι) : Prop :=
  e = .stop → s.caller = .started → s.loop ≠ .entering

/-- What every step in time keeps. -/
structure StopInvariant (s : State ι) : Prop where
  /-- Nothing will set `running_` again. -/
  off : s.Stopped → s.running = false ∧ s.loop ≠ .entering
  /-- The wake-up of `EventLoop::Stop` reaches a loop that waits. -/
  woken : s.caller = .joining → s.loop = .polling → 0 < s.eventfd

omit [DecidableEq ι] in
/-- Nothing is stopped at the start. -/
theorem stopInvariant_init : StopInvariant ({} : State ι) := by
  refine ⟨?_, nofun⟩
  rintro (h | h)
  all_goals cases h

omit [DecidableEq ι] in
/-- A step of the loop that neither enters nor begins to wait. -/
theorem stopInvariant_loop {s s' : State ι} (hs : StopInvariant s) (hcaller : s'.caller = s.caller)
    (hrunning : s'.running = s.running) (hentering : s'.loop ≠ .entering)
    (hpolling : s'.loop ≠ .polling) : StopInvariant s' := by
  refine ⟨fun hstopped => ⟨?_, hentering⟩, fun _ h => absurd h hpolling⟩
  rw [Stopped, hcaller] at hstopped
  rw [hrunning]
  exact (hs.off hstopped).1

omit [DecidableEq ι] in
/-- A wake-up keeps a stop in force. -/
theorem stopInvariant_wakeUp {s : State ι}
    (hoff : s.Stopped → s.running = false ∧ s.loop ≠ .entering) : StopInvariant s.wakeUp := by
  have hpos := eventfd_wakeUp_pos s
  rw [wakeUp_eq] at hpos ⊢
  exact ⟨hoff, fun _ _ => hpos⟩

/-- A step of the loop's thread behind the loop condition. -/
def InLoop : Event ι → Prop
  | .poll _ _ _ => True
  | .pollFails => True
  | .dispatch => True
  | .swap => True
  | .execute => True
  | _ => False

/-- Such a step does nothing, or neither enters nor begins to wait, and leaves the request alone. -/
theorem inLoop_step (s : State ι) {e : Event ι} (he : InLoop e) :
    s.step e = s ∨ ((s.step e).caller = s.caller ∧ (s.step e).running = s.running ∧
      (s.step e).loop ≠ .entering ∧ (s.step e).loop ≠ .polling) := by
  cases e with
  | poll before after seen =>
      rw [step, poll]
      split
      · exact .inr ⟨rfl, rfl, nofun, nofun⟩
      · exact .inl rfl
  | pollFails =>
      rw [step, pollFails]
      split
      · exact .inr ⟨rfl, rfl, nofun, nofun⟩
      · exact .inl rfl
  | dispatch =>
      rw [step, dispatch]
      split
      all_goals first | exact .inl rfl | exact .inr ⟨rfl, rfl, nofun, nofun⟩
  | swap =>
      rw [step, swap]
      split
      · exact .inr ⟨rfl, rfl, nofun, nofun⟩
      · exact .inl rfl
  | execute =>
      rw [step, execute]
      split
      all_goals first | exact .inl rfl | exact .inr ⟨rfl, rfl, nofun, nofun⟩
  | _ => exact he.elim

/-- Every step in time keeps the invariant. -/
theorem stopInvariant_step (s : State ι) (e : Event ι) (hs : StopInvariant s)
    (hintime : s.InTime e) : StopInvariant (s.step e) := by
  -- What only the loop's thread does is one fact; the other events are taken one by one.
  have hinLoop (he : InLoop e) : StopInvariant (s.step e) := by
    rcases inLoop_step s he with h | ⟨hcaller, hrunning, hentering, hpolling⟩
    · rw [h]
      exact hs
    · exact stopInvariant_loop hs hcaller hrunning hentering hpolling
  cases e with
  | push thread task =>
      show StopInvariant (s.push thread task)
      unfold push
      split
      · exact hs
      · exact ⟨hs.off, hs.woken⟩
  | wake thread =>
      show StopInvariant (s.wake thread)
      unfold wake
      split
      · exact stopInvariant_wakeUp hs.off
      · exact hs
  | start =>
      show StopInvariant s.start
      unfold start
      split
      · refine ⟨?_, nofun⟩
        rintro (h | h)
        all_goals cases h
      · exact hs
  | stop =>
      show StopInvariant s.stop
      unfold stop
      split
      · next h => exact ⟨fun _ => ⟨rfl, hintime rfl h⟩, nofun⟩
      · exact hs
  | stopWake =>
      show StopInvariant s.stopWake
      unfold stopWake
      split
      · next h => exact stopInvariant_wakeUp fun _ => hs.off (.inl h)
      · exact hs
  | enter =>
      show StopInvariant s.enter
      unfold enter
      split
      · next h => exact ⟨fun hstopped => absurd h (hs.off hstopped).2, nofun⟩
      · exact hs
  | test =>
      show StopInvariant s.test
      unfold test
      split
      · -- a stopped loop leaves, and does not wait
        by_cases hrunning : s.running = true
        · rw [if_pos hrunning]
          have hstopped : ¬ s.Stopped := fun h => by rw [(hs.off h).1] at hrunning; cases hrunning
          exact ⟨fun h => absurd h hstopped, fun h => absurd (.inr h) hstopped⟩
        · rw [if_neg hrunning]
          exact stopInvariant_loop hs rfl rfl nofun nofun
      · exact hs
  | _ => exact hinLoop trivial

omit [DecidableEq ι] in
/-- A loop that is stopped does not go on, and does not hang. -/
theorem StopInvariant.stopped {s : State ι} (hs : StopInvariant s) :
    (∀ e, s.Stopped → ¬ s.GoesOn e) ∧ ¬ s.Hangs := by
  constructor
  · rintro e hstopped ⟨-, -, hrunning⟩
    rw [(hs.off hstopped).1] at hrunning
    cases hrunning
  · rintro ⟨hjoining, hpolling, heventfd⟩
    exact (hs.woken hjoining hpolling).ne' heventfd

/-- A step of the thread that starts and stops the server. -/
def OfCaller : Event ι → Prop
  | .start => True
  | .stop => True
  | .stopWake => True
  | _ => False

/-- Nobody else moves that thread. -/
theorem caller_step (s : State ι) {e : Event ι} (he : ¬ OfCaller e) :
    (s.step e).caller = s.caller := by
  -- Only `Start` and `Stop` move the calling thread.
  have hinLoop (h : InLoop e) : (s.step e).caller = s.caller := by
    rcases inLoop_step s h with h | ⟨hcaller, -⟩
    · rw [h]
    · exact hcaller
  cases e with
  | push thread task =>
      rw [step, push]
      split <;> rfl
  | wake thread =>
      rw [step, wake]
      split
      · rw [wakeUp_eq]
      · rfl
  | enter =>
      rw [step, enter]
      split <;> rfl
  | test =>
      rw [step, test]
      split <;> rfl
  | start => exact absurd trivial he
  | stop => exact absurd trivial he
  | stopWake => exact absurd trivial he
  | _ => exact hinLoop trivial

/-- A request to stop stays. -/
theorem stopped_step {s : State ι} (hs : s.Stopped) (e : Event ι) : (s.step e).Stopped := by
  cases e with
  | start =>
      rw [step, start]
      split
      · next h _ =>
          rw [Stopped, h] at hs
          rcases hs with h' | h'
          all_goals cases h'
      · exact hs
  | stop =>
      rw [step, stop]
      split
      · exact .inl rfl
      · exact hs
  | stopWake =>
      rw [step, stopWake]
      split
      · rw [wakeUp_eq]
        exact .inr rfl
      · exact hs
  | _ =>
      rw [Stopped, caller_step s id]
      exact hs

omit [DecidableEq ι] in
/-- There is one request to stop. -/
theorem inTime_of_stopped {s : State ι} (hs : s.Stopped) (e : Event ι) : s.InTime e := by
  rintro - hstarted
  rw [Stopped, hstarted] at hs
  rcases hs with h | h
  all_goals cases h

/-- A stop request that came too early: the loop's thread has set `running_` after it, or will. -/
def Lost (s : State ι) : Prop :=
  s.Stopped ∧ (s.loop = .entering ∨ s.loop = .testing ∧ s.running = true)

/-- A thread before the loop condition takes no step behind it. -/
theorem step_of_before {s : State ι} (h : s.loop = .entering ∨ s.loop = .testing) {e : Event ι}
    (he : InLoop e) : s.step e = s := by
  cases e with
  | poll before after seen => rcases h with h | h <;> rw [step, poll, h]
  | pollFails => rcases h with h | h <;> rw [step, pollFails, h]
  | dispatch => rcases h with h | h <;> rw [step, dispatch, h]
  | swap => rcases h with h | h <;> rw [step, swap, h]
  | execute => rcases h with h | h <;> rw [step, execute, h]
  | _ => exact he.elim

/-- The evaluation of the loop condition that shows it is the only step that ends this. -/
theorem lost_step {s : State ι} (hs : s.Lost) (e : Event ι) : s.GoesOn e ∨ (s.step e).Lost := by
  have hstopped := stopped_step hs.1 e
  obtain ⟨hbefore, hloop⟩ := hs
  have hsame (he : InLoop e) : s.GoesOn e ∨ (s.step e).Lost := by
    right
    rw [step_of_before (hloop.imp_right And.left) he]
    exact ⟨hbefore, hloop⟩
  cases e with
  | push thread task =>
      refine .inr ⟨hstopped, ?_⟩
      rw [step, push]
      split <;> exact hloop
  | wake thread =>
      refine .inr ⟨hstopped, ?_⟩
      rw [step, wake]
      split
      · rw [wakeUp_eq]
        exact hloop
      · exact hloop
  | start =>
      refine .inr ⟨hstopped, ?_⟩
      rw [step, start]
      split
      · exact .inl rfl
      · exact hloop
  | stop =>
      -- a second store of `false`; there is none, as the first one has moved the thread on
      refine .inr ⟨hstopped, ?_⟩
      rw [step, stop]
      split
      · next h =>
          rw [Stopped, h] at hbefore
          rcases hbefore with h' | h'
          all_goals cases h'
      · exact hloop
  | stopWake =>
      refine .inr ⟨hstopped, ?_⟩
      rw [step, stopWake]
      split
      · rw [wakeUp_eq]
        exact hloop
      · exact hloop
  | enter =>
      refine .inr ⟨hstopped, ?_⟩
      rw [step, enter]
      split
      · exact .inr ⟨rfl, rfl⟩
      · exact hloop
  | test =>
      rcases hloop with h | h
      · refine .inr ⟨hstopped, .inl ?_⟩
        rw [step, test, h]
        exact h
      · exact .inl ⟨rfl, h⟩
  | _ => exact hsame trivial

/-- After a stop request that came too early the loop goes on, now or later. -/
theorem goesOn_of_lost {s : State ι} (hs : s.Lost) (es : List (Event ι)) :
    ∃ es', ¬ Trace.Always step (fun s e => s.Stopped → ¬ s.GoesOn e) s (es ++ es') := by
  induction es generalizing s with
  | nil =>
      obtain ⟨hstopped, hloop⟩ := hs
      rcases hloop with h | h
      · refine ⟨[.enter, .test], fun halways => ?_⟩
        have henter : s.step .enter = { s with running := true, loop := .testing } := by
          show s.enter = _
          rw [enter, h]
        have htest := halways.2.1
        rw [henter] at htest
        exact htest hstopped ⟨rfl, rfl, rfl⟩
      · exact ⟨[.test], fun halways => halways.1 hstopped ⟨rfl, h⟩⟩
  | cons e es ih =>
      rcases lost_step hs e with hgoesOn | hlost
      · exact ⟨[], fun halways => halways.1 hs.1 hgoesOn⟩
      · obtain ⟨es', hes'⟩ := ih hlost
        exact ⟨es', fun halways => hes' halways.2⟩

/-- A run in time keeps the stop request. -/
theorem stop_kept {es : List (Event ι)} (hintime : Trace.Always step InTime {} es) :
    Trace.Always step (fun s e => s.Stopped → ¬ s.GoesOn e) {} es ∧ ¬ (after es).Hangs :=
  ⟨Trace.always_of_invariant (fun _ e hs _ => hs.stopped.1 e) stopInvariant_step
      stopInvariant_init hintime,
    (Trace.run_invariant stopInvariant_step stopInvariant_init hintime).stopped.2⟩

/-- **A stop request is not lost exactly if it comes in time.** In every run in which
`EventLoop::Stop` does not set `running_` to `false` before the loop's thread has set it to `true`,
the loop never evaluates its condition to `true` after that, and never waits in `Poll` with nothing
to wake it when `EventLoop::Stop` has completed. And when `EventLoop::Stop` has set `running_`, in
time is the only way to make this hold however the run goes on. -/
theorem stop_kept_iff (es : List (Event ι)) :
    (Trace.Always step InTime {} es →
      Trace.Always step (fun s e => s.Stopped → ¬ s.GoesOn e) {} es ∧ ¬ (after es).Hangs) ∧
    ((after es).Stopped →
      (Trace.Always step InTime {} es ↔ ∀ es',
        Trace.Always step (fun s e => s.Stopped → ¬ s.GoesOn e) {} (es ++ es') ∧
          ¬ (after (es ++ es')).Hangs)) := by
  refine ⟨stop_kept, fun hstopped => ⟨fun hintime es' => ?_, fun hkept => ?_⟩⟩
  · refine stop_kept ?_
    rw [Trace.always_append]
    exact ⟨hintime, Trace.always_of_invariant (fun s e hs _ => inTime_of_stopped hs e)
      (fun s e hs _ => stopped_step hs e) hstopped (Trace.always_true es')⟩
  -- a late `Stop` is lost, and the loop can go on for ever
  · by_contra hlate
    obtain ⟨es₁, e, es₂, rfl, he⟩ := Trace.exists_of_not_always hlate
    obtain ⟨rfl, hstarted, hentering⟩ : e = .stop ∧ (after es₁).caller = .started ∧
        (after es₁).loop = .entering := by
      unfold InTime at he
      push Not at he
      exact he
    have hlost : ((after es₁).step .stop).Lost := by
      show (after es₁).stop.Lost
      rw [stop, hstarted]
      exact ⟨.inl rfl, .inl hentering⟩
    obtain ⟨es', hgoesOn⟩ := goesOn_of_lost hlost es₂
    have halways := (hkept es').1
    rw [List.append_assoc, Trace.always_append] at halways
    exact hgoesOn halways.2.2

/-- The loop's thread gets to `running_ = true` first, then the server is stopped. -/
theorem stop_kept_iff_late : ∀ es' : List (Event Unit),
    ¬ (after ([.start, .enter, .stop, .stopWake] ++ es')).Hangs := by
  intro es'
  have hintime : Trace.Always step InTime ({} : State Unit) [.start, .enter, .stop, .stopWake] :=
    ⟨nofun, nofun, fun _ _ => nofun, nofun, trivial⟩
  exact (((stop_kept_iff _).2 (.inr rfl)).mp hintime es').2

/-- The server is stopped before its new thread enters `Run`: the thread sets `running_` again,
reads the wake-up of `EventLoop::Stop`, and waits for ever. -/
theorem stop_lost_when_early :
    ¬ ∀ es : List (Event Unit),
      Trace.Always step (fun s e => s.Stopped → ¬ s.GoesOn e) {} es ∧ ¬ (after es).Hangs := by
  intro hall
  have hhangs : (after [(.start : Event Unit), .stop, .stopWake, .enter, .test, .poll [] [] true,
      .dispatch, .swap, .execute, .dispatch, .test]).Hangs := ⟨rfl, rfl, rfl⟩
  exact (hall _).2 hhangs

end State

end NetworkLib.LoopThreads
