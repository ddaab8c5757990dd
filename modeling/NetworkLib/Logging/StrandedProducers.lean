import NetworkLib.Logging.LogDelivery

/-! # Logging threads that `Shutdown` leaves behind

A logging thread that finds the queue full waits on `space_cv_`, and only the worker notifies that
condition variable: `Shutdown` clears `running_`, on which the wait depends too, but wakes the
worker alone. A worker that finds `running_` false at the top of its loop returns without another
notification. Then whoever is in the wait set stays there until its deadline passes, and for ever if
it has none; nobody joins it any more, as a thread that finds `running_` false does not wait. -/

namespace NetworkLib.AsyncLogger

variable {ι ε : Type*}

/-- In the wait set of `space_cv_`. -/
def Producer.Waits (p : Producer ε) : Prop := ∃ entry timed, p = .waiting entry timed

/-- In the wait set of `space_cv_` without a deadline, as in `Enqueue`. -/
def Producer.WaitsUntimed (p : Producer ε) : Prop := ∃ entry, p = .waiting entry false

/-- A thread that waits without a deadline waits. -/
theorem Producer.WaitsUntimed.waits {p : Producer ε} (h : p.WaitsUntimed) : p.Waits := by
  obtain ⟨entry, rfl⟩ := h
  exact ⟨entry, false, rfl⟩

/-- A notification takes a thread out of the wait set. -/
theorem Producer.not_waits_notified (p : Producer ε) : ¬ p.notified.Waits := by
  rintro ⟨entry, timed, h⟩
  cases p <;> cases h

namespace State

/-- The worker leaves its loop: by the loop condition, or by the `break` in its section. -/
def Leaves (s : State ι ε) : Event ι ε → Prop
  | .workerTest => s.worker = .testing ∧ s.running = false
  | .workerLock =>
      (s.worker = .locking ∨ ∃ expired, s.worker = .woken expired) ∧ s.running = false ∧ s.queue = []
  | _ => False

/-- When the worker leaves its loop, no thread waits in the way `W`. -/
def Clear (W : Producer ε → Prop) (s : State ι ε) (e : Event ι ε) : Prop :=
  s.Leaves e → ∀ thread, ¬ W (s.producers thread)

variable {c : Config} {s : State ι ε} {e : Event ι ε} {W : Producer ε → Prop}

/-! ## The wait set -/

section

variable [DecidableEq ι]

/-- A thread that moves leaves the others where they are. -/
theorem producers_go (s : State ι ε) (t : ι) (p : Producer ε) (thread : ι) :
    (s.go t p).producers thread = if thread = t then p else s.producers thread :=
  Function.update_apply ..

/-- A thread that goes on elsewhere does not join the wait set. -/
theorem waiting_of_go {t thread : ι} {p : Producer ε} (hp : ¬ p.Waits) {entry : ε} {timed : Bool}
    (h : (s.go t p).producers thread = .waiting entry timed) :
    s.producers thread = .waiting entry timed := by
  rw [producers_go] at h
  split at h
  · exact absurd ⟨entry, timed, h⟩ hp
  · exact h

/-- A thread that does nothing does not wait. -/
theorem not_waits_idle : ¬ (Producer.idle : Producer ε).Waits := by
  rintro ⟨entry, timed, h⟩
  cases h

/-- **Nobody joins the wait set once `running_` is false.** -/
theorem waiting_of_step (hrun : s.running = false) {thread : ι} {entry : ε} {timed : Bool}
    (h : (step c s e).producers thread = .waiting entry timed) :
    s.producers thread = .waiting entry timed := by
  have hne : ¬ s.running = true := by simp [hrun]
  -- Without `running_` no call begins to wait: one event after the other.
  cases e with
  | call t entry' timed' =>
      rw [step, call, if_neg hne] at h
      split at h <;> exact h
  | lock t =>
      rw [step, lock] at h
      split at h
      · split at h
        · split at h
          · exact waiting_of_go not_waits_idle h
          · exact waiting_of_go (s := { s.evict with }) not_waits_idle h
          · exact waiting_of_go (s := { s with }) not_waits_idle h
        · exact waiting_of_go not_waits_idle h
      · exact h
  | expire t =>
      rw [step, expire] at h
      split at h
      · refine waiting_of_go ?_ h
        rintro ⟨_, _, h⟩
        cases h
      · exact h
  | relock t =>
      rw [step, relock] at h
      split at h
      · rw [if_pos (.inr hne), if_neg hne] at h
        exact waiting_of_go not_waits_idle h
      · exact h
  | workerNotify =>
      rw [step, workerNotify] at h
      split at h
      · exact absurd ⟨entry, timed, h⟩ (Producer.not_waits_notified _)
      · exact h
  | _ =>
      rw [producers_step id] at h
      exact h

/-- A step of another thread leaves a thread in the wait set. -/
theorem waiting_go {t thread : ι} {entry : ε} (h : s.producers thread = .waiting entry false)
    (ht : s.producers t ≠ .waiting entry false) (p : Producer ε) :
    (s.go t p).producers thread = .waiting entry false := by
  have hne : thread ≠ t := by
    rintro rfl
    exact ht h
  rw [producers_go, if_neg hne, h]

/-- **Once the worker has returned, nobody without a deadline leaves the wait set.** -/
theorem waiting_step (hw : s.worker = .exited) {thread : ι} {entry : ε}
    (h : s.producers thread = .waiting entry false) (e : Event ι ε) :
    (step c s e).producers thread = .waiting entry false := by
  -- A thread that waits without a deadline is moved by a notification alone, and the worker sends
  -- no more.
  cases e with
  | call t entry' timed' =>
      rw [step, call]
      split
      · next ht =>
          split
          · exact waiting_go h (by simp [ht]) _
          · exact h
      · exact h
  | lock t =>
      rw [step, lock]
      split
      · next ht =>
          split
          · split
            · exact waiting_go h (by simp [ht]) _
            · exact waiting_go (s := { s.evict with }) h (by simp [evict, ht]) _
            · exact waiting_go (s := { s with }) h (by simp [ht]) _
          · exact waiting_go (s := { s with }) h (by simp [ht]) _
      · exact h
  | expire t =>
      rw [step, expire]
      split
      · next ht => exact waiting_go h (by simp [ht]) _
      · exact h
  | relock t =>
      rw [step, relock]
      split
      · next ht =>
          split
          · split
            · exact waiting_go (s := { s with }) h (by simp [ht]) _
            · exact waiting_go h (by simp [ht]) _
          · split
            · exact waiting_go (s := { s with }) h (by simp [ht]) _
            · exact waiting_go h (by simp [ht]) _
      · exact h
  | workerNotify =>
      have hsame : step c s .workerNotify = s := step_of_exited hw trivial
      rw [hsame, h]
  | _ =>
      rw [producers_step id]
      exact h

/-! ## The end of the worker -/

omit [DecidableEq ι] in
/-- The worker's section leads to the `break` only if there is nothing left to do. -/
theorem worker_collect (h : s.collect.worker = .exited) : s.running = false ∧ s.queue = [] := by
  unfold collect at h
  split at h
  · next hend => exact ⟨by simpa using hend.1, hend.2⟩
  · dsimp only at h
    split at h <;> cases h

/-- A worker that has returned has left its loop. -/
theorem leaves_of_exited (hw : s.worker ≠ .exited) (hw' : (step c s e).worker = .exited) :
    s.Leaves e := by
  by_cases he : e.OfWorker
  · cases e with
    | workerTest =>
        -- `while (running_)`
        rw [step, workerTest] at hw'
        split at hw'
        · next ht =>
            refine ⟨ht, ?_⟩
            by_contra hrun
            rw [if_pos (by simpa using hrun)] at hw'
            cases hw'
        · exact absurd hw' hw
    | workerLock =>
        -- `if (!running_ && queue_.empty()) break`
        rw [step, workerLock] at hw'
        split at hw'
        · next ht =>
            split at hw'
            · exact ⟨.inl ht, worker_collect hw'⟩
            · cases hw'
        · next expired ht =>
            split at hw'
            · exact ⟨.inr ⟨expired, ht⟩, worker_collect hw'⟩
            · cases hw'
        · exact absurd hw' hw
    | workerExpire =>
        rw [step, workerExpire] at hw'
        split at hw'
        · cases hw'
        · exact absurd hw' hw
    | workerNotify =>
        rw [step, workerNotify] at hw'
        split at hw'
        · cases hw'
        · exact absurd hw' hw
    | workerWrite =>
        rw [step, workerWrite] at hw'
        split at hw'
        · cases hw'
        · cases hw'
        · exact absurd hw' hw
    | _ => exact he.elim
  · -- the others do not end the worker
    rcases worker_step (c := c) (s := s) he with h | h
    · exact absurd (h.symm.trans hw') hw
    · rw [h] at hw'
      cases hs : s.worker with
      | exited => exact absurd hs hw
      | _ =>
          rw [hs] at hw'
          cases hw'

/-- The worker that leaves its loop returns, and notifies nobody. -/
theorem exited_of_leaves (h : s.Leaves e) :
    (step c s e).worker = .exited ∧ (step c s e).producers = s.producers := by
  cases e with
  | workerTest =>
      obtain ⟨ht, hrun⟩ := h
      rw [step, workerTest, ht, hrun]
      exact ⟨rfl, rfl⟩
  | workerLock =>
      obtain ⟨ht, hrun, hq⟩ := h
      have hcollect : s.collect = { s with worker := .exited } := by
        rw [collect, if_pos ⟨by simp [hrun], hq⟩]
      rcases ht with ht | ⟨expired, ht⟩
      · rw [step, workerLock, ht]
        dsimp only
        rw [if_pos (.inr (by simp [hrun])), hcollect]
        exact ⟨rfl, rfl⟩
      · rw [step, workerLock, ht]
        dsimp only
        rw [if_pos (.inr (.inl (by simp [hrun]))), hcollect]
        exact ⟨rfl, rfl⟩
  | _ => exact h.elim

omit [DecidableEq ι] in
/-- The worker leaves its loop only when `running_` is false. -/
theorem running_of_leaves (h : s.Leaves e) : s.running = false := by
  cases e with
  | workerTest => exact h.2
  | workerLock => exact h.2.1
  | _ => exact h.elim

/-! ## Whole runs -/

/-- Once `Shutdown` has returned, no thread waits in the way `W`. -/
def NoneLeft (W : Producer ε → Prop) (s : State ι ε) : Prop :=
  s.shutdown = .returned → ∀ thread, ¬ W (s.producers thread)

/-- Once the worker has returned, `running_` is false and no thread waits in the way `W`. -/
def Unattended (W : Producer ε → Prop) (s : State ι ε) : Prop :=
  s.worker = .exited → s.running = false ∧ ∀ thread, ¬ W (s.producers thread)

/-- A clear step keeps the returned worker without threads that wait. -/
theorem unattended_step (hW : ∀ p, W p → p.Waits) (hs : Unattended W s) (he : s.Clear W e) :
    Unattended W (step c s e) := by
  intro hw'
  have hstop : s.running = false ∧ ∀ thread, ¬ W (s.producers thread) := by
    by_cases hw : s.worker = .exited
    · exact hs hw
    · have hleaves : s.Leaves e := leaves_of_exited hw hw'
      exact ⟨running_of_leaves hleaves, he hleaves⟩
  obtain ⟨hrun, hnone⟩ := hstop
  refine ⟨running_step_of_cleared hrun e, fun thread hwait => hnone thread ?_⟩
  obtain ⟨entry, timed, hp⟩ := hW _ hwait
  rw [waiting_of_step hrun hp, ← hp]
  exact hwait

/-- **If nobody waits when the worker leaves its loop, nobody waits afterwards.** -/
theorem unattended_after (hW : ∀ p, W p → p.Waits) {es : List (Event ι ε)}
    (hes : Trace.Always (step c) (Clear W) {} es) : Unattended W (after c es) :=
  Trace.run_invariant (I := Unattended W) (fun _ _ hs he => unattended_step hW hs he)
    (fun hw => nomatch hw) hes

/-- The worker has returned, and a thread waits without a deadline. -/
def Stranded (s : State ι ε) : Prop :=
  s.worker = .exited ∧ ∃ thread entry, s.producers thread = .waiting entry false

omit [DecidableEq ι] in
/-- A stranded thread waits for a worker that has returned. -/
theorem Stranded.not_unattended (h : Stranded s) : ¬ Unattended Producer.WaitsUntimed s := by
  intro hs
  obtain ⟨hw, thread, entry, hp⟩ := h
  exact (hs hw).2 thread ⟨entry, hp⟩

/-- **Who waits without a deadline when the worker leaves its loop is stranded.** -/
theorem stranded_of_leaves (he : ¬ s.Clear Producer.WaitsUntimed e) : Stranded (step c s e) := by
  obtain ⟨hleaves, hsome⟩ := Classical.not_imp.mp he
  obtain ⟨thread, entry, hp⟩ := not_forall_not.mp hsome
  obtain ⟨hexited, hsame⟩ := exited_of_leaves (c := c) hleaves
  exact ⟨hexited, thread, entry, (congrFun hsame thread).trans hp⟩

/-- **And stays so for ever.** -/
theorem stranded_step (h : Stranded s) (e : Event ι ε) : Stranded (step c s e) := by
  obtain ⟨hw, thread, entry, hp⟩ := h
  exact ⟨worker_step_of_exited hw e, thread, entry, waiting_step hw hp e⟩

/-- Nobody is stranded exactly if nobody waits without a deadline when the worker leaves its loop.
-/
theorem unattended_after_iff (c : Config) (es : List (Event ι ε)) :
    Unattended Producer.WaitsUntimed (after c es) ↔
      Trace.Always (step c) (Clear Producer.WaitsUntimed) {} es := by
  have hstart : Unattended Producer.WaitsUntimed ({} : State ι ε) := fun hw => nomatch hw
  have hverdict := Trace.run_verdict (I := fun _ : State ι ε => True)
    (G := Unattended Producer.WaitsUntimed) (B := Stranded) (fun _ _ _ => trivial)
    (fun _ _ _ hs he => unattended_step (c := c) (fun _ h => h.waits) hs he)
    (fun _ _ _ _ he => stranded_of_leaves he) (fun _ e _ h => stranded_step h e) trivial
    hstart es
  rcases hverdict with ⟨hes, hs⟩ | ⟨hes, hs⟩
  · exact iff_of_true hs hes
  · exact iff_of_false hs.not_unattended hes

end

end State

open State in
/-- **When `Shutdown` has returned, no thread is in the wait set of `space_cv_` if none was when the
worker left its loop; and no thread is there for ever exactly if none without a deadline was.** -/
theorem no_producer_stranded_iff [DecidableEq ι] (c : Config) (es : List (Event ι ε)) :
    (Trace.Always (step c) (Clear Producer.Waits) {} es →
        NoneLeft Producer.Waits (after c es)) ∧
      ((after c es).shutdown = .returned →
        (NoneLeft Producer.WaitsUntimed (after c es) ↔
          Trace.Always (step c) (Clear Producer.WaitsUntimed) {} es)) := by
  have hinv : Inv c (after c es) := inv_after c es
  have hexited (hreturned : (after c es).shutdown = .returned) :
      (after c es).worker = .exited := by
    refine hinv.joined ?_
    rw [hreturned]
    trivial
  refine ⟨fun hes hreturned => (unattended_after (fun _ => id) hes (hexited hreturned)).2,
    fun hreturned => ?_⟩
  rw [← unattended_after_iff]
  constructor
  · intro hnone hw
    have hrunning := hinv.running
    rw [hreturned] at hrunning
    exact ⟨by simpa using hrunning, hnone hreturned⟩
  · intro hs _
    exact (hs (hexited hreturned)).2

open State in
/-- **A thread that waits for space in a queue of one entry, when `Shutdown` clears `running_`
before the worker has got round to the queue, is still waiting when `Shutdown` has returned.** -/
theorem producer_stranded :
    let s : State Bool Char := after { asyncQueueSize := 1 }
      [.call true 'a' false, .lock true, .call false 'b' false, .lock false, .exchange, .notify,
        .workerTest, .join, .drain, .write, .write, .flush]
    s.shutdown = .returned ∧ s.producers false = .waiting 'b' false ∧
      s.written 0 = [(0, 'a')] ∧ ¬ NoneLeft Producer.Waits s := by
  refine ⟨rfl, rfl, rfl, fun hnone => ?_⟩
  exact hnone rfl false ⟨'b', false, rfl⟩

end NetworkLib.AsyncLogger
