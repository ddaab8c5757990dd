import NetworkLib.Logging.AsyncLogger

/-! # The bounds of the log queue

While the logger runs, every call of `Enqueue` or `EnqueueWithTimeout` that is over has its entry
processed, dropped, in the queue or in the batch of the worker, or has had another entry dropped for
it; the queue is never longer than `async_queue_size`, and nothing is taken off an empty queue. All
of this holds for every configuration but one: with a size of zero `DISCARD_OLDEST` takes the oldest
entry off a queue that has none (`keepsBounds_iff`). -/

namespace NetworkLib.AsyncLogger

variable {ι ε : Type*}

/-- The thread is in a call. -/
def Producer.inCall : Producer ε → Bool
  | .idle => false
  | _ => true

/-- The entries in the worker's batch that `processed_count_` does not count yet. -/
def Worker.batchSize : Worker ε → ℕ
  | .notifying batch => batch.length
  | .writing _ size => size
  | _ => 0

/-- The thread whose call a step takes further. -/
def Event.thread : Event ι ε → Option ι
  | .call thread _ _ => some thread
  | .lock thread => some thread
  | .expire thread => some thread
  | .relock thread => some thread
  | _ => none

namespace State

variable [DecidableEq ι] (c : Config)

/-- How many calls a step ends. -/
def ends (s : State ι ε) (e : Event ι ε) : ℕ :=
  match e.thread with
  | some thread =>
      if (s.producers thread).inCall ∧ ¬ ((step c s e).producers thread).inCall then 1 else 0
  | none => 0

/-- A step that executes `queue_.pop` while the queue is empty: the worker and `Shutdown` test the
queue before, `DISCARD_OLDEST` does not. -/
def PopsEmpty (s : State ι ε) (e : Event ι ε) : Prop :=
  ∃ thread entry timed, e = .lock thread ∧ s.producers thread = .entered entry timed ∧
    c.asyncQueueSize ≤ s.queue.length ∧ c.overflowPolicy = .discardOldest ∧ s.queue = []

/-- A step, with the number of calls that are over. -/
def count (p : State ι ε × ℕ) (e : Event ι ε) : State ι ε × ℕ := (step c p.1 e, p.2 + ends c p.1 e)

/-- The queue is no longer than it may be, and every call that is over is accounted for. -/
structure Balanced (s : State ι ε) (calls : ℕ) : Prop where
  length_le : s.queue.length ≤ c.asyncQueueSize
  calls_eq : calls = s.processed + s.dropped + s.queue.length + s.worker.batchSize

/-- A step pops no empty queue and leaves the counters balanced. -/
def KeepsBounds (p : State ι ε × ℕ) (e : Event ι ε) : Prop :=
  ¬ PopsEmpty c p.1 e ∧ Balanced c (count c p e).1 (count c p e).2

variable {c} {s : State ι ε} {n : ℕ}

/-! ## One step -/

omit [DecidableEq ι] in
/-- A worker that was woken has the batch it had. -/
theorem batchSize_notified (w : Worker ε) : w.notified.batchSize = w.batchSize := by
  cases w <;> rfl

omit [DecidableEq ι] in
/-- The queue, the counters and the size of the batch are all that matters. -/
theorem Balanced.of_eq {s' : State ι ε} (h : Balanced c s n) (hqueue : s'.queue = s.queue)
    (hprocessed : s'.processed = s.processed) (hdropped : s'.dropped = s.dropped)
    (hbatch : s'.worker.batchSize = s.worker.batchSize) : Balanced c s' n := by
  refine ⟨?_, ?_⟩
  · rw [hqueue]
    exact h.length_le
  · rw [hqueue, hprocessed, hdropped, hbatch]
    exact h.calls_eq

/-- A thread that goes on with its call. -/
theorem balanced_go (h : Balanced c s n) (thread : ι) (p : Producer ε) :
    Balanced c (s.go thread p) n := ⟨h.length_le, h.calls_eq⟩

/-- An entry pushed, and the call over. -/
theorem balanced_push (h : Balanced c s n) (hspace : s.queue.length < c.asyncQueueSize) (thread : ι)
    (entry : ε) : Balanced c (s.push thread entry) (n + 1) := by
  have hcalls := h.calls_eq
  refine ⟨?_, ?_⟩
  · simp only [push, go, List.length_append, List.length_singleton]
    exact hspace
  · simp only [push, go, List.length_append, List.length_singleton, batchSize_notified]
    omega

/-- An entry dropped, and the call over. -/
theorem balanced_drop (h : Balanced c s n) (thread : ι) : Balanced c (s.drop thread) (n + 1) := by
  have hcalls := h.calls_eq
  refine ⟨h.length_le, ?_⟩
  simp only [drop, go]
  omega

omit [DecidableEq ι] in
/-- The oldest entry dropped, which makes space for another. -/
theorem balanced_evict (h : Balanced c s n) (hqueue : s.queue ≠ []) :
    Balanced c s.evict n ∧ s.evict.queue.length < c.asyncQueueSize := by
  have hcalls := h.calls_eq
  have hle : s.queue.length ≤ c.asyncQueueSize := h.length_le
  have hpos := List.length_pos_iff.mpr hqueue
  refine ⟨⟨?_, ?_⟩, ?_⟩
  all_goals simp only [evict, List.length_tail]
  all_goals omega

/-- A step that ends no call, since it is not about a thread in one, or leaves that in it. -/
theorem ends_of_not {e : Event ι ε} (h : ∀ thread ∈ e.thread, (s.producers thread).inCall = false ∨
    ((step c s e).producers thread).inCall = true) : ends c s e = 0 := by
  rw [ends]
  split
  · next thread hthread =>
      rcases h thread hthread with hbefore | hafter
      · rw [if_neg (by simp [hbefore])]
      · rw [if_neg (by simp [hafter])]
  · rfl

/-- A step that leaves its thread in the call. -/
theorem ends_of_inCall {e : Event ι ε} {thread : ι} (hthread : e.thread = some thread)
    (hafter : ((step c s e).producers thread).inCall = true) : ends c s e = 0 := by
  apply ends_of_not
  intro thread' hthread'
  rw [hthread, Option.mem_some_iff] at hthread'
  subst hthread'
  exact .inr hafter

/-- A step that ends the call of its thread. -/
theorem ends_of_idle {e : Event ι ε} {thread : ι} (hthread : e.thread = some thread)
    (hbefore : (s.producers thread).inCall = true) (hafter : (step c s e).producers thread = .idle) :
    ends c s e = 1 := by
  rw [ends, hthread]
  exact if_pos ⟨hbefore, by rw [hafter]; exact Bool.false_ne_true⟩

/-- A thread that moves is where it has gone. -/
theorem producers_go_self (s : State ι ε) (thread : ι) (p : Producer ε) :
    (s.go thread p).producers thread = p := Function.update_self _ _ _

section

variable {s' : State ι ε} {e : Event ι ε} {thread : ι}

/-- A step that pushes an entry, when there is space, ends the call. -/
theorem Balanced.pushed (h : Balanced c s' n) (entry : ε)
    (hspace : s'.queue.length < c.asyncQueueSize) (hthread : e.thread = some thread)
    (hbefore : (s.producers thread).inCall = true)
    (hstep : step c s e = s'.push thread entry) : Balanced c (step c s e) (n + ends c s e) := by
  have hends : ends c s e = 1 := by
    apply ends_of_idle hthread hbefore
    rw [hstep]
    exact producers_go_self _ thread _
  rw [hends, hstep]
  exact balanced_push h hspace thread entry

/-- A step that drops an entry ends the call. -/
theorem Balanced.dropped (h : Balanced c s n) (hthread : e.thread = some thread)
    (hbefore : (s.producers thread).inCall = true) (hstep : step c s e = s.drop thread) :
    Balanced c (step c s e) (n + ends c s e) := by
  have hends : ends c s e = 1 := by
    apply ends_of_idle hthread hbefore
    rw [hstep]
    exact producers_go_self _ thread _
  rw [hends, hstep]
  exact balanced_drop h thread

/-- A step with which the call goes on. -/
theorem Balanced.goes {p : Producer ε} (h : Balanced c s n) (hthread : e.thread = some thread)
    (hp : p.inCall = true) (hstep : step c s e = s.go thread p) :
    Balanced c (step c s e) (n + ends c s e) := by
  have hends : ends c s e = 0 := by
    apply ends_of_inCall hthread
    rw [hstep, producers_go_self]
    exact hp
  rw [hends, hstep]
  exact balanced_go h thread p

/-- A step that the thread cannot take. -/
theorem Balanced.stays (h : Balanced c s n) (hstep : step c s e = s) :
    Balanced c (step c s e) (n + ends c s e) := by
  have hends : ends c s e = 0 := by
    apply ends_of_not
    intro thread _
    rw [hstep]
    exact (Bool.eq_false_or_eq_true _).symm
  rw [hends, hstep]
  exact h

/-- A step that is about no call. -/
theorem Balanced.others (h : Balanced c (step c s e) n) (hthread : e.thread = none) :
    Balanced c (step c s e) (n + ends c s e) := by
  have hends : ends c s e = 0 := by
    rw [ends, hthread]
  rw [hends]
  exact h

end

/-- **A call that gets the lock** ends with an entry pushed or dropped, or waits. -/
theorem balanced_lock (hrun : s.running = true) (h : Balanced c s n)
    (hc : c.asyncQueueSize ≠ 0 ∨ c.overflowPolicy ≠ .discardOldest) (thread : ι) :
    Balanced c (step c s (.lock thread)) (n + ends c s (.lock thread)) := by
  by_cases hin : ∃ entry timed, s.producers thread = .entered entry timed
  · obtain ⟨entry, timed, hp⟩ := hin
    have hbefore : (s.producers thread).inCall = true := by
      rw [hp]
      rfl
    by_cases hfull : c.asyncQueueSize ≤ s.queue.length
    · cases hpolicy : c.overflowPolicy with
      | block =>
          refine h.goes (p := .waiting entry timed) rfl rfl ?_
          simp only [step, lock, hp, if_pos hfull, hpolicy, hrun, if_true]
      | discardOldest =>
          -- a full queue of a size that is not zero is not empty
          have hqueue : s.queue ≠ [] := by
            intro hempty
            rw [hempty, List.length_nil, Nat.le_zero] at hfull
            exact hc.elim (fun hsize => hsize hfull) (fun hother => hother hpolicy)
          obtain ⟨hevict, hspace⟩ := balanced_evict h hqueue
          refine hevict.pushed entry hspace rfl hbefore ?_
          simp only [step, lock, hp, if_pos hfull, hpolicy]
      | discardNewest =>
          refine h.dropped rfl hbefore ?_
          simp only [step, lock, hp, if_pos hfull, hpolicy]
    · refine h.pushed entry (not_le.mp hfull) rfl hbefore ?_
      simp only [step, lock, hp, if_neg hfull]
  · refine h.stays ?_
    rw [step, lock]
    split
    · next entry timed hp => exact absurd ⟨entry, timed, hp⟩ hin
    · rfl

/-- **A call that takes the lock again** ends with its entry pushed or dropped, or waits on. -/
theorem balanced_relock (hrun : s.running = true) (h : Balanced c s n) (thread : ι) :
    Balanced c (step c s (.relock thread)) (n + ends c s (.relock thread)) := by
  by_cases hin : ∃ entry timed expired, s.producers thread = .woken entry timed expired
  · obtain ⟨entry, timed, expired, hp⟩ := hin
    have hbefore : (s.producers thread).inCall = true := by
      rw [hp]
      rfl
    by_cases hspace : s.queue.length < c.asyncQueueSize
    · refine h.pushed entry hspace rfl hbefore ?_
      simp only [step, relock, hp, if_pos (Or.inl hspace), hrun, if_true]
    · have hnot : ¬ (s.queue.length < c.asyncQueueSize ∨ ¬ s.running = true) := by
        rintro (hlt | hstopped)
        · exact hspace hlt
        · exact hstopped hrun
      cases expired with
      | true =>
          refine h.dropped rfl hbefore ?_
          simp only [step, relock, hp, if_neg hnot, if_true]
      | false =>
          refine h.goes (p := .waiting entry timed) rfl rfl ?_
          simp only [step, relock, hp, if_neg hnot, Bool.false_eq_true, if_false]
  · refine h.stays ?_
    rw [step, relock]
    split
    · next entry timed expired hp => exact absurd ⟨entry, timed, expired, hp⟩ hin
    · rfl

omit [DecidableEq ι] in
/-- The worker takes a batch off the queue. -/
theorem balanced_collect (hrun : s.running = true) (h : Balanced c s n)
    (hbatch : s.worker.batchSize = 0) : Balanced c s.collect n := by
  have hcalls := h.calls_eq
  have hlength : s.queue.length ≤ c.asyncQueueSize := h.length_le
  rw [hbatch] at hcalls
  rw [collect, if_neg (fun hstopped => hstopped.1 hrun)]
  refine ⟨?_, ?_⟩
  · simp only [List.length_drop]
    omega
  · by_cases hqueue : s.queue = []
    · simp only [hqueue, List.length_nil, if_true, Worker.batchSize, List.drop_nil] at hcalls ⊢
      omega
    · simp only [hqueue, if_false, Worker.batchSize, List.length_drop, List.length_take]
      omega

/-- **A step of the worker** moves entries from the queue to its batch and from there to the count
of those processed. -/
theorem balanced_worker (hrun : s.running = true) (h : Balanced c s n) {e : Event ι ε}
    (he : e.OfWorker) : Balanced c (step c s e) n := by
  cases e with
  | workerTest =>
      rw [step, workerTest]
      split
      · next hw =>
          rw [if_pos hrun]
          exact h.of_eq rfl rfl rfl (by rw [hw]; rfl)
      · exact h
  | workerLock =>
      -- it collects a batch, or waits for one
      rw [step, workerLock]
      split
      · next hw =>
          split
          · exact balanced_collect hrun h (by rw [hw]; rfl)
          · exact h.of_eq rfl rfl rfl (by rw [hw]; rfl)
      · next expired hw =>
          split
          · exact balanced_collect hrun h (by rw [hw]; rfl)
          · exact h.of_eq rfl rfl rfl (by rw [hw]; rfl)
      · exact h
  | workerExpire =>
      rw [step, workerExpire]
      split
      · next hw => exact h.of_eq rfl rfl rfl (by rw [hw]; rfl)
      · exact h
  | workerNotify =>
      rw [step, workerNotify]
      split
      · next batch hw => exact h.of_eq rfl rfl rfl (by rw [hw]; rfl)
      · exact h
  | workerWrite =>
      rw [step, workerWrite]
      split
      · next k entry todo size hw => exact h.of_eq rfl rfl rfl (by rw [hw]; rfl)
      · next size hw =>
          -- the batch is written, and counts as processed from here on
          have hcalls := h.calls_eq
          rw [hw] at hcalls
          refine ⟨h.length_le, ?_⟩
          simp only [Worker.batchSize] at hcalls ⊢
          omega
      · exact h
  | _ => exact he.elim

/-- **Every step of a running logger keeps the counters balanced.** -/
theorem balanced_step (hrun : s.running = true) (h : Balanced c s n)
    (hc : c.asyncQueueSize ≠ 0 ∨ c.overflowPolicy ≠ .discardOldest) {e : Event ι ε}
    (he : ¬ e.OfShutdown) : Balanced c (step c s e) (n + ends c s e) := by
  -- A call begins, ends or goes on; the worker only wakes producers.
  cases e with
  | call thread entry timed =>
      cases hp : s.producers thread with
      | idle =>
          refine h.goes (p := .entered entry timed) rfl rfl ?_
          simp only [step, call, hp, hrun, if_true]
      | _ =>
          refine h.stays ?_
          simp only [step, call, hp]
  | lock thread => exact balanced_lock hrun h hc thread
  | expire thread =>
      by_cases hin : ∃ entry, s.producers thread = .waiting entry true
      · obtain ⟨entry, hp⟩ := hin
        refine h.goes (p := .woken entry true true) rfl rfl ?_
        simp only [step, expire, hp]
      · refine h.stays ?_
        rw [step, expire]
        split
        · next entry hp => exact absurd ⟨entry, hp⟩ hin
        · rfl
  | relock thread => exact balanced_relock hrun h thread
  | workerTest => exact (balanced_worker (e := .workerTest) hrun h trivial).others rfl
  | workerLock => exact (balanced_worker (e := .workerLock) hrun h trivial).others rfl
  | workerExpire => exact (balanced_worker (e := .workerExpire) hrun h trivial).others rfl
  | workerNotify => exact (balanced_worker (e := .workerNotify) hrun h trivial).others rfl
  | workerWrite => exact (balanced_worker (e := .workerWrite) hrun h trivial).others rfl
  | _ => exact absurd trivial he

/-! ## Runs -/

/-- **No step of a running logger breaks the bounds**, whatever its threads do. -/
theorem keepsBounds_run (hrun : s.running = true) (h : Balanced c s n)
    (hc : c.asyncQueueSize ≠ 0 ∨ c.overflowPolicy ≠ .discardOldest) {es : List (Event ι ε)}
    (hes : ∀ e ∈ es, ¬ e.OfShutdown) : Trace.Always (count c) (KeepsBounds c) (s, n) es := by
  induction es generalizing s n with
  | nil => trivial
  | cons e es ih =>
      have he := hes e List.mem_cons_self
      have hstep := balanced_step hrun h hc he
      have hpop : ¬ PopsEmpty c s e := by
        rintro ⟨thread, entry, timed, -, -, hfull, hpolicy, hempty⟩
        rw [hempty, List.length_nil, Nat.le_zero] at hfull
        exact hc.elim (fun hsize => hsize hfull) (fun hother => hother hpolicy)
      refine ⟨⟨hpop, hstep⟩, ?_⟩
      apply ih ((running_step he).trans hrun) hstep
      intro e' he'
      exact hes e' (List.mem_cons_of_mem e he')

/-- **The bounds hold in every run in which the logger is not shut down exactly if the queue has a
size, or the oldest entry is not what is discarded.** -/
theorem keepsBounds_iff [Inhabited ι] [Inhabited ε] (c : Config) :
    (∀ es : List (Event ι ε), (∀ e ∈ es, ¬ e.OfShutdown) →
      Trace.Always (count c) (KeepsBounds c) ({}, 0) es) ↔
    c.asyncQueueSize ≠ 0 ∨ c.overflowPolicy ≠ .discardOldest := by
  constructor
  · intro hall
    by_contra hc
    rw [not_or, not_not, not_not] at hc
    -- a single call gets to the lock
    have hrun := hall [.call default default false, .lock default] (by
      intro e he hshutdown
      rcases List.mem_cons.mp he with rfl | he
      · exact hshutdown
      · rw [List.mem_singleton.mp he] at hshutdown
        exact hshutdown)
    obtain ⟨-, ⟨hpop, -⟩, -⟩ := hrun
    apply hpop
    refine ⟨default, default, false, rfl, ?_, ?_, hc.2, rfl⟩
    · exact producers_go_self _ _ _
    · rw [hc.1]
      exact Nat.zero_le _
  · intro hc es hes
    exact keepsBounds_run rfl ⟨Nat.zero_le _, rfl⟩ hc hes

/-- With a size of zero the first entry that comes with `DISCARD_OLDEST` pops an empty queue. -/
theorem zero_size_pops_empty :
    ¬ ∀ es : List (Event Bool String), (∀ e ∈ es, ¬ e.OfShutdown) →
      Trace.Always (count ⟨0, .discardOldest, 1⟩) (KeepsBounds ⟨0, .discardOldest, 1⟩) ({}, 0) es := by
  intro hall
  have hrun := hall [.call true "entry" false, .lock true] (by
    intro e he hshutdown
    rcases List.mem_cons.mp he with rfl | he
    · exact hshutdown
    · rw [List.mem_singleton.mp he] at hshutdown
      exact hshutdown)
  obtain ⟨-, ⟨hpop, -⟩, -⟩ := hrun
  exact hpop ⟨true, "entry", false, rfl, rfl, Nat.zero_le _, rfl, rfl⟩

end State

end NetworkLib.AsyncLogger
