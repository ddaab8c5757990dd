import NetworkLib.Logging.AsyncLogger

/-! # What the asynchronous logger delivers

Accepted entries pass through the queue, the hands of the worker and the hands of `Shutdown` to
every sink, in the order of acceptance; `DISCARD_OLDEST` takes some off the front of the queue. What
a sink has got, what is in hand for it and the queue together are the accepted entries that were not
evicted (`Inv.flow`), so a sink gets them in order. All of them get there unless a call that found
`running_` true takes the lock only after the final drain (`log_delivered_iff`). -/

namespace NetworkLib.AsyncLogger

variable {ι ε : Type*}

/-! ## Entries in hand -/

/-- What is to be written to the `k`-th sink. -/
def Writes.at (todo : Writes ε) (k : ℕ) : List (Entry ε) :=
  (todo.filter fun w => w.1 = k).map Prod.snd

/-- What the worker has taken for the `k`-th sink and not written yet. -/
def Worker.inHand : Worker ε → ℕ → List (Entry ε)
  | .notifying batch, _ => batch
  | .writing todo _, k => todo.at k
  | _, _ => []

/-- What `Shutdown` has taken for the `k`-th sink and not written yet. -/
def Shutdown.inHand : Shutdown ε → ℕ → List (Entry ε)
  | .writing todo _, k => todo.at k
  | _, _ => []

/-- The worker has been joined. -/
def Shutdown.Joined : Shutdown ε → Prop
  | .draining => True
  | .writing _ _ => True
  | .flushing => True
  | .returned => True
  | _ => False

/-- The final drain is done. -/
def Shutdown.Drained : Shutdown ε → Prop
  | .writing _ _ => True
  | .flushing => True
  | .returned => True
  | _ => False

/-- The final drain comes after the join. -/
theorem Shutdown.Drained.joined {t : Shutdown ε} (h : t.Drained) : t.Joined := by
  cases t <;> trivial

/-- Before the join `Shutdown` has nothing in its hands. -/
theorem Shutdown.inHand_of_not_joined {t : Shutdown ε} (h : ¬ t.Joined) (k : ℕ) :
    t.inHand k = [] := by
  cases t with
  | writing todo size => exact absurd trivial h
  | _ => rfl

@[simp] theorem Worker.inHand_notified (w : Worker ε) (k : ℕ) :
    w.notified.inHand k = w.inHand k := by
  cases w <;> rfl

/-- The first write is due at its own sink. -/
theorem Writes.at_cons (k : ℕ) (e : Entry ε) (todo : Writes ε) (k' : ℕ) :
    Writes.at ((k, e) :: todo) k' = (if k = k' then [e] else []) ++ todo.at k' := by
  by_cases h : k = k'
  · simp [Writes.at, h]
  · simp [Writes.at, h]

/-- Writes due at a sink, and more behind them. -/
theorem Writes.at_append (xs ys : Writes ε) (k : ℕ) :
    Writes.at (xs ++ ys) k = xs.at k ++ ys.at k := by
  simp [Writes.at]

/-- The writes of a batch to one sink. -/
theorem Writes.at_map (j : ℕ) (batch : List (Entry ε)) (k : ℕ) :
    Writes.at (batch.map fun e => (j, e)) k = if j = k then batch else [] := by
  induction batch with
  | nil => simp [Writes.at]
  | cons e batch ih =>
      rw [List.map_cons, Writes.at_cons, ih]
      split <;> rfl

/-- Every sink gets the whole batch. -/
theorem at_processBatch {c : Config} {k : ℕ} (hk : k < c.sinks) (batch : List (Entry ε)) :
    (processBatch c batch).at k = batch := by
  have hrange (n : ℕ) :
      Writes.at ((List.range n).flatMap fun j => batch.map fun e => (j, e)) k
        = if k < n then batch else [] := by
    induction n with
    | zero => rfl
    | succ n ih =>
        rw [List.range_succ, List.flatMap_append, List.flatMap_singleton, Writes.at_append, ih,
          Writes.at_map]
        by_cases hlt : k < n
        · rw [if_pos hlt, if_neg (by omega), if_pos (by omega), List.append_nil]
        · by_cases heq : n = k
          · rw [if_neg hlt, if_pos heq, if_pos (by omega), List.nil_append]
          · rw [if_neg hlt, if_neg heq, if_neg (by omega), List.nil_append]
  exact (hrange c.sinks).trans (if_pos hk)

namespace State

/-! ## The invariant -/

/-- The accepted entries that were not evicted. -/
def due (s : State ι ε) : List (Entry ε) := s.accepted.filter fun e => e.1 ∉ s.evicted

/-- What the `k`-th sink has got, and what is on its way there, in this order. -/
def flow (s : State ι ε) (k : ℕ) : List (Entry ε) :=
  s.written k ++ s.worker.inHand k ++ s.shutdown.inHand k ++ s.queue

/-- What holds in every state of the logger. -/
structure Inv (c : Config) (s : State ι ε) : Prop where
  /-- The accepted entries are numbered. -/
  numbered : s.accepted.map Prod.fst = List.range s.accepted.length
  evicted_lt : ∀ n ∈ s.evicted, n < s.accepted.length
  queue_lt : ∀ e ∈ s.queue, e.1 < s.accepted.length
  /-- **Nothing is lost on the way to a sink, and nothing overtakes.** -/
  flow : ∀ k < c.sinks, s.flow k = s.due
  /-- Once it is joined the worker has returned. -/
  joined : s.shutdown.Joined → s.worker = .exited
  running : s.running = true ↔ s.shutdown = .idle

variable {c : Config} {s : State ι ε}

/-- Nothing has been accepted at the start. -/
theorem inv_init (c : Config) : Inv c ({} : State ι ε) where
  numbered := rfl
  evicted_lt _ h := nomatch h
  queue_lt _ h := nomatch h
  flow _ _ := rfl
  joined h := h.elim
  running := by simp

/-- The numbers of the entries due are different. -/
theorem Inv.nodup_due (h : Inv c s) : (s.due.map Prod.fst).Nodup := by
  refine List.Nodup.sublist (List.filter_sublist.map _) ?_
  rw [h.numbered]
  exact List.nodup_range

/-- Taking one of several entries with different numbers out. -/
theorem filter_ne_middle {front back : List (Entry ε)} {x : Entry ε}
    (h : ((front ++ x :: back).map Prod.fst).Nodup) :
    (front ++ x :: back).filter (fun e => e.1 ≠ x.1) = front ++ back := by
  rw [List.map_append, List.map_cons, List.nodup_append, List.nodup_cons] at h
  obtain ⟨-, ⟨hback, -⟩, hfront⟩ := h
  rw [List.filter_append, List.filter_cons_of_neg (by simp)]
  congr 1
  · refine List.filter_eq_self.mpr fun e he => ?_
    have hne := hfront e.1 (List.mem_map_of_mem he) x.1 List.mem_cons_self
    simpa using hne
  · refine List.filter_eq_self.mpr fun e he => ?_
    have hne : e.1 ≠ x.1 := fun heq => hback (heq ▸ List.mem_map_of_mem he)
    simpa using hne

/-- A step that passes entries on. -/
theorem Inv.passed {s' : State ι ε} (h : Inv c s) (haccepted : s'.accepted = s.accepted)
    (hevicted : s'.evicted = s.evicted) (hqueue : ∀ e ∈ s'.queue, e ∈ s.queue)
    (hflow : ∀ k < c.sinks, s'.flow k = s.flow k)
    (hjoined : s'.shutdown.Joined → s'.worker = .exited)
    (hrunning : s'.running = true ↔ s'.shutdown = .idle) : Inv c s' where
  numbered := by
    rw [haccepted]
    exact h.numbered
  evicted_lt := by
    rw [haccepted, hevicted]
    exact h.evicted_lt
  queue_lt e he := by
    rw [haccepted]
    exact h.queue_lt e (hqueue e he)
  flow k hk := by
    rw [hflow k hk, h.flow k hk, due, due, haccepted, hevicted]
  joined := hjoined
  running := hrunning

/-- A step that does not touch entries. -/
theorem Inv.same {s' : State ι ε} (h : Inv c s) (haccepted : s'.accepted = s.accepted)
    (hevicted : s'.evicted = s.evicted) (hqueue : s'.queue = s.queue)
    (hwritten : s'.written = s.written) (hworker : s'.worker = s.worker)
    (hshutdown : s'.shutdown = s.shutdown) (hrunning : s'.running = s.running) : Inv c s' := by
  refine h.passed haccepted hevicted (fun e he => hqueue ▸ he) (fun k _ => ?_) ?_ ?_
  · rw [State.flow, State.flow, hwritten, hworker, hshutdown, hqueue]
  · rw [hshutdown, hworker]
    exact h.joined
  · rw [hrunning, hshutdown]
    exact h.running

/-- An evicted entry is not due any more, and it was at the front of the queue. -/
theorem inv_evict (h : Inv c s) : Inv c s.evict := by
  cases hq : s.queue with
  | nil =>
      -- nothing to throw away; only the counter moves
      have hsame : s.evict = { s with dropped := s.dropped + 1 } := by
        simp [evict, hq]
      rw [hsame]
      exact h.same rfl rfl rfl rfl rfl rfl rfl
  | cons x q =>
      -- the oldest entry goes from the queue to those evicted, and is due no more
      have hevicted : s.evict.evicted = s.evicted ++ [x.1] := by simp [evict, hq]
      have hqueue : s.evict.queue = q := by simp [evict, hq]
      refine ⟨h.numbered, fun n hn => ?_, fun e he => ?_, fun k hk => ?_, h.joined, h.running⟩
      · rw [hevicted, List.mem_append, List.mem_singleton] at hn
        rcases hn with hn | rfl
        · exact h.evicted_lt n hn
        · exact h.queue_lt x (by rw [hq]; exact List.mem_cons_self)
      · rw [hqueue] at he
        exact h.queue_lt e (by rw [hq]; exact List.mem_cons_of_mem _ he)
      · have hflow := h.flow k hk
        have hnodup := h.nodup_due
        have hdue : s.evict.due = s.due.filter fun e => e.1 ≠ x.1 := by
          rw [due, hevicted, due, List.filter_filter]
          refine List.filter_congr fun e _ => ?_
          simp [and_comm]
        rw [State.flow, hq] at hflow
        rw [← hflow] at hnodup
        rw [hdue, ← hflow, filter_ne_middle hnodup, State.flow, hqueue]
        rfl

/-- A step of the worker alone, which leaves the same in its hands. -/
theorem inv_worker (h : Inv c s) {w w' : Worker ε} (hw : s.worker = w) (hexited : w ≠ .exited)
    (hhand : ∀ k < c.sinks, w'.inHand k = w.inHand k) : Inv c { s with worker := w' } := by
  refine h.passed rfl rfl (fun _ => id) (fun k hk => ?_) (fun hj => ?_) h.running
  · show s.written k ++ w'.inHand k ++ s.shutdown.inHand k ++ s.queue = s.flow k
    rw [hhand k hk, State.flow, hw]
  · exact absurd (hw ▸ h.joined hj) hexited

/-- Until the worker has returned nothing is in the hands of `Shutdown`. -/
theorem Inv.shutdown_inHand (h : Inv c s) (hexited : s.worker ≠ .exited) (k : ℕ) :
    s.shutdown.inHand k = [] :=
  Shutdown.inHand_of_not_joined (fun hj => hexited (h.joined hj)) k

/-! ## The steps of the worker -/

/-- The worker's test of `running_` keeps the account of the entries. -/
theorem inv_workerTest (h : Inv c s) : Inv c s.workerTest := by
  unfold workerTest
  split
  · next hw =>
      refine inv_worker h hw (by simp) fun k _ => ?_
      split <;> rfl
  · exact h

/-- The worker takes its batch off the front of the queue. -/
theorem inv_collect (h : Inv c s) (hexited : s.worker ≠ .exited)
    (hhand : ∀ k, s.worker.inHand k = []) : Inv c s.collect := by
  unfold collect
  split
  · exact inv_worker h rfl hexited fun k _ => (hhand k).symm
  · refine h.passed rfl rfl (fun e he => List.mem_of_mem_drop he) (fun k _ => ?_) (fun hj => ?_)
      h.running
    · rw [State.flow, State.flow, hhand, h.shutdown_inHand hexited, List.append_nil,
        List.append_nil, List.append_nil]
      by_cases hq : s.queue = []
      · simp [hq, Worker.inHand]
      · rw [if_neg hq, List.append_assoc]
        exact congrArg (s.written k ++ ·) (List.take_append_drop ..)
    · exact absurd (h.joined hj) hexited

/-- So does its section. -/
theorem inv_workerLock (h : Inv c s) : Inv c s.workerLock := by
  unfold workerLock
  split
  · next hw =>
      split
      · exact inv_collect h (by simp [hw]) fun k => by rw [hw]; rfl
      · exact inv_worker h hw (by simp) fun _ _ => rfl
  · next hw =>
      split
      · exact inv_collect h (by simp [hw]) fun k => by rw [hw]; rfl
      · exact inv_worker h hw (by simp) fun _ _ => rfl
  · exact h

/-- So does the end of its wait by time. -/
theorem inv_workerExpire (h : Inv c s) : Inv c s.workerExpire := by
  unfold workerExpire
  split
  · next hw => exact inv_worker h hw (by simp) fun _ _ => rfl
  · exact h

/-- So does its announcement of a batch. -/
theorem inv_workerNotify (h : Inv c s) : Inv c (s.workerNotify c) := by
  unfold workerNotify
  split
  · next batch hw =>
      have hmoved : Inv c { s with worker := .writing (processBatch c batch) batch.length } :=
        inv_worker h hw (by simp) fun k hk => at_processBatch hk batch
      exact hmoved.same rfl rfl rfl rfl rfl rfl rfl
  · exact h

/-- A write moves one entry from the hands of the writer to the sink. -/
theorem written_writeTo (k : ℕ) (e : Entry ε) (todo : Writes ε) (k' : ℕ) :
    (s.writeTo k e).written k' ++ todo.at k' = s.written k' ++ Writes.at ((k, e) :: todo) k' := by
  show Function.update s.written k (s.written k ++ [e]) k' ++ todo.at k' = _
  rw [Writes.at_cons]
  by_cases hk : k = k'
  · rw [← hk, Function.update_self, if_pos rfl, List.append_assoc]
  · rw [Function.update_of_ne (Ne.symm hk), if_neg hk, List.nil_append]

/-- So does one write of it. -/
theorem inv_workerWrite (h : Inv c s) : Inv c s.workerWrite := by
  unfold workerWrite
  split
  · next k e todo size hw =>
      refine h.passed rfl rfl (fun _ => id) (fun k' _ => ?_) (fun hj => ?_) h.running
      · show (s.writeTo k e).written k' ++ Writes.at todo k' ++ s.shutdown.inHand k' ++ s.queue
          = s.written k' ++ s.worker.inHand k' ++ s.shutdown.inHand k' ++ s.queue
        rw [hw, written_writeTo]
        rfl
      · have hexited := h.joined hj
        rw [hw] at hexited
        cases hexited
  · next size hw =>
      have hdone : Inv c { s with worker := .testing } := inv_worker h hw (by simp) fun _ _ => rfl
      exact hdone.same rfl rfl rfl rfl rfl rfl rfl
  · exact h

/-! ## The steps of `Shutdown` -/

/-- A step of `Shutdown` between its wake-up of the worker and its end that takes nothing. -/
theorem inv_shutdown (h : Inv c s) {t t' : Shutdown ε} (ht : s.shutdown = t) (hidle : t ≠ .idle)
    (hidle' : t' ≠ .idle) (hhand : ∀ k, t'.inHand k = t.inHand k)
    (hjoined : t'.Joined → s.worker = .exited) : Inv c { s with shutdown := t' } := by
  refine h.passed rfl rfl (fun _ => id) (fun k _ => ?_) hjoined ?_
  · show s.written k ++ s.worker.inHand k ++ t'.inHand k ++ s.queue = s.flow k
    rw [hhand, State.flow, ht]
  · have hrunning := h.running
    rw [ht] at hrunning
    exact hrunning.trans (iff_of_false hidle hidle')

/-- So does `Shutdown` setting `running_` to false. -/
theorem inv_exchange (h : Inv c s) : Inv c s.exchange := by
  unfold exchange
  split
  · next ht =>
      have hrun : s.running = true := h.running.mpr ht
      rw [if_pos hrun]
      refine h.passed rfl rfl (fun _ => id) (fun k _ => ?_) (fun hj => hj.elim) (by simp)
      rw [State.flow, State.flow, ht]
      rfl
  · exact h

/-- So does its waking of the threads. -/
theorem inv_notify (h : Inv c s) : Inv c s.notify := by
  unfold notify
  split
  · next ht =>
      have hjoining : Inv c { s with shutdown := .joining } :=
        inv_shutdown h ht (by simp) (by simp) (fun _ => rfl) fun hj => hj.elim
      refine hjoining.passed rfl rfl (fun _ => id) (fun k _ => ?_) (fun hj => hj.elim)
        hjoining.running
      rw [State.flow, State.flow, Worker.inHand_notified]
  · exact h

/-- So does its join. -/
theorem inv_join (h : Inv c s) : Inv c s.join := by
  unfold join
  split
  · next ht hw => exact inv_shutdown h ht (by simp) (by simp) (fun _ => rfl) fun _ => hw
  · exact h

/-- `Shutdown` takes the rest of the queue. -/
theorem inv_drain (h : Inv c s) : Inv c (s.drain c) := by
  unfold drain
  split
  · next ht =>
      have hexited : s.worker = .exited := h.joined (by rw [ht]; trivial)
      refine h.passed rfl rfl (fun e he => nomatch he) (fun k hk => ?_) (fun _ => hexited) ?_
      · rw [State.flow, State.flow, ht, List.append_nil]
        by_cases hq : s.queue = []
        · rw [if_pos hq, hq, List.append_nil]
          rfl
        · rw [if_neg hq]
          show _ ++ (processBatch c s.queue).at k = _ ++ [] ++ s.queue
          rw [at_processBatch hk, List.append_nil]
      · have hrunning := h.running
        rw [ht] at hrunning
        refine hrunning.trans (iff_of_false (by simp) ?_)
        split <;> simp
  · exact h

/-- So does one write of the final drain. -/
theorem inv_write (h : Inv c s) : Inv c s.write := by
  unfold write
  split
  · next k e todo size ht =>
      have hexited : s.worker = .exited := h.joined (by rw [ht]; trivial)
      refine h.passed rfl rfl (fun _ => id) (fun k' _ => ?_) (fun _ => hexited) ?_
      · have hhand : s.worker.inHand k' = [] := by rw [hexited]; rfl
        show (s.writeTo k e).written k' ++ s.worker.inHand k' ++ Writes.at todo k' ++ s.queue
          = s.written k' ++ s.worker.inHand k' ++ s.shutdown.inHand k' ++ s.queue
        rw [hhand, ht, List.append_nil, List.append_nil, written_writeTo]
        rfl
      · have hrunning := h.running
        rw [ht] at hrunning
        exact hrunning.trans (iff_of_false (by simp) (by simp [writeTo]))
  · next size ht =>
      have hexited : s.worker = .exited := h.joined (by rw [ht]; trivial)
      have hdone : Inv c { s with shutdown := .flushing } :=
        inv_shutdown h ht (by simp) (by simp) (fun _ => rfl) fun _ => hexited
      exact hdone.same rfl rfl rfl rfl rfl rfl rfl
  · exact h

/-- So does the flush of the sinks. -/
theorem inv_flush (h : Inv c s) : Inv c s.flush := by
  unfold flush
  split
  · next ht =>
      exact inv_shutdown h ht (by simp) (by simp) (fun _ => rfl)
        fun _ => h.joined (by rw [ht]; trivial)
  · exact h

variable [DecidableEq ι]

/-- So does a move of a calling thread. -/
theorem inv_go (h : Inv c s) (thread : ι) (p : Producer ε) : Inv c (s.go thread p) :=
  h.same rfl rfl rfl rfl rfl rfl rfl

/-- So does a call that drops its entry. -/
theorem inv_drop (h : Inv c s) (thread : ι) : Inv c (s.drop thread) :=
  h.same rfl rfl rfl rfl rfl rfl rfl

/-- An accepted entry is due, and it is at the end of the queue. -/
theorem inv_push (h : Inv c s) (thread : ι) (entry : ε) : Inv c (s.push thread entry) where
  numbered := by
    show (s.accepted ++ [_]).map _ = List.range (s.accepted ++ [_]).length
    rw [List.map_append, h.numbered, List.length_append, List.length_singleton, List.range_succ]
    rfl
  evicted_lt n hn := by
    have hlt := h.evicted_lt n hn
    show n < (s.accepted ++ [_]).length
    rw [List.length_append]
    omega
  queue_lt e he := by
    show e.1 < (s.accepted ++ [_]).length
    rw [List.length_append, List.length_singleton]
    rcases List.mem_append.mp he with he | he
    · have hlt := h.queue_lt e he
      omega
    · rw [List.mem_singleton.mp he]
      exact Nat.lt_succ_self _
  flow k hk := by
    -- the number is fresh, so the entry is due
    have hnew : s.accepted.length ∉ s.evicted := fun hmem => (h.evicted_lt _ hmem).ne rfl
    have hlast : [(s.accepted.length, entry)].filter (fun e => e.1 ∉ s.evicted)
        = [(s.accepted.length, entry)] := by
      simp [hnew]
    have hdue : (s.push thread entry).due = s.due ++ [(s.accepted.length, entry)] := by
      show (s.accepted ++ [(s.accepted.length, entry)]).filter (fun e => e.1 ∉ s.evicted) = _
      rw [List.filter_append, hlast]
      rfl
    rw [hdue, ← h.flow k hk]
    show s.written k ++ s.worker.notified.inHand k ++ s.shutdown.inHand k ++ (s.queue ++ [_]) = _
    rw [Worker.inHand_notified, flow, List.append_assoc]
    simp
  joined hj := by
    show s.worker.notified = .exited
    rw [h.joined hj]
    rfl
  running := h.running

/-! ## The steps of the logging threads -/

/-- So does a new call. -/
theorem inv_call (h : Inv c s) (thread : ι) (entry : ε) (timed : Bool) :
    Inv c (s.call thread entry timed) := by
  unfold call
  split
  · split
    · exact inv_go h _ _
    · exact h
  · exact h

/-- So does the section of a call. -/
theorem inv_lock (h : Inv c s) (thread : ι) : Inv c (s.lock c thread) := by
  unfold lock
  split
  · split
    · split
      · exact inv_go h _ _
      · exact inv_push (inv_evict h) _ _
      · exact inv_drop h _
    · exact inv_push h _ _
  · exact h

/-- So does the end of a thread's wait by time. -/
theorem inv_expire (h : Inv c s) (thread : ι) : Inv c (s.expire thread) := by
  unfold expire
  split
  · exact inv_go h _ _
  · exact h

/-- So does a thread that has been woken. -/
theorem inv_relock (h : Inv c s) (thread : ι) : Inv c (s.relock c thread) := by
  unfold relock
  split
  · split
    · split
      · exact inv_push h _ _
      · exact inv_go h _ _
    · split
      · exact inv_drop h _
      · exact inv_go h _ _
  · exact h

/-! ## Whole runs -/

/-- **Every step keeps the account of the entries.** -/
theorem inv_step (h : Inv c s) (e : Event ι ε) : Inv c (step c s e) := by
  cases e with
  | call thread entry timed => exact inv_call h thread entry timed
  | lock thread => exact inv_lock h thread
  | expire thread => exact inv_expire h thread
  | relock thread => exact inv_relock h thread
  | workerTest => exact inv_workerTest h
  | workerLock => exact inv_workerLock h
  | workerExpire => exact inv_workerExpire h
  | workerNotify => exact inv_workerNotify h
  | workerWrite => exact inv_workerWrite h
  | exchange => exact inv_exchange h
  | notify => exact inv_notify h
  | join => exact inv_join h
  | drain => exact inv_drain h
  | write => exact inv_write h
  | flush => exact inv_flush h

/-- So it holds after any events. -/
theorem inv_after (c : Config) (es : List (Event ι ε)) : Inv c (after c es) :=
  Trace.run_preserves (I := Inv c) (fun _ e h => inv_step h e) (inv_init c) es

/-! ## Late entries -/

/-- A call that has found `running_` true takes the lock before the final drain. -/
def InTime (s : State ι ε) : Event ι ε → Prop
  | .lock thread =>
    (∃ entry timed, s.producers thread = .entered entry timed) → ¬ s.shutdown.Drained
  | _ => True

omit [DecidableEq ι] in
/-- Before the final drain everything is in time. -/
theorem inTime_of_not_drained (hd : ¬ s.shutdown.Drained) (e : Event ι ε) : InTime s e := by
  cases e with
  | lock thread => exact fun _ => hd
  | _ => trivial

/-- The drain empties the queue. -/
theorem queue_of_drain (h : Inv c s) (hd : ¬ s.shutdown.Drained) {e : Event ι ε}
    (hd' : (step c s e).shutdown.Drained) : (step c s e).queue = [] := by
  -- The final drain is the one step that leads there, and it empties the queue.
  by_cases he : e.OfShutdown
  · cases e with
    | exchange =>
        rw [step, exchange] at hd'
        split at hd'
        · next ht =>
            have hrun : s.running = true := h.running.mpr ht
            rw [if_pos hrun] at hd'
            exact hd'.elim
        · exact absurd hd' hd
    | notify =>
        rw [step, notify] at hd'
        split at hd'
        · exact hd'.elim
        · exact absurd hd' hd
    | join =>
        rw [step, join] at hd'
        split at hd'
        · exact hd'.elim
        · exact absurd hd' hd
    | drain =>
        rw [step, drain] at hd' ⊢
        split at hd'
        · rfl
        · exact absurd hd' hd
    | write =>
        rw [step, write] at hd'
        split at hd'
        · next ht => exact absurd (ht ▸ trivial) hd
        · next ht => exact absurd (ht ▸ trivial) hd
        · exact absurd hd' hd
    | flush =>
        rw [step, flush] at hd'
        split at hd'
        · next ht => exact absurd (ht ▸ trivial) hd
        · exact absurd hd' hd
    | _ => exact he.elim
  · rw [shutdown_step he] at hd'
    exact absurd hd' hd

/-- After the drain `Shutdown` leaves the queue alone. -/
theorem shutdown_of_drained (hd : s.shutdown.Drained) {e : Event ι ε} (he : e.OfShutdown) :
    (step c s e).shutdown.Drained ∧ (step c s e).queue = s.queue := by
  have hsame : s.shutdown.Drained ∧ s.queue = s.queue := ⟨hd, rfl⟩
  -- Behind the drain `Shutdown` only writes and flushes; its earlier steps are no longer enabled.
  cases e with
  | exchange =>
      rw [step, exchange]
      split
      · next ht =>
          rw [ht] at hd
          exact hd.elim
      · exact hsame
  | notify =>
      rw [step, notify]
      split
      · next ht =>
          rw [ht] at hd
          exact hd.elim
      · exact hsame
  | join =>
      rw [step, join]
      split
      · next ht _ =>
          rw [ht] at hd
          exact hd.elim
      · exact hsame
  | drain =>
      rw [step, drain]
      split
      · next ht =>
          rw [ht] at hd
          exact hd.elim
      · exact hsame
  | write =>
      rw [step, write]
      split
      · exact ⟨trivial, rfl⟩
      · exact ⟨trivial, rfl⟩
      · exact hsame
  | flush =>
      rw [step, flush]
      split
      · exact ⟨trivial, rfl⟩
      · exact hsame
  | _ => exact he.elim

/-- A call that takes the lock leaves an entry in the queue, its own or those it has found. -/
theorem queue_lock_ne_nil (hcap : 0 < c.asyncQueueSize) {thread : ι} {entry : ε} {timed : Bool}
    (hp : s.producers thread = .entered entry timed) : (s.lock c thread).queue ≠ [] := by
  rw [lock, hp]
  dsimp only
  split
  · next hfull =>
      have hne : s.queue ≠ [] := by
        intro hq
        rw [hq, List.length_nil] at hfull
        omega
      split
      · exact hne
      · exact List.append_ne_nil_of_right_ne_nil _ (List.cons_ne_nil _ _)
      · exact hne
  · exact List.append_ne_nil_of_right_ne_nil _ (List.cons_ne_nil _ _)

/-- What a step does to the queue after the drain. -/
theorem step_of_drained (h : Inv c s) (hcap : 0 < c.asyncQueueSize) (hd : s.shutdown.Drained)
    (e : Event ι ε) :
    (InTime s e → (step c s e).queue = s.queue) ∧ (¬ InTime s e → (step c s e).queue ≠ []) := by
  -- `running_` has been false since before the drain
  have hrun : s.running ≠ true := by
    intro hrun
    rw [h.running.mp hrun] at hd
    exact hd
  by_cases hshutdown : e.OfShutdown
  · refine ⟨fun _ => (shutdown_of_drained hd hshutdown).2, fun hlate => ?_⟩
    cases e with
    | lock thread => exact hshutdown.elim
    | _ => exact absurd trivial hlate
  by_cases hworker : e.OfWorker
  · rw [step_of_exited (h.joined hd.joined) hworker]
    refine ⟨fun _ => rfl, fun hlate => ?_⟩
    cases e with
    | lock thread => exact hworker.elim
    | _ => exact absurd trivial hlate
  cases e with
  | call thread entry timed =>
      refine ⟨fun _ => ?_, fun hlate => absurd trivial hlate⟩
      rw [step, call]
      split
      · rw [if_neg hrun]
      · rfl
  | lock thread =>
      refine ⟨fun hin => ?_, fun hlate => ?_⟩
      · rw [step, lock]
        split
        · next entry timed hp => exact absurd hd (hin ⟨entry, timed, hp⟩)
        · rfl
      · obtain ⟨⟨entry, timed, hp⟩, -⟩ := Classical.not_imp.mp hlate
        exact queue_lock_ne_nil hcap hp
  | expire thread =>
      refine ⟨fun _ => ?_, fun hlate => absurd trivial hlate⟩
      rw [step, expire]
      split <;> rfl
  -- a thread that has waited tests `running_` again, under the lock
  | relock thread =>
      refine ⟨fun _ => ?_, fun hlate => absurd trivial hlate⟩
      rw [step, relock]
      split
      · rw [if_pos (.inr hrun), if_neg hrun]
        rfl
      · rfl
  | _ => first | exact absurd trivial hworker | exact absurd trivial hshutdown

/-- Once the final drain is over, it stays so. -/
theorem drained_step (hd : s.shutdown.Drained) (e : Event ι ε) :
    (step c s e).shutdown.Drained := by
  by_cases he : e.OfShutdown
  · exact (shutdown_of_drained hd he).1
  · rwa [shutdown_step he]

/-- No entry has come after the final drain. -/
def Emptied (s : State ι ε) : Prop := s.shutdown.Drained → s.queue = []

/-- With the calls in time, the queue stays empty behind the final drain. -/
theorem emptied_step (h : Inv c s) (hcap : 0 < c.asyncQueueSize) (hs : Emptied s) {e : Event ι ε}
    (he : InTime s e) : Emptied (step c s e) := by
  intro hd'
  by_cases hd : s.shutdown.Drained
  · rw [(step_of_drained h hcap hd e).1 he, hs hd]
  · exact queue_of_drain h hd hd'

/-- An entry that comes after the final drain stays in the queue. -/
theorem not_emptied_step (h : Inv c s) (hcap : 0 < c.asyncQueueSize) {e : Event ι ε}
    (hs : ¬ Emptied s ∨ ¬ InTime s e) : ¬ Emptied (step c s e) := by
  have hd : s.shutdown.Drained := by
    rcases hs with hs | hs
    · exact (Classical.not_imp.mp hs).1
    · by_contra hd
      exact hs (inTime_of_not_drained hd e)
  intro hs'
  have hqueue := hs' (drained_step hd e)
  by_cases he : InTime s e
  · rw [(step_of_drained h hcap hd e).1 he] at hqueue
    exact hs.elim (fun hs => hs fun _ => hqueue) (absurd he)
  · exact (step_of_drained h hcap hd e).2 he hqueue

/-- **No entry comes after the final drain exactly if every call takes the lock in time.** -/
theorem emptied_after_iff (hcap : 0 < c.asyncQueueSize) (es : List (Event ι ε)) :
    Emptied (after c es) ↔ Trace.Always (step c) InTime {} es := by
  have hverdict := Trace.run_verdict (I := Inv c) (G := Emptied) (B := fun s => ¬ Emptied s)
    (fun _ e h => inv_step h e) (fun _ _ h hs he => emptied_step h hcap hs he)
    (fun _ _ h _ he => not_emptied_step h hcap (.inr he))
    (fun _ _ h hs => not_emptied_step h hcap (.inl hs)) (inv_init c) (fun _ => rfl) es
  rcases hverdict with ⟨hin, hs⟩ | ⟨hlate, hs⟩
  · exact iff_of_true hs hin
  · exact iff_of_false hs hlate

/-! ## What the sinks get -/

/-- `Shutdown` has returned, and no call is in progress. -/
def Settled (s : State ι ε) : Prop := s.shutdown = .returned ∧ ∀ thread, s.producers thread = .idle

/-- Every sink has got accepted entries that were not evicted in the order of acceptance, none of
them twice and none left out in between. -/
def InOrder (c : Config) (s : State ι ε) : Prop :=
  ∀ k < c.sinks, s.written k <+: s.due ∧ ((s.written k).map Prod.fst).Nodup

/-- Every sink has got every accepted entry that was not evicted. -/
def Delivered (c : Config) (s : State ι ε) : Prop := ∀ k < c.sinks, s.written k = s.due

omit [DecidableEq ι] in
/-- The account says that every sink has written in the order of acceptance. -/
theorem Inv.inOrder (h : Inv c s) : InOrder c s := by
  intro k hk
  have hpre : s.written k <+: s.due := by
    rw [← h.flow k hk, State.flow, List.append_assoc, List.append_assoc]
    exact List.prefix_append ..
  exact ⟨hpre, h.nodup_due.sublist (hpre.sublist.map _)⟩

omit [DecidableEq ι] in
/-- Once `Shutdown` has returned, what a sink has not got is in the queue. -/
theorem Inv.flow_of_returned (h : Inv c s) (ht : s.shutdown = .returned) {k : ℕ}
    (hk : k < c.sinks) : s.written k ++ s.queue = s.due := by
  have hexited : s.worker = .exited := h.joined (by rw [ht]; trivial)
  rw [← h.flow k hk, State.flow, hexited, ht]
  simp [Worker.inHand, Shutdown.inHand]

omit [DecidableEq ι] in
/-- When `Shutdown` has returned, all is delivered exactly if the queue is empty. -/
theorem Inv.delivered_iff (h : Inv c s) (ht : s.shutdown = .returned) :
    Delivered c s ↔ c.sinks = 0 ∨ s.queue = [] := by
  constructor
  · intro hall
    rw [or_iff_not_imp_left]
    intro hsinks
    have hflow := h.flow_of_returned ht (Nat.pos_of_ne_zero hsinks)
    rw [hall 0 (Nat.pos_of_ne_zero hsinks)] at hflow
    exact List.append_right_eq_self.mp hflow
  · intro hnone k hk
    rw [← h.flow_of_returned ht hk, hnone.resolve_left (by omega), List.append_nil]

end State

open State in
/-- **Every sink gets the accepted entries in order, and none twice; and once `Shutdown` has
returned and no call is in progress, it has got all of them exactly if every call that found
`running_` true took the lock before the final drain of the queue.** -/
theorem log_delivered_iff [DecidableEq ι] {c : Config} (hcap : 0 < c.asyncQueueSize)
    (es : List (Event ι ε)) :
    InOrder c (after c es) ∧
      (Settled (after c es) →
        (Delivered c (after c es) ↔ c.sinks = 0 ∨ Trace.Always (step c) InTime {} es)) := by
  have hinv : Inv c (after c es) := inv_after c es
  refine ⟨hinv.inOrder, fun hsettled => ?_⟩
  have hdrained : (after c es).shutdown.Drained := by
    rw [hsettled.1]
    trivial
  rw [hinv.delivered_iff hsettled.1, ← emptied_after_iff hcap]
  exact or_congr_right ⟨fun hq _ => hq, fun hq => hq hdrained⟩

open State in
/-- Two calls, of which the second evicts the entry of the first; the worker writes the other one to
both sinks, and `Shutdown` finds nothing left. -/
theorem log_delivered_evicting :
    Delivered ⟨1, .discardOldest, 2⟩ (after ⟨1, .discardOldest, 2⟩
      [.call true 'a' false, .call false 'b' true, .lock true, .lock false, .workerTest,
        .workerLock, .workerNotify, .workerWrite, .workerWrite, .workerWrite, .exchange, .notify,
        .workerTest, .join, .drain, .flush]) :=
  ((log_delivered_iff Nat.one_pos _).2 ⟨rfl, by decide⟩).mpr
    (.inr ⟨trivial, trivial, fun _ => id, fun _ => id, trivial, trivial, trivial, trivial, trivial,
      trivial, trivial, trivial, trivial, trivial, trivial, trivial, trivial⟩)

open State in
/-- **A call that has found `running_` true and takes the lock after the final drain has its entry
accepted, and no sink gets it.** -/
theorem late_entry_lost :
    let s : State Unit Char := after { asyncQueueSize := 1 }
      [.call () 'a' false, .exchange, .notify, .workerTest, .join, .drain, .flush, .lock ()]
    Settled s ∧ s.accepted = [(0, 'a')] ∧ s.evicted = [] ∧ s.written 0 = [] ∧
      ¬ (Settled s → Delivered { asyncQueueSize := 1 } s) := by
  have hsettled : Settled (after { asyncQueueSize := 1 }
      [.call () 'a' false, .exchange, .notify, .workerTest, .join, .drain, .flush, .lock ()]) :=
    ⟨rfl, fun _ => rfl⟩
  refine ⟨hsettled, rfl, rfl, rfl, fun h => ?_⟩
  have hwritten : [] = [(0, 'a')] := h hsettled 0 Nat.one_pos
  exact List.cons_ne_nil _ _ hwritten.symm

end NetworkLib.AsyncLogger
