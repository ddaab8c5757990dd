import NetworkLib.Theory.Trace

/-! # The io_uring poller

`IoUringPoller::Poll`. The completion ring is a queue: the kernel adds completions at its end, and
`io_uring_cq_advance` takes them off its front. `Poll` goes through all completions that are in the
ring and reports those whose result is not negative, but it advances the ring by the number of
events that it has reported. The completions it has seen and those it takes off are the same only if
none has failed (`reportsOnce_iff`). -/

namespace NetworkLib.IoUringPoller

/-- `POLLIN`. -/
def POLLIN : Int32 := 1

/-- `POLLOUT`. -/
def POLLOUT : Int32 := 4

/-- `ETIME`. -/
def ETIME : ℤ := 62

/-- A completion, `struct io_uring_cqe`. -/
structure Cqe (δ : Type*) where
  /-- `res`. -/
  res : Int32
  /-- What `io_uring_cqe_get_data` returns. -/
  data : δ
  deriving DecidableEq

/-- `Event`, with the fields that `Poll` sets. -/
structure Event (δ : Type*) where
  events : UInt32
  data : δ
  deriving DecidableEq

variable {δ : Type*}

/-- The completion is reported. -/
def Cqe.Reported (cqe : Cqe δ) : Prop := 0 ≤ cqe.res

instance (cqe : Cqe δ) : Decidable cqe.Reported := inferInstanceAs (Decidable (_ ≤ _))

/-- The event made of a completion: the result is mapped back to the events of epoll. -/
def Cqe.event (cqe : Cqe δ) : Event δ where
  events := (if cqe.res &&& POLLIN ≠ 0 then 0x001 else 0) ||| (if cqe.res &&& POLLOUT ≠ 0 then 0x004 else 0)
  data := cqe.data

/-- A turn of the loop of `Poll`, with the events pushed so far and `count`. -/
def visit (p : List (Event δ) × ℕ) (cqe : Cqe δ) : List (Event δ) × ℕ :=
  if cqe.Reported then (p.1 ++ [cqe.event], p.2 + 1) else p

/-- `Poll`, when `io_uring_wait_cqe_timeout` returns `ret`: the events it pushes, what it returns,
and the completions that are left in the ring. -/
def poll (ring : List (Cqe δ)) (ret : ℤ) : List (Event δ) × ℤ × List (Cqe δ) :=
  if ret < 0 then ([], if ret = -ETIME then 0 else -1, ring)
  else
    let (activeEvents, count) := ring.foldl visit ([], 0)
    (activeEvents, count, ring.drop count)

/-- A call of `Poll`: the completions that arrive before it has gone through the ring, and what its
wait returns. -/
structure Call (δ : Type*) where
  arrivals : List (Cqe δ)
  ret : ℤ

/-- The calls of `Poll` so far. -/
structure Session (δ : Type*) where
  ring : List (Cqe δ) := []
  /-- The events pushed by all calls. -/
  reported : List (Event δ) := []
  /-- The completions that have arrived. -/
  arrived : List (Cqe δ) := []

/-- One more call. -/
def step (s : Session δ) (call : Call δ) : Session δ :=
  let (activeEvents, _, ring) := poll (s.ring ++ call.arrivals) call.ret
  { ring, reported := s.reported ++ activeEvents, arrived := s.arrived ++ call.arrivals }

/-- The events that some completions ought to be reported as. -/
def events (cqes : List (Cqe δ)) : List (Event δ) := (cqes.filter fun cqe => cqe.Reported).map Cqe.event

/-- **Completions are reported exactly once**: a call that gets to the completions leaves every one
that has arrived consumed, and those that are to be reported have each been reported once, in order.
-/
def ReportsOnce (s : Session δ) (call : Call δ) : Prop :=
  0 ≤ call.ret →
    (step s call).ring = [] ∧ (step s call).reported = events (s.arrived ++ call.arrivals)

/-- A call that gets to the completions finds that none has failed so far. -/
def NoneFailed (s : Session δ) (call : Call δ) : Prop :=
  0 ≤ call.ret → ∀ cqe ∈ s.arrived ++ call.arrivals, cqe.Reported

/-! ## One call -/

/-- The events of some completions and of more behind them. -/
theorem events_append (cqes cqes' : List (Cqe δ)) :
    events (cqes ++ cqes') = events cqes ++ events cqes' := by
  rw [events, List.filter_append, List.map_append]
  rfl

/-- The event of one completion stands in front, if it is reported. -/
theorem events_cons (cqe : Cqe δ) (cqes : List (Cqe δ)) :
    events (cqe :: cqes) = if cqe.Reported then cqe.event :: events cqes else events cqes := by
  rw [events, List.filter_cons]
  by_cases h : cqe.Reported
  · rw [if_pos (decide_eq_true h), if_pos h]
    rfl
  · rw [if_neg (fun ht => h (of_decide_eq_true ht)), if_neg h]
    rfl

/-- What the loop pushes and counts. -/
theorem foldl_visit (ring : List (Cqe δ)) (p : List (Event δ) × ℕ) :
    ring.foldl visit p = (p.1 ++ events ring, p.2 + (events ring).length) := by
  induction ring generalizing p with
  | nil => simp [events]
  | cons cqe ring ih =>
      rw [List.foldl_cons, ih, visit, events_cons]
      split
      · rw [List.append_assoc, List.length_cons, Nat.add_assoc, Nat.add_comm 1]
        rfl
      · rfl

/-- A wait that fails takes nothing. -/
theorem step_failed (s : Session δ) {call : Call δ} (h : call.ret < 0) :
    step s call
      = { s with ring := s.ring ++ call.arrivals, arrived := s.arrived ++ call.arrivals } := by
  simp only [step, poll, if_pos h, List.append_nil]

/-- **What a call does that gets to the completions**: the ring loses as many as are reported. -/
theorem step_processed (s : Session δ) {call : Call δ} (h : 0 ≤ call.ret) :
    step s call =
      { ring := (s.ring ++ call.arrivals).drop (events (s.ring ++ call.arrivals)).length
        reported := s.reported ++ events (s.ring ++ call.arrivals)
        arrived := s.arrived ++ call.arrivals } := by
  simp only [step, poll, if_neg (not_lt.mpr h), foldl_visit, List.nil_append, Nat.zero_add]

/-- As many completions are reported as there are exactly if none has failed. -/
theorem length_le_events_iff (cqes : List (Cqe δ)) :
    cqes.length ≤ (events cqes).length ↔ ∀ cqe ∈ cqes, cqe.Reported := by
  rw [events, List.length_map]
  constructor
  · intro h cqe hcqe
    have hall := List.length_filter_eq_length_iff.mp (le_antisymm (List.length_filter_le _ _) h)
    exact of_decide_eq_true (hall cqe hcqe)
  · intro h
    rw [List.filter_eq_self.mpr fun cqe hcqe => decide_eq_true (h cqe hcqe)]

/-! ## Runs -/

/-- What holds while every call so far has been exact: an event for each completion that has arrived
is pushed or to come, and what has failed is still in the ring. -/
structure Exact (s : Session δ) : Prop where
  reported : s.reported ++ events s.ring = events s.arrived
  subset : ∀ cqe ∈ s.ring, cqe ∈ s.arrived
  pending : ∀ cqe ∈ s.arrived, cqe ∈ s.ring ∨ cqe.Reported

/-- Nothing has arrived at the start, and nothing is reported. -/
theorem exact_init : Exact ({} : Session δ) where
  reported := rfl
  subset := fun _ h => h
  pending := fun _ h => absurd h List.not_mem_nil

/-- **A call of an exact session is exact if and only if nothing has failed.** -/
theorem reportsOnce_iff_noneFailed {s : Session δ} (hs : Exact s) (call : Call δ) :
    ReportsOnce s call ↔ NoneFailed s call := by
  apply forall_congr'
  intro h
  -- the events are right in any case; the question is what the ring is left with
  have hevents :
      s.reported ++ events (s.ring ++ call.arrivals) = events (s.arrived ++ call.arrivals) := by
    rw [events_append, events_append, ← List.append_assoc, hs.reported]
  rw [step_processed s h, and_iff_left hevents, List.drop_eq_nil_iff, length_le_events_iff]
  constructor
  · intro hall cqe hcqe
    rcases List.mem_append.mp hcqe with hold | hnew
    · rcases hs.pending cqe hold with hring | hreported
      · exact hall cqe (List.mem_append_left _ hring)
      · exact hreported
    · exact hall cqe (List.mem_append_right _ hnew)
  · intro hall cqe hcqe
    rcases List.mem_append.mp hcqe with hring | hnew
    · exact hall cqe (List.mem_append_left _ (hs.subset cqe hring))
    · exact hall cqe (List.mem_append_right _ hnew)

/-- An exact call leaves an exact session. -/
theorem exact_step {s : Session δ} (hs : Exact s) {call : Call δ} (h : ReportsOnce s call) :
    Exact (step s call) := by
  -- A call that fails leaves what has arrived in the ring; the others report all of it.
  rcases lt_or_ge call.ret 0 with hret | hret
  · rw [step_failed s hret]
    refine ⟨?_, ?_, ?_⟩
    · simp only [events_append, ← List.append_assoc, hs.reported]
    · intro cqe hcqe
      rw [List.mem_append] at hcqe ⊢
      exact hcqe.imp_left (hs.subset cqe)
    · intro cqe hcqe
      rw [List.mem_append] at hcqe ⊢
      rcases hcqe with hold | hnew
      · exact (hs.pending cqe hold).imp_left .inl
      · exact .inl (.inr hnew)
  · have hnone := (reportsOnce_iff_noneFailed hs call).mp h hret
    obtain ⟨hring, hreported⟩ := h hret
    have harrived : (step s call).arrived = s.arrived ++ call.arrivals := by
      rw [step_processed s hret]
    refine ⟨?_, ?_, ?_⟩
    · rw [hring, hreported, harrived]
      exact List.append_nil _
    · intro cqe hcqe
      rw [hring] at hcqe
      exact absurd hcqe List.not_mem_nil
    · intro cqe hcqe
      rw [harrived] at hcqe
      exact .inr (hnone cqe hcqe)

/-- **Over a whole run of calls every completion is reported exactly once if and only if no call
that gets to the completions finds that one has failed.** -/
theorem reportsOnce_iff (calls : List (Call δ)) :
    Trace.Always step ReportsOnce {} calls ↔ Trace.Always step NoneFailed {} calls :=
  Trace.always_congr (fun _ call hs => reportsOnce_iff_noneFailed hs call)
    (fun _ _ hs h => exact_step hs h) exact_init

/-- A poll that has been cancelled, and one that has become readable: the second is reported, the
first is taken off the ring for it, and so the next call reports the second once more. -/
theorem failed_completion_reports_twice :
    ¬ Trace.Always step ReportsOnce ({} : Session String)
        [⟨[⟨-125, "a"⟩, ⟨1, "b"⟩], 0⟩, ⟨[], 0⟩] ∧
      (Trace.run step ({} : Session String)
        [⟨[⟨-125, "a"⟩, ⟨1, "b"⟩], 0⟩, ⟨[], 0⟩]).reported = [⟨1, "b"⟩, ⟨1, "b"⟩] := by
  refine ⟨?_, by decide⟩
  rintro ⟨h, -⟩
  exact absurd (h (by decide)).1 (by decide)

end NetworkLib.IoUringPoller
