import NetworkLib.Theory.Trace

/-! # The circuit breaker

`CircuitBreaker`, called by any number of threads. Each step is one load of `state_` outside the
mutex or one section under it; the clock goes on between the steps. A step that a thread cannot take
now changes nothing.

`AllowRequest` and `OnSuccess` test `state_` before they take the mutex and do not look again, so
the section may act on a state that has changed since. `Overtakes` says which schedules do harm:
`OnFailure` opens the breaker between the load and the lock of a thread in `OnSuccess`, or
`OnSuccess` closes it between the load and the lock of one in `AllowRequest`. Without that what a
thread has found stays true enough until it has the lock (`Fresh`), and every change of state is
legal; with it a thread may change the state illegally as soon as it goes on
(`legal_of_not_overtaken`). A single thread overtakes nobody (`legal_of_subsingleton`). -/

namespace NetworkLib.CircuitBreaker

/-- `CircuitBreaker::State`. -/
inductive State where
  | kClosed
  | kOpen
  | kHalfOpen
  deriving DecidableEq, Repr

/-- What the breaker is constructed with. -/
structure Config where
  /-- `failure_threshold_`. -/
  failureThreshold : ℤ
  /-- `reset_timeout_`, in seconds. -/
  resetTimeout : ℤ

/-- Where a thread is. -/
inductive Thread where
  | idle
  /-- In `AllowRequest`, having found the breaker open, and to take the lock. -/
  | allowRequest
  /-- In `OnSuccess`, having found the breaker half open, and to take the lock. -/
  | onSuccess
  deriving DecidableEq, Repr

/-- What the threads share, where each of them is, and the clock, in nanoseconds. -/
structure Breaker (ι : Type*) where
  /-- `state_`. -/
  state : State := .kClosed
  /-- `failure_count_`. -/
  failureCount : ℤ := 0
  /-- `last_failure_time_`. -/
  lastFailureTime : ℤ := 0
  clock : ℤ := 0
  threads : ι → Thread := fun _ => .idle
  /-- What `AllowRequest` has returned so far, and to which thread. -/
  allowed : List (ι × Bool) := []

/-- One step. -/
inductive Event (ι : Type*) where
  /-- Time passes. -/
  | tick (elapsed : ℕ)
  /-- A thread calls `AllowRequest`, and loads `state_`. -/
  | allowRequest (thread : ι)
  /-- The section of `AllowRequest`. -/
  | allowLocked (thread : ι)
  /-- A thread calls `OnSuccess`, and loads `state_`. -/
  | onSuccess (thread : ι)
  /-- The section of `OnSuccess`. -/
  | successLocked (thread : ι)
  /-- A thread calls `OnFailure`, all of which is one section. -/
  | onFailure (thread : ι)

variable {ι : Type*} [DecidableEq ι]

namespace Breaker

/-- A thread goes on. -/
def goes (b : Breaker ι) (thread : ι) (at' : Thread) : Breaker ι :=
  { b with threads := Function.update b.threads thread at' }

/-- `AllowRequest` returns. -/
def returns (b : Breaker ι) (thread : ι) (allowed : Bool) : Breaker ι :=
  { b.goes thread .idle with allowed := b.allowed ++ [(thread, allowed)] }

/-- The breaker was last told of a failure longer ago than the timeout. -/
def TimedOut (c : Config) (b : Breaker ι) : Prop :=
  c.resetTimeout * 10 ^ 9 < b.clock - b.lastFailureTime

instance (c : Config) (b : Breaker ι) : Decidable (b.TimedOut c) :=
  inferInstanceAs (Decidable (_ < _))

/-- `AllowRequest` up to the lock. -/
def allowRequest (b : Breaker ι) (thread : ι) : Breaker ι :=
  match b.state with
  | .kClosed => b.returns thread true
  | .kOpen => b.goes thread .allowRequest
  | .kHalfOpen => b.returns thread true

/-- `AllowRequest` under the lock. -/
def allowLocked (c : Config) (b : Breaker ι) (thread : ι) : Breaker ι :=
  if b.TimedOut c then { b with state := .kHalfOpen }.returns thread true
  else b.returns thread false

/-- `OnSuccess` up to the lock. -/
def onSuccess (b : Breaker ι) (thread : ι) : Breaker ι :=
  if b.state = .kHalfOpen then b.goes thread .onSuccess else b

/-- `OnSuccess` under the lock. -/
def successLocked (b : Breaker ι) (thread : ι) : Breaker ι :=
  { b with state := .kClosed, failureCount := 0 }.goes thread .idle

/-- `OnFailure`. The counter is an `int`, which an atomic increment takes round. -/
def onFailure (c : Config) (b : Breaker ι) : Breaker ι :=
  let b := { b with
    failureCount := Int.bmod (b.failureCount + 1) (2 ^ 32), lastFailureTime := b.clock }
  if b.state = .kHalfOpen then { b with state := .kOpen }
  else if c.failureThreshold ≤ b.failureCount then { b with state := .kOpen }
  else b

/-- The effect of a step. -/
def step (c : Config) (b : Breaker ι) : Event ι → Breaker ι
  | .tick elapsed => { b with clock := b.clock + elapsed }
  | .allowRequest i => if b.threads i = .idle then b.allowRequest i else b
  | .allowLocked i => if b.threads i = .allowRequest then b.allowLocked c i else b
  | .onSuccess i => if b.threads i = .idle then b.onSuccess i else b
  | .successLocked i => if b.threads i = .onSuccess then b.successLocked i else b
  | .onFailure i => if b.threads i = .idle then b.onFailure c else b

end Breaker

/-- The legal changes of state. -/
inductive Legal : State → State → Prop where
  | trip : Legal .kClosed .kOpen
  | probe : Legal .kOpen .kHalfOpen
  | recover : Legal .kHalfOpen .kClosed
  | fail : Legal .kHalfOpen .kOpen

namespace Breaker

/-- A step leaves the state as it is, or changes it legally. -/
def StepsLegally (c : Config) (b : Breaker ι) (e : Event ι) : Prop :=
  (b.step c e).state ≠ b.state → Legal b.state (b.step c e).state

/-- The step is a section that acts on a state which is no longer that which its call has found: a
section of `AllowRequest` past the timeout while the breaker is closed, or a section of `OnSuccess`
while the breaker is open. -/
def ActsStale (c : Config) (b : Breaker ι) : Event ι → Prop
  | .allowLocked i => b.threads i = .allowRequest ∧ b.state = .kClosed ∧ b.TimedOut c
  | .successLocked i => b.threads i = .onSuccess ∧ b.state = .kOpen
  | _ => False

/-- `OnFailure` opens the breaker now. -/
def Opens (c : Config) (b : Breaker ι) : Prop :=
  b.state = .kHalfOpen ∨ c.failureThreshold ≤ Int.bmod (b.failureCount + 1) (2 ^ 32)

/-- The step changes the state under a thread that stands between its load and its lock: `OnFailure`
opens the breaker while a thread that has found it half open has yet to take the lock, or
`OnSuccess` closes it while a thread that has found it open has. -/
def Overtakes (c : Config) (b : Breaker ι) : Event ι → Prop
  | .onFailure i => b.threads i = .idle ∧ b.Opens c ∧ ∃ j, b.threads j = .onSuccess
  | .successLocked i => b.threads i = .onSuccess ∧ ∃ j, b.threads j = .allowRequest
  | _ => False

/-! ## One step -/

variable {c : Config} {b : Breaker ι}

@[simp] theorem goes_state (thread : ι) (at' : Thread) : (b.goes thread at').state = b.state := rfl

@[simp] theorem successLocked_state (thread : ι) : (b.successLocked thread).state = .kClosed := rfl

@[simp] theorem returns_state (thread : ι) (allowed : Bool) :
    (b.returns thread allowed).state = b.state := rfl

theorem goes_threads (i : ι) (at' : Thread) :
    (b.goes i at').threads = Function.update b.threads i at' := rfl

/-- The thread is where it goes. -/
theorem goes_threads_self (b : Breaker ι) (i : ι) (at' : Thread) :
    (b.goes i at').threads i = at' := by
  rw [goes_threads, Function.update_self]

/-- Every other thread is where it was. -/
theorem goes_threads_of_ne {i j : ι} (h : j ≠ i) (b : Breaker ι) (at' : Thread) :
    (b.goes i at').threads j = b.threads j := by
  rw [goes_threads, Function.update_of_ne h]

/-- A call of `AllowRequest` only reads the state. -/
theorem allowRequest_state (thread : ι) : (b.allowRequest thread).state = b.state := by
  rw [allowRequest]
  split <;> rfl

/-- So does a call of `OnSuccess` up to the lock. -/
theorem onSuccess_state (thread : ι) : (b.onSuccess thread).state = b.state := by
  rw [onSuccess]
  split <;> rfl

omit [DecidableEq ι] in
/-- `OnFailure` sends no thread anywhere. -/
@[simp] theorem onFailure_threads (c : Config) (b : Breaker ι) :
    (b.onFailure c).threads = b.threads := by
  simp only [onFailure]
  split
  · rfl
  · split <;> rfl

omit [DecidableEq ι] in
/-- The breaker is open after an `OnFailure` that opens it. -/
theorem onFailure_state_of_opens (h : b.Opens c) : (b.onFailure c).state = .kOpen := by
  simp only [onFailure]
  split
  · rfl
  · next hhalf => rw [if_pos (h.resolve_left hhalf)]

omit [DecidableEq ι] in
/-- Any other `OnFailure` leaves the state as it is. -/
theorem onFailure_state_of_not_opens (h : ¬ b.Opens c) : (b.onFailure c).state = b.state := by
  obtain ⟨hhalf, hthreshold⟩ := not_or.mp h
  simp only [onFailure, if_neg hhalf, if_neg hthreshold]

omit [DecidableEq ι] in
/-- `OnFailure` opens the breaker, or leaves it as it is. -/
theorem onFailure_state (c : Config) (b : Breaker ι) :
    (b.onFailure c).state = .kOpen ∨ (b.onFailure c).state = b.state := by
  by_cases h : b.Opens c
  · exact .inl (onFailure_state_of_opens h)
  · exact .inr (onFailure_state_of_not_opens h)

/-- A breaker may be opened from everywhere. -/
theorem legal_kOpen {s : State} (h : State.kOpen ≠ s) : Legal s .kOpen := by
  cases s with
  | kClosed => exact .trip
  | kOpen => exact absurd rfl h
  | kHalfOpen => exact .fail

/-- The section of `AllowRequest` is not legal past the timeout while the breaker is closed. -/
theorem allowLocked_legally_iff {i : ι} (hi : b.threads i = .allowRequest) :
    b.StepsLegally c (.allowLocked i) ↔ ¬ b.ActsStale c (.allowLocked i) := by
  rw [StepsLegally, step, ActsStale, if_pos hi, allowLocked]
  by_cases htime : b.TimedOut c
  · rw [if_pos htime, returns_state]
    cases hs : b.state with
    | kClosed =>
        -- there is no change from closed to half open
        refine iff_of_false (fun h => ?_) (fun h => h ⟨hi, rfl, htime⟩)
        cases h (fun hne => by cases hne)
    | kOpen => exact iff_of_true (fun _ => .probe) (by rintro ⟨-, h, -⟩; cases h)
    | kHalfOpen => exact iff_of_true (fun h => absurd rfl h) (by rintro ⟨-, h, -⟩; cases h)
  · rw [if_neg htime, returns_state]
    exact iff_of_true (fun h => absurd rfl h) (fun h => htime h.2.2)

/-- The section of `OnSuccess` is not legal while the breaker is open. -/
theorem successLocked_legally_iff {i : ι} (hi : b.threads i = .onSuccess) :
    b.StepsLegally c (.successLocked i) ↔ ¬ b.ActsStale c (.successLocked i) := by
  rw [StepsLegally, step, ActsStale, if_pos hi, successLocked, goes_state]
  cases hs : b.state with
  | kClosed => exact iff_of_true (fun h => absurd rfl h) (by rintro ⟨-, h⟩; cases h)
  | kOpen =>
      -- nor one from open to closed
      refine iff_of_false (fun h => ?_) (fun h => h ⟨hi, rfl⟩)
      cases h (fun hne => by cases hne)
  | kHalfOpen => exact iff_of_true (fun _ => .recover) (by rintro ⟨-, h⟩; cases h)

/-- A step that leaves the state as it is. -/
theorem stepsLegally_of_state {e : Event ι} (h : (b.step c e).state = b.state) : b.StepsLegally c e :=
  fun hne => absurd h hne

/-- **A step changes the state legally exactly when it does not act on a stale one.** -/
theorem stepsLegally_iff (c : Config) (b : Breaker ι) (e : Event ι) :
    b.StepsLegally c e ↔ ¬ b.ActsStale c e := by
  -- Only the sections under the lock change the state.
  cases e with
  | tick elapsed => exact iff_of_true (stepsLegally_of_state rfl) id
  | allowRequest i =>
      refine iff_of_true (stepsLegally_of_state ?_) id
      rw [step]
      split
      · exact allowRequest_state i
      · rfl
  | allowLocked i =>
      by_cases hi : b.threads i = .allowRequest
      · exact allowLocked_legally_iff hi
      · refine iff_of_true (stepsLegally_of_state ?_) fun h => hi h.1
        rw [step, if_neg hi]
  | onSuccess i =>
      refine iff_of_true (stepsLegally_of_state ?_) id
      rw [step]
      split
      · exact onSuccess_state i
      · rfl
  | successLocked i =>
      by_cases hi : b.threads i = .onSuccess
      · exact successLocked_legally_iff hi
      · refine iff_of_true (stepsLegally_of_state ?_) fun h => hi h.1
        rw [step, if_neg hi]
  | onFailure i =>
      -- a failure opens the breaker or leaves it as it is, and both are legal
      refine iff_of_true ?_ id
      intro h
      rw [step] at h ⊢
      split at h
      · next hi =>
          rw [if_pos hi]
          rcases onFailure_state c b with hopen | hsame
          · rw [hopen] at h ⊢
            exact legal_kOpen h
          · exact absurd hsame h
      · exact absurd rfl h

/-! ## Nobody is overtaken -/

/-- What a thread has found cannot do harm any more: the breaker is not closed while a thread that
has found it open is to take the lock, nor open while one that has found it half open is. -/
def Fresh (b : Breaker ι) : Prop :=
  ∀ i, (b.threads i = .allowRequest → b.state ≠ .kClosed) ∧
    (b.threads i = .onSuccess → b.state ≠ .kOpen)

omit [DecidableEq ι] in
/-- While every thread is idle there is nothing to be stale. -/
theorem fresh_of_idle (h : ∀ i, b.threads i = .idle) : b.Fresh := by
  intro i
  constructor
  · intro hi
    rw [h i] at hi
    cases hi
  · intro hi
    rw [h i] at hi
    cases hi

omit [DecidableEq ι] in
/-- A half-open breaker does no harm to what any thread has found. -/
theorem fresh_of_kHalfOpen (h : b.state = .kHalfOpen) : b.Fresh := by
  intro i
  rw [h]
  exact ⟨fun _ => by decide, fun _ => by decide⟩

/-- A thread that returns has found nothing that it could still use. -/
theorem Fresh.returns (h : b.Fresh) (i : ι) (allowed : Bool) : (b.returns i allowed).Fresh := by
  intro j
  rw [returns_state]
  by_cases hji : j = i
  · subst hji
    have hidle : (b.returns j allowed).threads j = .idle := goes_threads_self b j .idle
    rw [hidle]
    exact ⟨fun hj => (by cases hj), fun hj => (by cases hj)⟩
  · have hsame : (b.returns i allowed).threads j = b.threads j := goes_threads_of_ne hji b .idle
    rw [hsame]
    exact h j

/-- A call of `AllowRequest` up to the lock keeps what the others have found, and the thread that
goes on to the lock has just found the breaker open. -/
theorem Fresh.allowRequest (h : b.Fresh) (i : ι) : (b.allowRequest i).Fresh := by
  rw [Breaker.allowRequest]
  split
  · exact h.returns i true
  · next hopen =>
      intro j
      rw [goes_state]
      by_cases hji : j = i
      · subst hji
        rw [goes_threads_self, hopen]
        exact ⟨fun _ => by decide, fun hj => (by cases hj)⟩
      · rw [goes_threads_of_ne hji]
        exact h j
  · exact h.returns i true

/-- **A step that overtakes nobody leaves nothing stale.** -/
theorem Fresh.step (h : b.Fresh) {e : Event ι} (he : ¬ b.Overtakes c e) : (b.step c e).Fresh := by
  cases e with
  | tick elapsed => exact h
  | allowRequest i =>
      rw [Breaker.step]
      split
      · exact h.allowRequest i
      · exact h
  | allowLocked i =>
      rw [Breaker.step]
      split
      · rw [Breaker.allowLocked]
        split
        · exact (fresh_of_kHalfOpen (b := { b with state := .kHalfOpen }) rfl).returns i true
        · exact h.returns i false
      · exact h
  | onSuccess i =>
      rw [Breaker.step]
      split
      · rw [Breaker.onSuccess]
        split
        · next hhalf => exact fresh_of_kHalfOpen (by rw [goes_state]; exact hhalf)
        · exact h
      · exact h
  | successLocked i =>
      rw [Breaker.step]
      split
      · next hi =>
          intro j
          rw [successLocked_state]
          refine ⟨fun hj => ?_, fun _ => by decide⟩
          -- the one that has found the breaker open would be overtaken
          have hji : j ≠ i := by
            rintro rfl
            rw [successLocked, goes_threads_self] at hj
            cases hj
          rw [successLocked, goes_threads_of_ne hji] at hj
          exact absurd ⟨hi, j, hj⟩ he
      · exact h
  | onFailure i =>
      rw [Breaker.step]
      split
      · next hi =>
          intro j
          rw [onFailure_threads]
          by_cases hopens : b.Opens c
          · rw [onFailure_state_of_opens hopens]
            exact ⟨fun _ => by decide, fun hj => absurd ⟨hi, hopens, j, hj⟩ he⟩
          · rw [onFailure_state_of_not_opens hopens]
            exact h j
      · exact h

/-- While nothing is stale the next step is legal, whichever it is. -/
theorem Fresh.stepsLegally (h : b.Fresh) (c : Config) (e : Event ι) : b.StepsLegally c e := by
  rw [stepsLegally_iff]
  intro hstale
  cases e with
  | allowLocked i => exact (h i).1 hstale.1 hstale.2.1
  | successLocked i => exact (h i).2 hstale.1 hstale.2
  | _ => exact hstale

/-- A thread that has been overtaken changes the state illegally when it goes on late enough. -/
theorem exists_not_legal_of_overtakes {e : Event ι} (h : b.Overtakes c e) :
    ∃ elapsed next, ¬ ((b.step c e).step c (.tick elapsed)).StepsLegally c next := by
  cases e with
  | onFailure i =>
      obtain ⟨hi, hopens, j, hj⟩ := h
      refine ⟨0, .successLocked j, fun hlegal => ?_⟩
      rw [stepsLegally_iff] at hlegal
      refine hlegal ⟨?_, ?_⟩
      · rw [Breaker.step, Breaker.step, if_pos hi, onFailure_threads]
        exact hj
      · rw [Breaker.step, Breaker.step, if_pos hi]
        exact onFailure_state_of_opens hopens
  | successLocked i =>
      obtain ⟨hi, j, hj⟩ := h
      have hji : j ≠ i := by
        rintro rfl
        rw [hi] at hj
        cases hj
      -- long enough for the timeout to pass
      refine ⟨(c.resetTimeout * 10 ^ 9 + 1 - (b.clock - b.lastFailureTime)).toNat, .allowLocked j,
        fun hlegal => ?_⟩
      rw [stepsLegally_iff] at hlegal
      refine hlegal ⟨?_, ?_, ?_⟩
      · rw [Breaker.step, Breaker.step, if_pos hi]
        exact (goes_threads_of_ne hji _ .idle).trans hj
      · rw [Breaker.step, Breaker.step, if_pos hi]
        rfl
      · rw [Breaker.step, Breaker.step, if_pos hi, TimedOut]
        have := Int.self_le_toNat (c.resetTimeout * 10 ^ 9 + 1 - (b.clock - b.lastFailureTime))
        simp only [successLocked, Breaker.goes]
        omega
  | _ => exact h.elim

/-! ## Runs -/

/-- **From a state with nothing stale, nobody is overtaken along a run exactly when nowhere along it
a thread could change the state illegally, however long it waits.** -/
theorem Fresh.not_overtaken_iff (h : b.Fresh) (es : List (Event ι)) :
    Trace.Always (Breaker.step c) (fun b e => ¬ b.Overtakes c e) b es ↔
      ∀ es₁, es₁ <+: es → ∀ elapsed next,
        ((Trace.run (Breaker.step c) b es₁).step c (.tick elapsed)).StepsLegally c next := by
  induction es generalizing b with
  | nil =>
      refine iff_of_true trivial fun es₁ hes₁ elapsed next => ?_
      rw [List.prefix_nil.mp hes₁]
      exact (h.step (e := .tick elapsed) id).stepsLegally c next
  | cons e es ih =>
      rw [Trace.always_cons]
      constructor
      · rintro ⟨he, hes⟩ es₁ hes₁ elapsed next
        cases es₁ with
        | nil => exact (h.step (e := .tick elapsed) id).stepsLegally c next
        | cons e' es₁ =>
            obtain ⟨rfl, hfirst⟩ := List.cons_prefix_cons.mp hes₁
            exact (ih (h.step he)).mp hes es₁ hfirst elapsed next
      · intro hlegal
        have he : ¬ b.Overtakes c e := by
          intro hover
          obtain ⟨elapsed, next, hnext⟩ := exists_not_legal_of_overtakes hover
          exact hnext (hlegal [e] (List.cons_prefix_cons.mpr ⟨rfl, List.nil_prefix⟩) elapsed next)
        refine ⟨he, (ih (h.step he)).mpr fun es₁ hes₁ => ?_⟩
        exact hlegal (e :: es₁) (List.cons_prefix_cons.mpr ⟨rfl, hes₁⟩)

/-- **While nobody is overtaken every change of state is legal.** -/
theorem always_stepsLegally (c : Config) (clock : ℤ) {es : List (Event ι)}
    (hes : Trace.Always (step c) (fun b e => ¬ b.Overtakes c e) { clock } es) :
    Trace.Always (step c) (StepsLegally c) { clock } es :=
  Trace.always_of_invariant (fun _ e hb _ => Fresh.stepsLegally hb c e)
    (fun _ _ hb he => Fresh.step hb he) (fresh_of_idle fun _ => rfl) hes

/-- **The state of the breaker changes legally along every run in which nobody is overtaken between
its load and its lock**; and a schedule overtakes somebody exactly when at some point of it a
thread, after some time, could change the state illegally. -/
theorem legal_of_not_overtaken (c : Config) (clock : ℤ) (es : List (Event ι)) :
    (Trace.Always (step c) (fun b e => ¬ b.Overtakes c e) { clock } es →
      Trace.Always (step c) (StepsLegally c) { clock } es) ∧
    (Trace.Always (step c) (fun b e => ¬ b.Overtakes c e) { clock } es ↔
      ∀ es₁, es₁ <+: es → ∀ elapsed next,
        ((Trace.run (step c) { clock } es₁).step c (.tick elapsed)).StepsLegally c next) :=
  ⟨always_stepsLegally c clock, Fresh.not_overtaken_iff (fresh_of_idle fun _ => rfl) es⟩

/-- Two threads probe an open breaker at once, one after the other makes it half open and closes it.
-/
theorem legal_of_not_overtaken_probes :
    Trace.Always (step { failureThreshold := 1, resetTimeout := 0 })
      (StepsLegally { failureThreshold := 1, resetTimeout := 0 }) ({ clock := 1 } : Breaker Bool)
      [.onFailure true, .tick 1, .allowRequest true, .allowRequest false, .allowLocked true,
        .allowLocked false, .onSuccess false, .onSuccess true, .successLocked true,
        .successLocked false] := by
  refine (legal_of_not_overtaken _ 1 _).1 ?_
  simp [Overtakes, step, Opens, onFailure, allowRequest, allowLocked, TimedOut, onSuccess,
    successLocked, returns, goes]

/-- A thread opens the breaker again while another one is in `OnSuccess`, which then closes it; and
one that is in `AllowRequest` makes a breaker half open that another one has closed. -/
theorem illegal_changes :
    ¬ Trace.Always (step { failureThreshold := 1, resetTimeout := 0 })
        (StepsLegally { failureThreshold := 1, resetTimeout := 0 }) ({ clock := 1 } : Breaker Bool)
        [.onFailure true, .tick 1, .allowRequest true, .allowLocked true, .onSuccess true,
          .onFailure false, .successLocked true] ∧
      ¬ Trace.Always (step { failureThreshold := 1, resetTimeout := 0 })
        (StepsLegally { failureThreshold := 1, resetTimeout := 0 }) ({ clock := 1 } : Breaker Bool)
        [.onFailure true, .tick 1, .allowRequest true, .allowRequest false, .allowLocked true,
          .onSuccess true, .successLocked true, .allowLocked false] := by
  constructor
  · rintro ⟨-, -, -, -, -, -, h, -⟩
    exact absurd (h (by decide)) (by rintro ⟨⟩)
  · rintro ⟨-, -, -, -, -, -, -, h, -⟩
    exact absurd (h (by decide)) (by rintro ⟨⟩)

/-! ## One thread -/

omit [DecidableEq ι] in
/-- A single thread overtakes nobody: it is the only one that could be on its way to the lock. -/
theorem not_overtakes_of_subsingleton [Subsingleton ι] (b : Breaker ι) (e : Event ι) :
    ¬ b.Overtakes c e := by
  intro h
  cases e with
  | onFailure i =>
      obtain ⟨hi, -, j, hj⟩ := h
      rw [Subsingleton.elim j i, hi] at hj
      cases hj
  | successLocked i =>
      obtain ⟨hi, j, hj⟩ := h
      rw [Subsingleton.elim j i, hi] at hj
      cases hj
  | _ => exact h

/-- **A single thread changes the state legally in every run.** -/
theorem legal_of_subsingleton [Subsingleton ι] (c : Config) (clock : ℤ) (es : List (Event ι)) :
    Trace.Always (step c) (StepsLegally c) { clock } es :=
  always_stepsLegally c clock
    (Trace.always_of_forall fun b e _ => not_overtakes_of_subsingleton b e)

end Breaker

end NetworkLib.CircuitBreaker
