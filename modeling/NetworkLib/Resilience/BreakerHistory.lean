import NetworkLib.Resilience.CircuitBreaker
import NetworkLib.Theory.Keyed

/-! # The refusals of the circuit breaker

One thread makes the calls, each of which is gone through to its end before the next. What
`AllowRequest` answers is then a matter of the calls before it and their answers: it refuses exactly
while the failures since the last **closing success** have reached the threshold and the latest
failure is not longer ago than the timeout (`refused_iff`). The invariant behind it (`Tells`) says
what state, counter and time of the last failure the history calls for. -/

namespace NetworkLib.CircuitBreaker

/-- A call. -/
inductive Call where
  | allowRequest
  | onSuccess
  | onFailure
  deriving DecidableEq, Repr

/-- The steps of a call. -/
def Call.events : Call → List (Event Unit)
  | .allowRequest => [.allowRequest (), .allowLocked ()]
  | .onSuccess => [.onSuccess (), .successLocked ()]
  | .onFailure => [.onFailure ()]

namespace Breaker

/-- A call at a time, gone through to its end, and what `AllowRequest` returns. -/
def perform (c : Config) (b : Breaker Unit) (call : ℤ × Call) : Breaker Unit × Option Bool :=
  let b' := Trace.run (step c) b (.tick (call.1 - b.clock).toNat :: call.2.events)
  (b', if call.2 = .allowRequest then b'.allowed.getLast?.map Prod.snd else none)

end Breaker

/-! ## The history of the calls -/

/-- A call with its time, and what `AllowRequest` has returned. A **history** lists the calls so
far, the latest first. -/
abbrev Entry := (ℤ × Call) × Option Bool

/-- The entry is a call of `OnFailure`. -/
def Entry.IsFailure (e : Entry) : Prop := e.1.2 = .onFailure

instance (e : Entry) : Decidable e.IsFailure := inferInstanceAs (Decidable (_ = _))

/-- The number of failures in a history. -/
def failures (h : List Entry) : ℕ := h.countP fun e => e.IsFailure

/-- The time of the latest failure. -/
def latestFailure (h : List Entry) : Option ℤ := (h.find? fun e => e.IsFailure).map fun e => e.1.1

/-- The calls after the latest failure. -/
def sinceFailure (h : List Entry) : List Entry := h.takeWhile fun e => !decide e.IsFailure

/-- After the latest failure, and longer after it than the timeout, `AllowRequest` has admitted a
request. -/
def Probed (c : Config) (h : List Entry) : Prop :=
  ∃ t ∈ latestFailure h, ∃ e ∈ sinceFailure h,
    e.1.2 = .allowRequest ∧ e.2 = some true ∧ c.resetTimeout * 10 ^ 9 < e.1.1 - t

/-- A success closes the breaker after this history since the last one that did. -/
def Closes (c : Config) (h : List Entry) : Prop := c.failureThreshold ≤ failures h ∧ Probed c h

open Classical in
/-- The calls since the last **closing success**. -/
noncomputable def sinceClosing (c : Config) : List Entry → List Entry
  | [] => []
  | e :: h =>
      if e.1.2 = .onSuccess ∧ Closes c (sinceClosing c h) then [] else e :: sinceClosing c h

/-- The calls of a run as a history. -/
def history (c : Config) (clock : ℤ) (calls : List (ℤ × Call)) : List Entry :=
  (Keyed.transcript (Breaker.perform c) { clock } calls).reverse

/-- The breaker after the calls of a run. -/
def after (c : Config) (clock : ℤ) (calls : List (ℤ × Call)) : Breaker Unit :=
  Trace.run (fun b call => (b.perform c call).1) { clock } calls

variable {c : Config} {b : Breaker Unit} {h : List Entry} {t : ℤ}

/-! ## What a call does -/

namespace Breaker

/-- Time passes up to the call, and then the call goes its way. -/
theorem perform_eq (hclock : b.clock ≤ t) (call : Call) :
    b.perform c (t, call) =
      (Trace.run (step c) { b with clock := t } call.events,
        if call = .allowRequest then
          (Trace.run (step c) { b with clock := t } call.events).allowed.getLast?.map Prod.snd
        else none) := by
  have htick : step c b (.tick (t - b.clock).toNat) = { b with clock := t } := by
    have hsum : b.clock + ((t - b.clock).toNat : ℤ) = t := by omega
    rw [step, hsum]
  rw [perform, Trace.run_cons, htick]

/-- What a call returns, and that the thread is out of it. -/
theorem returns_spec (b : Breaker Unit) (allowed : Bool) :
    (b.returns () allowed).threads () = .idle ∧
      (b.returns () allowed).allowed.getLast?.map Prod.snd = some allowed := by
  refine ⟨goes_threads_self b () .idle, ?_⟩
  rw [returns, List.getLast?_concat]
  rfl

/-- `AllowRequest` of a breaker that is not open. -/
theorem run_allowRequest (hidle : b.threads () = .idle) (hstate : b.state ≠ .kOpen) :
    Trace.run (step c) b Call.allowRequest.events = b.returns () true := by
  have hfirst : step c b (.allowRequest ()) = b.returns () true := by
    rw [step, if_pos hidle, allowRequest]
    split
    · rfl
    · exact absurd (by assumption) hstate
    · rfl
  have hsecond : step c (b.returns () true) (.allowLocked ()) = b.returns () true := by
    rw [step, if_neg]
    rw [(returns_spec b true).1]
    decide
  rw [Call.events, Trace.run_cons, Trace.run_cons, Trace.run_nil, hfirst, hsecond]

/-- `AllowRequest` of an open breaker. -/
theorem run_allowRequest_open (hidle : b.threads () = .idle) (hstate : b.state = .kOpen) :
    Trace.run (step c) b Call.allowRequest.events =
      if b.TimedOut c then ({ b with state := .kHalfOpen } : Breaker Unit).returns () true
      else b.returns () false := by
  have hfirst : step c b (.allowRequest ()) = b.goes () .allowRequest := by
    rw [step, if_pos hidle, allowRequest, hstate]
  have hsecond : step c (b.goes () .allowRequest) (.allowLocked ())
      = (b.goes () .allowRequest).allowLocked c () := by
    rw [step, if_pos (goes_threads_self b () .allowRequest)]
  rw [Call.events, Trace.run_cons, Trace.run_cons, Trace.run_nil, hfirst, hsecond, allowLocked]
  by_cases htime : b.TimedOut c
  · rw [if_pos htime, if_pos (show (b.goes () .allowRequest).TimedOut c from htime), returns, returns]
    simp only [goes, Function.update_idem]
  · rw [if_neg htime, if_neg (show ¬ (b.goes () .allowRequest).TimedOut c from htime), returns, returns]
    simp only [goes, Function.update_idem]

/-- `OnSuccess`. -/
theorem run_onSuccess (hidle : b.threads () = .idle) :
    Trace.run (step c) b Call.onSuccess.events =
      if b.state = .kHalfOpen then b.successLocked () else b := by
  rw [Call.events, Trace.run_cons, Trace.run_cons, Trace.run_nil, step, if_pos hidle, onSuccess]
  by_cases hstate : b.state = .kHalfOpen
  · rw [if_pos hstate, if_pos hstate, step, if_pos (goes_threads_self b () .onSuccess), successLocked,
      successLocked]
    simp only [goes, Function.update_idem]
  · have hnone : ¬ b.threads () = .onSuccess := by
      rw [hidle]
      decide
    rw [if_neg hstate, if_neg hstate, step, if_neg hnone]

/-- `OnFailure`. -/
theorem run_onFailure (hidle : b.threads () = .idle) :
    Trace.run (step c) b Call.onFailure.events = b.onFailure c := by
  rw [Call.events, Trace.run_cons, Trace.run_nil, step, if_pos hidle]

/-- What `OnFailure` does. -/
theorem onFailure_spec (c : Config) (b : Breaker Unit) :
    (b.onFailure c).threads = b.threads ∧ (b.onFailure c).clock = b.clock ∧
      (b.onFailure c).lastFailureTime = b.clock ∧
      (b.onFailure c).failureCount = Int.bmod (b.failureCount + 1) (2 ^ 32) ∧
      (b.onFailure c).state =
        if b.state = .kHalfOpen ∨ c.failureThreshold ≤ Int.bmod (b.failureCount + 1) (2 ^ 32)
        then .kOpen else b.state := by
  simp only [onFailure]
  by_cases hhalf : b.state = .kHalfOpen
  · rw [if_pos hhalf, if_pos (.inl hhalf)]
    exact ⟨rfl, rfl, rfl, rfl, rfl⟩
  · by_cases hfull : c.failureThreshold ≤ Int.bmod (b.failureCount + 1) (2 ^ 32)
    · rw [if_neg hhalf, if_pos hfull, if_pos (.inr hfull)]
      exact ⟨rfl, rfl, rfl, rfl, rfl⟩
    · rw [if_neg hhalf, if_neg hfull, if_neg (not_or.mpr ⟨hhalf, hfull⟩)]
      exact ⟨rfl, rfl, rfl, rfl, rfl⟩

end Breaker

/-! ## Reading a history -/

variable {e : Entry}

/-- One more entry is a failure or not. -/
theorem failures_cons (e : Entry) (h : List Entry) :
    failures (e :: h) = failures h + if e.IsFailure then 1 else 0 := by
  rw [failures, List.countP_cons, ← failures]
  simp only [decide_eq_true_eq]

/-- The latest failure stays when the entry is none. -/
theorem latestFailure_cons_of_not (he : ¬ e.IsFailure) (h : List Entry) :
    latestFailure (e :: h) = latestFailure h := by
  rw [latestFailure, List.find?_cons_of_neg (by simpa using he), latestFailure]

/-- A failure is the latest. -/
theorem latestFailure_cons_of_isFailure (he : e.IsFailure) (h : List Entry) :
    latestFailure (e :: h) = some e.1.1 := by
  rw [latestFailure, List.find?_cons_of_pos (by simpa using he)]
  rfl

/-- What has happened since the latest failure grows. -/
theorem sinceFailure_cons_of_not (he : ¬ e.IsFailure) (h : List Entry) :
    sinceFailure (e :: h) = e :: sinceFailure h := by
  rw [sinceFailure, List.takeWhile_cons_of_pos (by simpa using he), sinceFailure]

/-- Since a failure nothing has happened. -/
theorem sinceFailure_cons_of_isFailure (he : e.IsFailure) (h : List Entry) :
    sinceFailure (e :: h) = [] := by
  rw [sinceFailure, List.takeWhile_cons_of_neg (by simpa using he)]

/-- A call that is no failure may be the one that has been admitted after the latest of them. -/
theorem probed_cons_of_not (he : ¬ e.IsFailure) (h : List Entry) :
    Probed c (e :: h) ↔ Probed c h ∨ ∃ t ∈ latestFailure h,
      e.1.2 = .allowRequest ∧ e.2 = some true ∧ c.resetTimeout * 10 ^ 9 < e.1.1 - t := by
  rw [Probed, Probed, latestFailure_cons_of_not he, sinceFailure_cons_of_not he]
  simp only [List.exists_mem_cons_iff]
  constructor
  · rintro ⟨t, ht, hnew | hold⟩
    · exact .inr ⟨t, ht, hnew⟩
    · exact .inl ⟨t, ht, hold⟩
  · rintro (⟨t, ht, hold⟩ | ⟨t, ht, hnew⟩)
    · exact ⟨t, ht, .inr hold⟩
    · exact ⟨t, ht, .inl hnew⟩

/-- A history closes the breaker that was probed before, or is by this entry. -/
theorem closes_cons_of_not (he : ¬ e.IsFailure) (h : List Entry) :
    Closes c (e :: h) ↔ c.failureThreshold ≤ failures h ∧ (Probed c h ∨ ∃ t ∈ latestFailure h,
      e.1.2 = .allowRequest ∧ e.2 = some true ∧ c.resetTimeout * 10 ^ 9 < e.1.1 - t) := by
  rw [Closes, failures_cons, if_neg he, Nat.add_zero, probed_cons_of_not he]

/-- After a failure the breaker is not probed. -/
theorem not_probed_cons_of_isFailure (he : e.IsFailure) (h : List Entry) : ¬ Probed c (e :: h) := by
  rintro ⟨t, -, e', he', -⟩
  rw [sinceFailure_cons_of_isFailure he] at he'
  exact absurd he' List.not_mem_nil

/-- What has happened since the breaker closed grows. -/
theorem sinceClosing_cons_of_not (he : ¬ (e.1.2 = .onSuccess ∧ Closes c (sinceClosing c h))) :
    sinceClosing c (e :: h) = e :: sinceClosing c h := by
  rw [sinceClosing, if_neg he]

/-- The latest failure since the last closing success is the latest of all. -/
theorem latestFailure_of_sinceClosing {s : ℤ} (hs : latestFailure (sinceClosing c h) = some s) :
    latestFailure h = some s := by
  induction h with
  | nil => exact hs
  | cons e h ih =>
      by_cases hclosing : e.1.2 = .onSuccess ∧ Closes c (sinceClosing c h)
      · rw [sinceClosing, if_pos hclosing] at hs
        cases hs
      · rw [sinceClosing_cons_of_not hclosing] at hs
        by_cases he : e.IsFailure
        · rw [latestFailure_cons_of_isFailure he] at hs ⊢
          exact hs
        · rw [latestFailure_cons_of_not he] at hs ⊢
          exact ih hs

/-! ## The invariant -/

/-- **What a history tells about the breaker.** It is closed while the failures since the last
closing success have not reached the threshold, and its counter counts them; it is half open when
the next success is to close it. -/
structure Tells (c : Config) (b : Breaker Unit) (h : List Entry) : Prop where
  idle : b.threads () = .idle
  closed_iff : b.state = .kClosed ↔ (failures (sinceClosing c h) : ℤ) < c.failureThreshold
  count : b.state = .kClosed → b.failureCount = failures (sinceClosing c h)
  half_iff : b.state = .kHalfOpen ↔ Closes c (sinceClosing c h)
  last : 0 < failures (sinceClosing c h) →
    latestFailure (sinceClosing c h) = some b.lastFailureTime
  late : b.state = .kHalfOpen → b.TimedOut c

/-- A breaker that is not closed has had a failure. -/
theorem Tells.last_of_not_closed (hf : 1 ≤ c.failureThreshold) (hb : Tells c b h)
    (hstate : b.state ≠ .kClosed) :
    c.failureThreshold ≤ failures (sinceClosing c h) ∧
      latestFailure (sinceClosing c h) = some b.lastFailureTime := by
  have hmany := not_lt.mp (fun hlt => hstate (hb.closed_iff.mpr hlt))
  exact ⟨hmany, hb.last (by omega)⟩

/-- A new breaker. -/
theorem tells_init (hf : 1 ≤ c.failureThreshold) (clock : ℤ) : Tells c { clock } [] where
  idle := rfl
  closed_iff := iff_of_true rfl (by rw [sinceClosing]; exact hf)
  count := fun _ => rfl
  half_iff := by
    refine iff_of_false (fun hstate => by cases hstate) ?_
    rintro ⟨hmany, -⟩
    rw [sinceClosing] at hmany
    exact absurd (hf.trans hmany) (by decide)
  last := fun hpos => by
    rw [sinceClosing] at hpos
    exact absurd hpos (lt_irrefl 0)
  late := fun hstate => by cases hstate

/-- What a history tells does not change with a call that is no failure, leaves the breaker as it is
and makes no difference to the next success. -/
theorem Tells.keep {b' : Breaker Unit} (hb : Tells c b h) (he : ¬ e.IsFailure)
    (hclosing : ¬ (e.1.2 = .onSuccess ∧ Closes c (sinceClosing c h)))
    (hcloses : Closes c (e :: sinceClosing c h) ↔ Closes c (sinceClosing c h))
    (hidle : b'.threads () = .idle) (hstate : b'.state = b.state)
    (hcount : b'.failureCount = b.failureCount) (hlast : b'.lastFailureTime = b.lastFailureTime)
    (hclock : b.clock ≤ b'.clock) : Tells c b' (e :: h) := by
  have hfailures : failures (e :: sinceClosing c h) = failures (sinceClosing c h) := by
    rw [failures_cons, if_neg he, Nat.add_zero]
  refine ⟨hidle, ?_, ?_, ?_, ?_, ?_⟩
  · rw [sinceClosing_cons_of_not hclosing, hfailures, hstate]
    exact hb.closed_iff
  · intro hs
    rw [sinceClosing_cons_of_not hclosing, hfailures, hcount]
    exact hb.count (hstate ▸ hs)
  · rw [sinceClosing_cons_of_not hclosing, hcloses, hstate]
    exact hb.half_iff
  · rw [sinceClosing_cons_of_not hclosing, hfailures, latestFailure_cons_of_not he, hlast]
    exact hb.last
  · intro hs
    have hlate := hb.late (hstate ▸ hs)
    rw [Breaker.TimedOut] at hlate ⊢
    rw [hlast]
    omega

/-- What a history tells does not change as time passes. -/
theorem Tells.tick (hb : Tells c b h) (hclock : b.clock ≤ t) : Tells c { b with clock := t } h := by
  refine ⟨hb.idle, hb.closed_iff, hb.count, hb.half_iff, hb.last, ?_⟩
  intro hs
  have hlate : c.resetTimeout * 10 ^ 9 < b.clock - b.lastFailureTime := hb.late hs
  change c.resetTimeout * 10 ^ 9 < t - b.lastFailureTime
  omega

/-- `AllowRequest` is no failure, and no success. -/
theorem not_isFailure_allowRequest (t : ℤ) (answer : Option Bool) :
    ¬ Entry.IsFailure ((t, .allowRequest), answer) := by
  intro hfailure
  cases hfailure

/-- A question does not close the breaker. -/
theorem sinceClosing_allowRequest (answer : Option Bool) :
    sinceClosing c (((t, .allowRequest), answer) :: h)
      = ((t, .allowRequest), answer) :: sinceClosing c h := by
  apply sinceClosing_cons_of_not
  rintro ⟨hsuccess, -⟩
  cases hsuccess

/-- **The request that makes the breaker half open**, longer after the latest failure than the
timeout. -/
theorem Tells.probe (hf : 1 ≤ c.failureThreshold) (hb : Tells c b h) (hopen : b.state = .kOpen)
    (htime : b.TimedOut c) :
    Tells c (({ b with state := .kHalfOpen } : Breaker Unit).returns () true)
      (((b.clock, .allowRequest), some true) :: h) := by
  obtain ⟨hmany, hlast⟩ := hb.last_of_not_closed hf (by rw [hopen]; decide)
  have hnot := not_isFailure_allowRequest b.clock (some true)
  refine ⟨(Breaker.returns_spec _ true).1, ?_, ?_, ?_, ?_, fun _ => htime⟩
  · rw [sinceClosing_allowRequest, failures_cons, if_neg hnot]
    exact iff_of_false (fun hs => by cases hs) (by omega)
  · intro hs
    cases hs
  · rw [sinceClosing_allowRequest, closes_cons_of_not hnot]
    exact iff_of_true rfl ⟨hmany, .inr ⟨_, hlast, rfl, rfl, htime⟩⟩
  · rw [sinceClosing_allowRequest, latestFailure_cons_of_not hnot]
    exact fun _ => hlast

/-- An `AllowRequest` that leaves the breaker as it is: it is refused, or the breaker is not open.
-/
theorem Tells.allowed (hb : Tells c b h) (allowed : Bool) (hstate : b.state = .kOpen → allowed = false) :
    Tells c (b.returns () allowed) (((b.clock, .allowRequest), some allowed) :: h) := by
  have hnot := not_isFailure_allowRequest b.clock (some allowed)
  refine hb.keep hnot ?_ ?_ (Breaker.returns_spec _ allowed).1 rfl rfl rfl le_rfl
  · rintro ⟨hsuccess, -⟩
    cases hsuccess
  rw [closes_cons_of_not hnot]
  constructor
  · rintro ⟨hmany, hold | ⟨s, -, -, hanswer, -⟩⟩
    · exact ⟨hmany, hold⟩
    · -- an admitted request, with a breaker that is neither open nor closed
      rw [← hb.half_iff]
      cases hs : b.state with
      | kClosed => exact absurd (hb.closed_iff.mp hs) (not_lt.mpr hmany)
      | kOpen =>
          rw [hstate hs] at hanswer
          cases hanswer
      | kHalfOpen => rfl
  · rintro ⟨hmany, hprobed⟩
    exact ⟨hmany, .inl hprobed⟩

/-- `AllowRequest` keeps the invariant. -/
theorem Tells.allowRequest (hf : 1 ≤ c.failureThreshold) (hb : Tells c b h) (hclock : b.clock ≤ t) :
    Tells c (b.perform c (t, .allowRequest)).1
        (((t, .allowRequest), (b.perform c (t, .allowRequest)).2) :: h) ∧
      (b.perform c (t, .allowRequest)).1.clock = t ∧
      (b.perform c (t, .allowRequest)).2
        = some (!decide (b.state = .kOpen ∧ ¬ ({ b with clock := t } : Breaker Unit).TimedOut c)) := by
  have hticked := hb.tick hclock
  rw [Breaker.perform_eq hclock]
  by_cases hopen : b.state = .kOpen
  · rw [Breaker.run_allowRequest_open hticked.idle hopen]
    by_cases htime : ({ b with clock := t } : Breaker Unit).TimedOut c
    · rw [if_pos htime, if_pos rfl, (Breaker.returns_spec _ true).2,
        decide_eq_false (fun hrefused => hrefused.2 htime)]
      exact ⟨hticked.probe hf hopen htime, rfl, rfl⟩
    · rw [if_neg htime, if_pos rfl, (Breaker.returns_spec _ false).2, decide_eq_true ⟨hopen, htime⟩]
      exact ⟨hticked.allowed false fun _ => rfl, rfl, rfl⟩
  · rw [Breaker.run_allowRequest hticked.idle hopen, if_pos rfl, (Breaker.returns_spec _ true).2,
      decide_eq_false (fun hrefused => hopen hrefused.1)]
    exact ⟨hticked.allowed true fun hs => absurd hs hopen, rfl, rfl⟩

/-- A success of a half-open breaker is a closing one: the history begins anew. -/
theorem Tells.close (hf : 1 ≤ c.failureThreshold) (hb : Tells c b h) (hhalf : b.state = .kHalfOpen) :
    Tells c (b.successLocked ()) (((b.clock, .onSuccess), none) :: h) := by
  have hcleared : sinceClosing c (((b.clock, .onSuccess), none) :: h) = [] := by
    rw [sinceClosing, if_pos ⟨rfl, hb.half_iff.mp hhalf⟩]
  refine ⟨Breaker.goes_threads_self _ () .idle, ?_, ?_, ?_, ?_, fun hs => by cases hs⟩
  all_goals rw [hcleared]
  · exact iff_of_true rfl hf
  · exact fun _ => rfl
  · refine iff_of_false (fun hs => by cases hs) ?_
    rintro ⟨hmany, -⟩
    exact absurd (hf.trans hmany) (by decide)
  · exact fun hpos => absurd hpos (lt_irrefl 0)

/-- `OnSuccess` keeps the invariant. -/
theorem Tells.onSuccess (hf : 1 ≤ c.failureThreshold) (hb : Tells c b h) (hclock : b.clock ≤ t) :
    Tells c (b.perform c (t, .onSuccess)).1
        (((t, .onSuccess), (b.perform c (t, .onSuccess)).2) :: h) ∧
      (b.perform c (t, .onSuccess)).1.clock = t := by
  have hticked := hb.tick hclock
  rw [Breaker.perform_eq hclock, Breaker.run_onSuccess hticked.idle]
  by_cases hhalf : b.state = .kHalfOpen
  · rw [if_pos hhalf, if_neg (by decide)]
    exact ⟨hticked.close hf hhalf, rfl⟩
  · have hnot : ¬ Entry.IsFailure ((t, .onSuccess), none) := by
      intro hfailure
      cases hfailure
    rw [if_neg hhalf, if_neg (by decide)]
    refine ⟨hticked.keep hnot ?_ ?_ hticked.idle rfl rfl rfl le_rfl, rfl⟩
    · rintro ⟨-, hcloses⟩
      exact hhalf (hb.half_iff.mpr hcloses)
    · rw [closes_cons_of_not hnot, Closes]
      refine and_congr_right fun _ => or_iff_left ?_
      rintro ⟨s, -, hallow, -⟩
      cases hallow

/-- One failure more than a closed breaker has counted. -/
theorem Tells.counted (hint : c.failureThreshold < 2 ^ 31) (hb : Tells c b h)
    (hclosed : b.state = .kClosed) :
    Int.bmod (b.failureCount + 1) (2 ^ 32) = failures (sinceClosing c h) + 1 := by
  have hfew := hb.closed_iff.mp hclosed
  rw [hb.count hclosed]
  apply Int.bmod_eq_of_le
  · omega
  · norm_num
    omega

/-- **One failure more opens the breaker, or is not enough yet.** -/
theorem Tells.state_onFailure (hf : 1 ≤ c.failureThreshold) (hint : c.failureThreshold < 2 ^ 31)
    (hb : Tells c b h) :
    (b.onFailure c).state
      = if (failures (sinceClosing c h) : ℤ) + 1 < c.failureThreshold then .kClosed else .kOpen := by
  rw [(Breaker.onFailure_spec c b).2.2.2.2]
  by_cases hclosed : b.state = .kClosed
  · rw [hb.counted hint hclosed, hclosed]
    by_cases hfew : (failures (sinceClosing c h) : ℤ) + 1 < c.failureThreshold
    · rw [if_neg (by simpa using hfew), if_pos hfew]
    · rw [if_pos (.inr (not_lt.mp hfew)), if_neg hfew]
  · have hmany := (hb.last_of_not_closed hf hclosed).1
    have hfull : ¬ ((failures (sinceClosing c h) : ℤ) + 1 < c.failureThreshold) := by omega
    rw [if_neg hfull]
    split
    · rfl
    · next hopen =>
        cases hs : b.state with
        | kClosed => exact absurd hs hclosed
        | kOpen => rfl
        | kHalfOpen => exact absurd (.inl hs) hopen

/-- `OnFailure` keeps the invariant. -/
theorem Tells.onFailure (hf : 1 ≤ c.failureThreshold) (hint : c.failureThreshold < 2 ^ 31)
    (hb : Tells c b h) (hclock : b.clock ≤ t) :
    Tells c (b.perform c (t, .onFailure)).1
        (((t, .onFailure), (b.perform c (t, .onFailure)).2) :: h) ∧
      (b.perform c (t, .onFailure)).1.clock = t := by
  have hfailure : Entry.IsFailure ((t, .onFailure), none) := rfl
  have hticked := hb.tick hclock
  have hstate := hticked.state_onFailure hf hint
  obtain ⟨hthreads, hclock', hlast, hcount, -⟩ :=
    Breaker.onFailure_spec c ({ b with clock := t } : Breaker Unit)
  rw [Breaker.perform_eq hclock, Breaker.run_onFailure hticked.idle, if_neg (by decide)]
  generalize ({ b with clock := t } : Breaker Unit).onFailure c = b' at *
  -- a failure closes nothing, so it is one more failure since the last closing
  have hsince : sinceClosing c (((t, Call.onFailure), none) :: h)
      = ((t, .onFailure), none) :: sinceClosing c h := by
    apply sinceClosing_cons_of_not
    rintro ⟨hsuccess, -⟩
    cases hsuccess
  have hfailures : failures (((t, Call.onFailure), (none : Option Bool)) :: sinceClosing c h)
      = failures (sinceClosing c h) + 1 := by
    rw [failures_cons, if_pos hfailure]
  have hnothalf : ¬ b'.state = .kHalfOpen := by
    rw [hstate]
    split <;> decide
  refine ⟨⟨by rw [hthreads]; exact hb.idle, ?_, ?_, ?_, ?_, fun hs => absurd hs hnothalf⟩, hclock'⟩
  all_goals rw [hsince]
  -- the state, told by the number of failures
  · rw [hfailures, hstate]
    push_cast
    split
    · next hfew => exact iff_of_true rfl hfew
    · next hfull => exact iff_of_false (by decide) hfull
  -- the counter, while the breaker is closed
  · intro hs
    rw [hstate] at hs
    split at hs
    · next hfew =>
        rw [hcount, hfailures]
        exact hticked.counted hint (hticked.closed_iff.mpr (by omega))
    · cases hs
  · exact iff_of_false hnothalf fun hcloses => not_probed_cons_of_isFailure hfailure _ hcloses.2
  · intro _
    rw [latestFailure_cons_of_isFailure hfailure, hlast]

/-! ## Runs -/

/-- **After every run the history of the calls tells what the breaker is like.** -/
theorem tells_run (hf : 1 ≤ c.failureThreshold) (hint : c.failureThreshold < 2 ^ 31)
    (calls : List (ℤ × Call)) (hb : Tells c b h)
    (hsorted : (b.clock :: calls.map Prod.fst).Pairwise (· ≤ ·)) :
    Tells c (Trace.run (fun b call => (b.perform c call).1) b calls)
        ((Keyed.transcript (Breaker.perform c) b calls).reverse ++ h) ∧
      ∀ t, (∀ s ∈ b.clock :: calls.map Prod.fst, s ≤ t) →
        (Trace.run (fun b call => (b.perform c call).1) b calls).clock ≤ t := by
  -- Induction on the calls; the clock only moves forward.
  induction calls generalizing b h with
  | nil => exact ⟨hb, fun t ht => ht b.clock List.mem_cons_self⟩
  | cons call calls ih =>
      obtain ⟨t, kind⟩ := call
      rw [List.map_cons] at hsorted
      have hclock : b.clock ≤ t := List.rel_of_pairwise_cons hsorted List.mem_cons_self
      have hstep : Tells c (b.perform c (t, kind)).1 (((t, kind), (b.perform c (t, kind)).2) :: h) ∧
          (b.perform c (t, kind)).1.clock = t := by
        cases kind with
        | allowRequest =>
            obtain ⟨htells, htime, -⟩ := hb.allowRequest hf hclock
            exact ⟨htells, htime⟩
        | onSuccess => exact hb.onSuccess hf hclock
        | onFailure => exact hb.onFailure hf hint hclock
      obtain ⟨hrun, hlast⟩ := ih hstep.1 (by rw [hstep.2]; exact hsorted.of_cons)
      rw [Trace.run_cons, Keyed.transcript_cons, List.reverse_cons, List.append_assoc]
      refine ⟨hrun, fun t' ht' => hlast t' ?_⟩
      intro s hs
      rw [hstep.2] at hs
      exact ht' s (List.mem_cons_of_mem _ hs)

/-- **When a call is refused.** In every sequence of calls `AllowRequest` answers false if and only
if the failures since the last closing success have reached the threshold, and the latest failure is
not longer ago than the timeout. -/
theorem refused_iff (c : Config) (hf : 1 ≤ c.failureThreshold) (hint : c.failureThreshold < 2 ^ 31)
    (clock : ℤ) (calls : List (ℤ × Call)) (t : ℤ)
    (hsorted : (clock :: (calls.map Prod.fst ++ [t])).Pairwise (· ≤ ·)) :
    ((after c clock calls).perform c (t, .allowRequest)).2 = some false ↔
      c.failureThreshold ≤ failures (sinceClosing c (history c clock calls)) ∧
        ∃ s ∈ latestFailure (history c clock calls), t - s ≤ c.resetTimeout * 10 ^ 9 := by
  rw [List.pairwise_cons, List.pairwise_append] at hsorted
  obtain ⟨hstart, hcalls, -, hend⟩ := hsorted
  have hrun := tells_run (h := []) hf hint calls (tells_init hf clock) (List.pairwise_cons.mpr
    ⟨fun s hs => hstart s (List.mem_append_left _ hs), hcalls⟩)
  rw [List.append_nil] at hrun
  obtain ⟨hb, hlast⟩ := hrun
  change Tells c (after c clock calls) (history c clock calls) at hb
  have hclock : (after c clock calls).clock ≤ t := by
    apply hlast t
    intro s hs
    rcases List.mem_cons.mp hs with rfl | hs
    · exact hstart t (List.mem_append_right _ List.mem_cons_self)
    · exact hend s hs t List.mem_cons_self
  rw [(hb.allowRequest hf hclock).2.2]
  generalize after c clock calls = b at *
  generalize history c clock calls = h at *
  rw [Option.some_inj, Bool.not_eq_false', decide_eq_true_iff]
  constructor
  · rintro ⟨hopen, htime⟩
    obtain ⟨hmany, hlatest⟩ := hb.last_of_not_closed hf (by rw [hopen]; decide)
    exact ⟨hmany, b.lastFailureTime, latestFailure_of_sinceClosing hlatest, not_lt.mp htime⟩
  · rintro ⟨hmany, s, hs, hrecent⟩
    have hclosed : b.state ≠ .kClosed := fun hs => absurd (hb.closed_iff.mp hs) (not_lt.mpr hmany)
    have hlatest := latestFailure_of_sinceClosing (hb.last_of_not_closed hf hclosed).2
    have hsame : b.lastFailureTime = s := Option.some.inj (hlatest.symm.trans hs)
    have htime : ¬ ({ b with clock := t } : Breaker Unit).TimedOut c := by
      change ¬ c.resetTimeout * 10 ^ 9 < t - b.lastFailureTime
      rw [hsame]
      exact not_lt.mpr hrecent
    refine ⟨?_, htime⟩
    cases hstate : b.state with
    | kClosed => exact absurd hstate hclosed
    | kOpen => rfl
    | kHalfOpen =>
        -- half open only since the timeout, and time does not go back
        have hlate : c.resetTimeout * 10 ^ 9 < b.clock - b.lastFailureTime := hb.late hstate
        omega

/-- A threshold of two, and a timeout of a second: two failures, a call that is refused, one that is
admitted after the timeout, a success, which closes the breaker, and one failure more, after which
calls are admitted again. -/
theorem refused_iff_two :
    let c : Config := { failureThreshold := 2, resetTimeout := 1 }
    let calls := [(0, Call.onFailure), (1, .onFailure), (5, .allowRequest), (1000000002, .allowRequest),
      (1000000003, .onSuccess), (1000000004, .onFailure)]
    (((after c 0 (calls.take 2)).perform c (5, .allowRequest)).2 = some false ↔
      c.failureThreshold ≤ failures (sinceClosing c (history c 0 (calls.take 2))) ∧
        ∃ s ∈ latestFailure (history c 0 (calls.take 2)), 5 - s ≤ c.resetTimeout * 10 ^ 9) ∧
    ((after c 0 (calls.take 2)).perform c (5, .allowRequest)).2 = some false ∧
    ((after c 0 calls).perform c (1000000005, .allowRequest)).2 = some true := by
  intro c calls
  refine ⟨?_, by decide, by decide⟩
  exact refused_iff c (by decide) (by decide) 0 (calls.take 2) 5 (by decide)

end NetworkLib.CircuitBreaker
