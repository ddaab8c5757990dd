import NetworkLib.Theory.FixedWindow

/-! # DDoS protection

The limit on connections per address, and the limit on requests per address, which counts the
requests of an address in windows of a second. A window begins with the first request that comes a
second or more after the last one has begun, so that a second may meet two windows: what is promised
for it is the limit for each of them (`request_limit`). Times are in nanoseconds. -/

namespace NetworkLib

/-- `DdosProtection::Config`. -/
structure DdosConfig where
  maxConnPerIp : ℤ := 100
  rateLimitPerIp : ℤ := 50
  deriving DecidableEq, Repr

/-- `DdosProtection`. An address without an entry in `conn_counts_` counts 0, and one without an
entry in `req_counts_` has a window that begins with the clock. -/
structure DdosProtection where
  config : DdosConfig := {}
  connCounts : String → ℤ := fun _ => 0
  reqCounts : String → ℤ × ℤ := fun _ => (0, 0)

namespace DdosProtection

/-- `AllowConnection`. -/
def allowConnection (d : DdosProtection) (ip : String) : DdosProtection × Bool :=
  if d.config.maxConnPerIp ≤ d.connCounts ip then (d, false)
  else ({ d with connCounts := Function.update d.connCounts ip (d.connCounts ip + 1) }, true)

/-- `AllowRequest` begins a window. The time since the last one has begun is cut to seconds. -/
def Resets (d : DdosProtection) (ip : String) (now : ℤ) : Prop :=
  1 ≤ (now - (d.reqCounts ip).2).tdiv 1000000000

instance (d : DdosProtection) (ip : String) (now : ℤ) : Decidable (d.Resets ip now) :=
  inferInstanceAs (Decidable (_ ≤ _))

/-- The entry that `AllowRequest` goes on with: the requests allowed in the window, and its begin.
-/
def entry (d : DdosProtection) (ip : String) (now : ℤ) : ℤ × ℤ :=
  if d.Resets ip now then (0, now) else d.reqCounts ip

/-- `AllowRequest`, when the clock shows `now`. -/
def allowRequest (d : DdosProtection) (ip : String) (now : ℤ) : DdosProtection × Bool :=
  let entry := d.entry ip now
  if d.config.rateLimitPerIp ≤ entry.1 then
    ({ d with reqCounts := Function.update d.reqCounts ip entry }, false)
  else
    ({ d with reqCounts := Function.update d.reqCounts ip (entry.1 + 1, entry.2) }, true)

/-- A call of `AllowRequest`, by its address and its time, with what it does. -/
def serveRequest (d : DdosProtection) (call : String × ℤ) : DdosProtection × FixedWindow.Answer :=
  ((d.allowRequest call.1 call.2).1,
    ⟨(d.allowRequest call.1 call.2).2, decide (d.Resets call.1 call.2)⟩)

/-- The calls for one address in a run, with their answers. -/
def answersTo (ip : String) (config : DdosConfig) (calls : List (String × ℤ)) :
    List (ℤ × FixedWindow.Answer) :=
  Keyed.ownTranscript ip (Keyed.transcript serveRequest { config } calls)

/-- The calls for one address answered true in the second from `s` on. -/
def allowedIn (s : ℤ) (answers : List (ℤ × FixedWindow.Answer)) : ℕ :=
  FixedWindow.countIn FixedWindow.Answer.admitted (10 ^ 9) s answers

/-- The windows that begin in the second from `s` on. -/
def resetsIn (s : ℤ) (answers : List (ℤ × FixedWindow.Answer)) : ℕ :=
  FixedWindow.countIn FixedWindow.Answer.restarted (10 ^ 9) s answers

/-! ## A counter for every address -/

/-- The counter of an address. -/
def counter (d : DdosProtection) (ip : String) : FixedWindow.Counter ℤ where
  count := (d.reqCounts ip).1
  start := (d.reqCounts ip).2

/-- A counter is reset when its window is over. -/
theorem resets_iff (d : DdosProtection) (ip : String) (now : ℤ) :
    d.Resets ip now ↔ FixedWindow.Due (10 ^ 9) (d.counter ip) now := by
  change 1 ≤ (now - (d.counter ip).start).tdiv 1000000000 ↔ 10 ^ 9 ≤ now - (d.counter ip).start
  rcases le_total 0 (now - (d.counter ip).start) with h | h
  · rw [Int.tdiv_eq_ediv_of_nonneg h]
    omega
  · have hcut := Int.tdiv_nonneg (neg_nonneg.mpr h) (by decide : (0 : ℤ) ≤ 1000000000)
    rw [Int.neg_tdiv] at hcut
    omega

/-- The counter of an address that has got a new entry. -/
theorem counter_update (d : DdosProtection) (ip : String) (entry : ℤ × ℤ) :
    counter { d with reqCounts := Function.update d.reqCounts ip entry }
      = Function.update d.counter ip ⟨entry.1, entry.2⟩ := by
  funext ip'
  by_cases h : ip' = ip
  · subst h
    rw [Function.update_self, counter]
    simp only [Function.update_self]
  · rw [Function.update_of_ne h, counter, counter]
    simp only [Function.update_of_ne h]

/-- The counter of an address is that of its window. -/
theorem current_counter (d : DdosProtection) (ip : String) (now : ℤ) :
    FixedWindow.current (10 ^ 9) (d.counter ip) now = ⟨(d.entry ip now).1, (d.entry ip now).2⟩ := by
  have hdue := resets_iff d ip now
  by_cases h : d.Resets ip now
  · rw [FixedWindow.current_of_due (hdue.mp h), entry, if_pos h]
  · rw [FixedWindow.current_of_not_due (fun ht => h (hdue.mpr ht)), entry, if_neg h]
    rfl

/-- **A call is served by the counter of its address**, and touches no other. -/
theorem serveRequest_spec (d : DdosProtection) (call : String × ℤ) :
    (d.serveRequest call).2
        = (FixedWindow.serve (10 ^ 9) d.config.rateLimitPerIp (d.counter call.1) call.2).2 ∧
      (d.serveRequest call).1.config = d.config ∧
      (d.serveRequest call).1.counter = Function.update d.counter call.1
        (FixedWindow.serve (10 ^ 9) d.config.rateLimitPerIp (d.counter call.1) call.2).1 := by
  obtain ⟨ip, now⟩ := call
  have hresets : decide (d.Resets ip now) = decide (FixedWindow.Due (10 ^ 9) (d.counter ip) now) :=
    decide_eq_decide.mpr (resets_iff d ip now)
  rw [serveRequest, FixedWindow.serve, current_counter, FixedWindow.offer, allowRequest, ← hresets]
  by_cases hfull : d.config.rateLimitPerIp ≤ (d.entry ip now).1
  · rw [if_pos hfull, if_pos hfull]
    exact ⟨rfl, rfl, counter_update d ip _⟩
  · rw [if_neg hfull, if_neg hfull]
    exact ⟨rfl, rfl, counter_update d ip _⟩

/-- A run of calls, seen as a run of one counter for every address. -/
theorem transcript_eq (d : DdosProtection) (calls : List (String × ℤ)) :
    Keyed.transcript serveRequest d calls
      = Keyed.transcript (Keyed.serve (FixedWindow.serve (10 ^ 9) d.config.rateLimitPerIp)) d.counter
        calls := by
  apply Keyed.transcript_congr (R := fun (d' : DdosProtection) m =>
    d'.config = d.config ∧ d'.counter = m)
  · rintro d' m call ⟨hconfig, rfl⟩
    obtain ⟨hanswer, hsame, hnext⟩ := serveRequest_spec d' call
    rw [hconfig] at hanswer hnext
    exact ⟨hanswer, hsame.trans hconfig, hnext⟩
  · exact ⟨rfl, rfl⟩

/-- **What an address is answered depends on its own calls alone.** -/
theorem answersTo_eq (ip : String) (config : DdosConfig) (calls : List (String × ℤ)) :
    answersTo ip config calls
      = Keyed.transcript (FixedWindow.serve (10 ^ 9) config.rateLimitPerIp) ⟨0, 0⟩
        (Keyed.own ip calls) := by
  rw [answersTo, transcript_eq]
  exact Keyed.transcript_own _ ip _ calls

/-- **The limit on the requests of an address.** In every second its calls answered true are no more
than the limit for each of the windows that the second meets, which are two at most, and what its
calls are answered does not depend on the calls of the other addresses. -/
theorem request_limit (config : DdosConfig) (hlimit : 0 ≤ config.rateLimitPerIp)
    (calls : List (String × ℤ)) (hsorted : (calls.map Prod.snd).Pairwise (· ≤ ·)) (ip : String) :
    (∀ s : ℤ,
      (allowedIn s (answersTo ip config calls) : ℤ)
          ≤ config.rateLimitPerIp * (1 + resetsIn s (answersTo ip config calls)) ∧
        resetsIn s (answersTo ip config calls) ≤ 1) ∧
    answersTo ip config calls
      = answersTo ip config (calls.filter fun call => call.1 = ip) := by
  constructor
  · intro s
    have hown : (Keyed.own ip calls).Pairwise (· ≤ ·) := hsorted.sublist (Keyed.own_sublist ip calls)
    rw [answersTo_eq]
    exact FixedWindow.admitted_le hlimit ⟨le_rfl, hlimit⟩ hown s
  · rw [answersTo_eq, answersTo_eq, Keyed.own_filter]

/-- A limit of two, and four requests of one address, all of which are answered true: two in the
window that begins with the first of them, two in the next. Three come within one second, and the
limit for the two windows of that second allows four. -/
theorem request_limit_two_windows :
    let config : DdosConfig := { rateLimitPerIp := 2 }
    let calls := [("10.0.0.1", 5000000000), ("10.0.0.1", 5900000000), ("10.0.0.2", 5950000000),
      ("10.0.0.1", 6000000000), ("10.0.0.1", 6100000000)]
    allowedIn 5500000000 (answersTo "10.0.0.1" config calls) = 3 ∧
      (allowedIn 5500000000 (answersTo "10.0.0.1" config calls) : ℤ)
        ≤ 2 * (1 + resetsIn 5500000000 (answersTo "10.0.0.1" config calls)) := by
  intro config calls
  refine ⟨by decide, ?_⟩
  exact ((request_limit config (by decide) calls (by decide) "10.0.0.1").1 5500000000).1

/-- The limit is not one for every second. -/
theorem request_limit_exceeded :
    ¬ ∀ (config : DdosConfig), 0 ≤ config.rateLimitPerIp → ∀ (calls : List (String × ℤ)),
      (calls.map Prod.snd).Pairwise (· ≤ ·) → ∀ (ip : String) (s : ℤ),
        (allowedIn s (answersTo ip config calls) : ℤ) ≤ config.rateLimitPerIp := by
  intro h
  have hthree := h { rateLimitPerIp := 2 } (by decide)
    [("10.0.0.1", 5000000000), ("10.0.0.1", 5900000000), ("10.0.0.1", 6000000000),
      ("10.0.0.1", 6100000000)] (by decide) "10.0.0.1" 5500000000
  exact absurd hthree (by decide)

end DdosProtection

end NetworkLib
