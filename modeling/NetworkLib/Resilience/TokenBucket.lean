import Mathlib.Tactic

/-! # The token bucket

`TokenBucket` over exact rationals, with times in nanoseconds. `Consume` refills the bucket for the
whole microseconds since the last refill and takes its tokens if there are enough; the mutex makes a
call one step.

What bounds the tokens granted is the **level** of the bucket: the tokens in it, less those that the
rate has brought since the clock stood at zero. No call raises the level, and a granted call lowers
it by what it takes (`consume_spec`). Between the first call of a window and its end the level can
fall no further than the capacity and the time allow (`granted_le`). -/

namespace NetworkLib

/-- `TokenBucket`. -/
structure TokenBucket where
  /-- `rate_`, per second. -/
  rate : ℚ
  /-- `capacity_`. -/
  capacity : ℚ
  /-- `tokens_`. -/
  tokens : ℚ
  /-- `last_refill_`. -/
  lastRefill : ℤ
  deriving DecidableEq, Repr

namespace TokenBucket

/-- The bucket that the constructor makes at time `now`. -/
def create (rate capacity : ℚ) (now : ℤ) : TokenBucket where
  rate := rate
  capacity := capacity
  tokens := capacity
  lastRefill := now

/-- `Refill`, when the clock shows `now`. The time since the last refill is cut to microseconds. -/
def refill (b : TokenBucket) (now : ℤ) : TokenBucket :=
  let duration := (now - b.lastRefill).tdiv 1000
  let newTokens := duration * b.rate / 1000000
  if 0 < newTokens then
    { b with tokens := min b.capacity (b.tokens + newTokens), lastRefill := now }
  else b

/-- `Consume`, when the clock shows `now`. -/
def consume (b : TokenBucket) (now : ℤ) (tokens : ℚ) : TokenBucket × Bool :=
  let b := b.refill now
  if tokens ≤ b.tokens then ({ b with tokens := b.tokens - tokens }, true) else (b, false)

/-- The bucket after some calls: the time of each and the tokens it asks for. -/
def run (b : TokenBucket) (calls : List (ℤ × ℚ)) : TokenBucket :=
  calls.foldl (fun b call => (b.consume call.1 call.2).1) b

/-- The tokens that one call is granted. -/
def grant (b : TokenBucket) (call : ℤ × ℚ) : ℚ :=
  if (b.consume call.1 call.2).2 then call.2 else 0

/-- The tokens granted to the calls made in the window from `s` to `t`. -/
def granted (s t : ℤ) (b : TokenBucket) : List (ℤ × ℚ) → ℚ
  | [] => 0
  | call :: calls =>
      (if s ≤ call.1 ∧ call.1 ≤ t then b.grant call else 0)
        + granted s t (b.consume call.1 call.2).1 calls

/-- The bucket holds no less than nothing and no more than its capacity, and is filled at no
negative rate. -/
structure Bounded (b : TokenBucket) : Prop where
  rate_nonneg : 0 ≤ b.rate
  tokens_nonneg : 0 ≤ b.tokens
  tokens_le : b.tokens ≤ b.capacity

/-- The tokens in the bucket, less those the rate has brought up to the last refill. -/
def level (b : TokenBucket) : ℚ := b.tokens - b.rate * (b.lastRefill / 10 ^ 9)

/-- A new bucket is full. -/
theorem bounded_create {rate capacity : ℚ} (hrate : 0 ≤ rate) (hcapacity : 0 ≤ capacity) (now : ℤ) :
    (create rate capacity now).Bounded :=
  ⟨hrate, hcapacity, le_rfl⟩

variable {b : TokenBucket} {now : ℤ} {tokens : ℚ}

/-! ## A refill -/

/-- What a refill can do: nothing, if the rate is zero or no microsecond has passed; or else it adds
no more than the rate has brought. -/
theorem refill_cases (hb : b.Bounded) (hnow : b.lastRefill ≤ now) :
    b.refill now = b ∧ b.rate * (now / 10 ^ 9) ≤ b.rate * (b.lastRefill / 10 ^ 9) + b.rate / 10 ^ 6 ∨
    ∃ newTokens : ℚ, 0 < newTokens ∧
      newTokens ≤ b.rate * (now / 10 ^ 9) - b.rate * (b.lastRefill / 10 ^ 9) ∧
      b.refill now
        = { b with tokens := min b.capacity (b.tokens + newTokens), lastRefill := now } := by
  have hrate := hb.rate_nonneg
  obtain ⟨elapsed, helapsed⟩ := Int.eq_ofNat_of_zero_le (sub_nonneg.mpr hnow)
  have hnow' : (now : ℚ) = b.lastRefill + elapsed := by
    have hsum : now = b.lastRefill + elapsed := by omega
    rw [hsum]
    push_cast
    rfl
  have hduration : (now - b.lastRefill).tdiv 1000 = ((elapsed / 1000 : ℕ) : ℤ) := by
    rw [helapsed]
    rfl
  simp only [refill, hduration, Int.cast_natCast]
  -- `duration_cast` rounds down to whole microseconds
  have hdiv : ((elapsed / 1000 : ℕ) : ℚ) * 1000 ≤ elapsed := by
    exact_mod_cast Nat.div_mul_le_self elapsed 1000
  split
  -- tokens are added, no more than the time that has passed is worth
  · next hpos =>
      refine .inr ⟨_, hpos, ?_, rfl⟩
      have hgain := mul_le_mul_of_nonneg_left hdiv hrate
      rw [hnow']
      linarith
  · next hpos =>
      refine .inl ⟨rfl, ?_⟩
      rcases hrate.eq_or_lt with hzero | hrate
      · rw [← hzero]
        norm_num
      · -- no whole microsecond has passed
        have hshort : elapsed / 1000 = 0 := by
          by_contra hne
          have hone : (0 : ℚ) < ((elapsed / 1000 : ℕ) : ℚ) := by
            exact_mod_cast Nat.pos_of_ne_zero hne
          exact hpos (by positivity)
        have helapsed' : (elapsed : ℚ) ≤ 1000 := by
          exact_mod_cast (by omega : elapsed ≤ 1000)
        have hgain := mul_le_mul_of_nonneg_left helapsed' hrate.le
        rw [hnow']
        linarith

/-- **A refill keeps the bucket bounded and never raises its level**; it leaves it refilled up to
the present, but for less than a microsecond. -/
theorem refill_spec (hb : b.Bounded) (hnow : b.lastRefill ≤ now) :
    (b.refill now).Bounded ∧ (b.refill now).rate = b.rate ∧ (b.refill now).capacity = b.capacity ∧
      (b.refill now).lastRefill ≤ now ∧ (b.refill now).level ≤ b.level ∧
      b.rate * (now / 10 ^ 9) ≤ b.rate * ((b.refill now).lastRefill / 10 ^ 9) + b.rate / 10 ^ 6 := by
  have hrate := hb.rate_nonneg
  have htokens := hb.tokens_nonneg
  have hle := hb.tokens_le
  obtain ⟨hsame, hlate⟩ | ⟨newTokens, hpos, hgain, hfilled⟩ := refill_cases hb hnow
  · rw [hsame]
    exact ⟨hb, rfl, rfl, hnow, le_rfl, hlate⟩
  · rw [hfilled]
    refine ⟨⟨hrate, ?_, min_le_left _ _⟩, rfl, rfl, le_rfl, ?_, ?_⟩
    · exact le_min (htokens.trans hle) (by linarith)
    · have hcut : min b.capacity (b.tokens + newTokens) ≤ b.tokens + newTokens := min_le_right _ _
      simp only [level]
      linarith
    · have hmicro : 0 ≤ b.rate / 10 ^ 6 := by positivity
      exact le_add_of_nonneg_right hmicro

/-! ## A call -/

/-- A call refills the bucket, and takes off what it is granted. -/
theorem consume_eq (b : TokenBucket) (call : ℤ × ℚ) :
    (b.consume call.1 call.2).1
      = { b.refill call.1 with tokens := (b.refill call.1).tokens - b.grant call } := by
  by_cases h : call.2 ≤ (b.refill call.1).tokens
  · simp only [grant, consume, if_pos h, if_true]
  · simp only [grant, consume, if_neg h, if_false, Bool.false_eq_true, sub_zero]

/-- **The level after a call.** -/
theorem consume_level (b : TokenBucket) (call : ℤ × ℚ) :
    (b.consume call.1 call.2).1.level = (b.refill call.1).level - b.grant call := by
  rw [consume_eq, level, level]
  exact sub_right_comm _ _ _

/-- No call gives tokens back. -/
theorem grant_nonneg {call : ℤ × ℚ} (h : 0 ≤ call.2) : 0 ≤ b.grant call := by
  rw [grant]
  split
  · exact h
  · exact le_rfl

/-- No call takes more than there is. -/
theorem grant_le (hb : (b.refill now).Bounded) :
    b.grant (now, tokens) ≤ (b.refill now).tokens := by
  simp only [grant, consume]
  split
  · assumption
  · exact hb.tokens_nonneg

/-- **A call keeps the bucket bounded**, and lowers its level by what it is granted. -/
theorem consume_spec (hb : b.Bounded) (hnow : b.lastRefill ≤ now) (htokens : 0 ≤ tokens) :
    (b.consume now tokens).1.Bounded ∧ (b.consume now tokens).1.rate = b.rate ∧
      (b.consume now tokens).1.capacity = b.capacity ∧
      (b.consume now tokens).1.lastRefill ≤ now ∧
      b.grant (now, tokens) + (b.consume now tokens).1.level ≤ b.level := by
  obtain ⟨hfilled, hrate, hcapacity, hlast, hlevel, -⟩ := refill_spec hb hnow
  have hgrant : 0 ≤ b.grant (now, tokens) := grant_nonneg htokens
  have henough : b.grant (now, tokens) ≤ (b.refill now).tokens := grant_le hfilled
  have htaken : b.grant (now, tokens) + (b.consume now tokens).1.level ≤ b.level := by
    rw [consume_level b (now, tokens)]
    linarith
  refine ⟨?_, ?_, ?_, ?_, htaken⟩
  all_goals rw [consume_eq b (now, tokens)]
  · exact ⟨hfilled.rate_nonneg, sub_nonneg.mpr henough,
      (sub_le_self _ hgrant).trans hfilled.tokens_le⟩
  · exact hrate
  · exact hcapacity
  · exact hlast

/-! ## Runs -/

variable {calls : List (ℤ × ℚ)} {s t : ℤ}

/-- The calls come in order, none before the last refill, and ask for no negative amount. -/
structure Ordered (b : TokenBucket) (calls : List (ℤ × ℚ)) : Prop where
  after : ∀ call ∈ calls, b.lastRefill ≤ call.1
  sorted : (calls.map Prod.fst).Pairwise (· ≤ ·)
  nonneg : ∀ call ∈ calls, 0 ≤ call.2

/-- The first call of some in order comes no earlier than the refill before it, and no later than
the others. -/
theorem Ordered.head {call : ℤ × ℚ} (h : b.Ordered (call :: calls)) :
    b.lastRefill ≤ call.1 ∧ 0 ≤ call.2 ∧ ∀ call' ∈ calls, call.1 ≤ call'.1 := by
  refine ⟨h.after call List.mem_cons_self, h.nonneg call List.mem_cons_self, ?_⟩
  intro call' hcall'
  exact List.rel_of_pairwise_cons h.sorted (List.mem_map_of_mem hcall')

/-- The calls that remain are in order for the bucket after the first. -/
theorem Ordered.tail {call : ℤ × ℚ} (hb : b.Bounded) (h : b.Ordered (call :: calls)) :
    (b.consume call.1 call.2).1.Ordered calls := by
  obtain ⟨hafter, hnonneg, hlater⟩ := h.head
  obtain ⟨-, -, -, hlast, -⟩ := consume_spec hb hafter hnonneg
  refine ⟨?_, (List.pairwise_cons.mp h.sorted).2, ?_⟩
  · intro call' hcall'
    exact hlast.trans (hlater call' hcall')
  · intro call' hcall'
    exact h.nonneg call' (List.mem_cons_of_mem _ hcall')

/-- A run keeps the bucket bounded, and its capacity. -/
theorem bounded_run (hb : b.Bounded) (h : b.Ordered calls) :
    (b.run calls).Bounded ∧ (b.run calls).capacity = b.capacity := by
  induction calls generalizing b with
  | nil => exact ⟨hb, rfl⟩
  | cons call calls ih =>
      obtain ⟨hafter, hnonneg, -⟩ := h.head
      obtain ⟨hb', -, hcapacity, -, -⟩ := consume_spec hb hafter hnonneg
      obtain ⟨hrun, hsame⟩ := ih hb' (h.tail hb)
      exact ⟨hrun, hsame.trans hcapacity⟩

/-- Nothing is granted in a window that is over. -/
theorem granted_of_over (h : ∀ call ∈ calls, t < call.1) : granted s t b calls = 0 := by
  induction calls generalizing b with
  | nil => rfl
  | cons call calls ih =>
      have hover : ¬ (s ≤ call.1 ∧ call.1 ≤ t) := by
        intro hin
        exact absurd hin.2 (not_le.mpr (h call List.mem_cons_self))
      rw [granted, if_neg hover, zero_add]
      exact ih fun call' hcall' => h call' (List.mem_cons_of_mem _ hcall')

/-- The first call of a window that is over is followed by none inside it. -/
theorem granted_cons_of_over {call : ℤ × ℚ} (h : b.Ordered (call :: calls)) (hover : t < call.1) :
    granted s t b (call :: calls) = 0 := by
  apply granted_of_over
  intro call' hcall'
  rcases List.mem_cons.mp hcall' with rfl | hcall'
  · exact hover
  · exact hover.trans_le (h.head.2.2 call' hcall')

/-- From the last refill on the level allows no negative amount. -/
theorem level_nonneg (hb : b.Bounded) (ht : b.lastRefill ≤ t) :
    0 ≤ b.level + b.rate * (t / 10 ^ 9) := by
  have hlast : (b.lastRefill : ℚ) / 10 ^ 9 ≤ t / 10 ^ 9 := by
    have hcast : (b.lastRefill : ℚ) ≤ t := by exact_mod_cast ht
    gcongr
  have hgain := mul_le_mul_of_nonneg_left hlast hb.rate_nonneg
  have htokens := hb.tokens_nonneg
  rw [level]
  linarith

/-- **Up to time `t` no more is granted than the level allows.** -/
theorem granted_le_level (hb : b.Bounded) (h : b.Ordered calls) (ht : b.lastRefill ≤ t) :
    granted s t b calls ≤ b.level + b.rate * (t / 10 ^ 9) := by
  induction calls generalizing b with
  | nil => exact level_nonneg hb ht
  | cons call calls ih =>
      obtain ⟨hafter, hnonneg, -⟩ := h.head
      obtain ⟨hb', hrate, -, hlast, hlevel⟩ := consume_spec hb hafter hnonneg
      by_cases hin : call.1 ≤ t
      · have hrest := ih hb' (h.tail hb) (hlast.trans hin)
        have hfirst : (if s ≤ call.1 ∧ call.1 ≤ t then b.grant call else 0) ≤ b.grant call := by
          split
          · exact le_rfl
          · exact grant_nonneg hnonneg
        rw [hrate] at hrest
        rw [granted]
        linarith
      · rw [granted_cons_of_over h (not_le.mp hin)]
        exact level_nonneg hb ht

/-- **What a window is granted**: the capacity, what the rate brings in its time, and the rest of a
microsecond before it. -/
theorem granted_le (hb : b.Bounded) (h : b.Ordered calls) (hst : s ≤ t) :
    granted s t b calls ≤ b.capacity + b.rate * ((t - s) / 10 ^ 9) + b.rate / 10 ^ 6 := by
  have hrate := hb.rate_nonneg
  have hcapacity : 0 ≤ b.capacity := hb.tokens_nonneg.trans hb.tokens_le
  have hcast : (s : ℚ) ≤ t := by exact_mod_cast hst
  have hwindow : 0 ≤ b.rate * (((t : ℚ) - s) / 10 ^ 9) :=
    mul_nonneg hrate (div_nonneg (sub_nonneg.mpr hcast) (by positivity))
  have hmicro : 0 ≤ b.rate / 10 ^ 6 := by positivity
  -- Induction on the calls, up to the first one in the window.
  induction calls generalizing b with
  | nil =>
      rw [granted]
      linarith
  | cons call calls ih =>
      obtain ⟨hafter, hnonneg, -⟩ := h.head
      obtain ⟨hb', hrate', hcapacity', hlast, -⟩ := consume_spec hb hafter hnonneg
      by_cases hover : t < call.1
      -- the window is over
      · rw [granted_cons_of_over h hover]
        linarith
      · by_cases hbefore : call.1 < s
        · -- before the window
          have hrest := ih hb' (h.tail hb) (by rwa [hrate']) (by rwa [hcapacity'])
            (by rwa [hrate']) (by rwa [hrate'])
          rw [granted, if_neg (fun hin => absurd hin.1 (not_le.mpr hbefore)), zero_add]
          rwa [hrate', hcapacity'] at hrest
        · -- the first call of the window finds a bucket refilled up to its time
          have hin := not_lt.mp hover
          obtain ⟨hfilled, hratef, hcapacityf, -, -, hlate⟩ := refill_spec hb hafter
          have hrest := granted_le_level (s := s) hb' (h.tail hb) (hlast.trans hin)
          have hs : b.rate * ((s : ℚ) / 10 ^ 9) ≤ b.rate * (call.1 / 10 ^ 9) := by
            have hcast' : (s : ℚ) ≤ call.1 := by exact_mod_cast not_lt.mp hbefore
            gcongr
          have hfull := hfilled.tokens_le
          have hsplit : b.rate * (((t : ℚ) - s) / 10 ^ 9)
              = b.rate * (t / 10 ^ 9) - b.rate * (s / 10 ^ 9) := by ring
          rw [hrate', consume_level, level, hratef] at hrest
          rw [granted, if_pos ⟨not_lt.mp hbefore, hin⟩, hsplit]
          rw [hcapacityf] at hfull
          linarith

/-- **The rate bound.** The tokens stay between zero and the capacity at every point of a run, and
in every window the calls are granted no more than the capacity and what the rate brings in the time
of the window and one microsecond. -/
theorem rate_bound {rate capacity : ℚ} (hrate : 0 ≤ rate) (hcapacity : 0 ≤ capacity) (created : ℤ)
    (calls : List (ℤ × ℚ)) (hsorted : (created :: calls.map Prod.fst).Pairwise (· ≤ ·))
    (hnonneg : ∀ call ∈ calls, 0 ≤ call.2) :
    (∀ calls', calls' <+: calls →
      0 ≤ ((create rate capacity created).run calls').tokens ∧
        ((create rate capacity created).run calls').tokens ≤ capacity) ∧
    ∀ s t : ℤ, s ≤ t →
      granted s t (create rate capacity created) calls
        ≤ capacity + rate * ((t - s) / 10 ^ 9) + rate / 10 ^ 6 := by
  have hb := bounded_create hrate hcapacity created
  have horder : (create rate capacity created).Ordered calls := by
    rw [List.pairwise_cons] at hsorted
    exact ⟨fun call hcall => hsorted.1 _ (List.mem_map_of_mem hcall), hsorted.2, hnonneg⟩
  refine ⟨?_, fun s t hst => granted_le hb horder hst⟩
  rintro calls' ⟨rest, rfl⟩
  have hpart : (create rate capacity created).Ordered calls' := by
    refine ⟨fun call hcall => horder.after call (List.mem_append_left _ hcall), ?_,
      fun call hcall => hnonneg call (List.mem_append_left _ hcall)⟩
    have hboth := horder.sorted
    rw [List.map_append] at hboth
    exact (List.pairwise_append.mp hboth).1
  obtain ⟨hrun, hsame⟩ := bounded_run hb hpart
  exact ⟨hrun.tokens_nonneg, hrun.tokens_le.trans hsame.le⟩

/-- A burst of two, then nothing until the rate has brought one token: three in little over a second
where two and one are allowed. -/
theorem rate_bound_burst :
    granted 0 1000000000 (create 1 2 0) [(0, 1), (0, 1), (0, 1), (1000000000, 1)] = 3 ∧
      granted 0 1000000000 (create 1 2 0) [(0, 1), (0, 1), (0, 1), (1000000000, 1)]
        ≤ 2 + 1 * (((1000000000 : ℤ) - (0 : ℤ)) / 10 ^ 9) + 1 / 10 ^ 6 := by
  refine ⟨by decide +kernel, ?_⟩
  exact (rate_bound zero_le_one zero_le_two 0 [(0, 1), (0, 1), (0, 1), (1000000000, 1)]
    (by decide) (by decide)).2 0 1000000000 (by decide)

end TokenBucket

end NetworkLib
