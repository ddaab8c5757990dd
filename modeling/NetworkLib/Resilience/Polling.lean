import NetworkLib.Resilience.TokenBucket
import NetworkLib.Theory.Keyed
import NetworkLib.Theory.Trace

/-! # Refused calls of the token bucket

What the calls that a bucket refuses do to the others. Every refill credits the whole microseconds
since the last one and drops the rest, so that it matters who makes the refills. A run is compared
with the one in which refused calls have not been made: the two buckets go along as long as no call
comes within less than a microsecond of a refill that a refused call has made, and the bucket of the
shorter run has never less in it (`Ahead`); they are the same but for the refills that are still to
be made if the refused calls drop nothing (`Level`). -/

namespace NetworkLib.TokenBucket

/-- `Consume` as a request with an answer. -/
def serve (b : TokenBucket) (call : ℤ × ℚ) : TokenBucket × Bool := b.consume call.1 call.2

/-- `Refill` adds something when the clock shows `now`: a microsecond has passed, and the rate is
positive. -/
def Refills (b : TokenBucket) (now : ℤ) : Prop := 0 < b.rate ∧ 1000 ≤ now - b.lastRefill

instance (b : TokenBucket) (now : ℤ) : Decidable (b.Refills now) :=
  inferInstanceAs (Decidable (_ ∧ _))

/-- The tokens for the whole microseconds since the last refill. -/
def credit (b : TokenBucket) (now : ℤ) : ℚ := ((now - b.lastRefill) / 1000 : ℤ) * b.rate / 1000000

/-- There are not enough tokens for a call. -/
def Refuses (b : TokenBucket) (call : ℤ × ℚ) : Prop := (b.refill call.1).tokens < call.2

instance (b : TokenBucket) (call : ℤ × ℚ) : Decidable (b.Refuses call) :=
  inferInstanceAs (Decidable (_ < _))

/-- A bucket that is watched: whether the last refill was made by a call that has been refused. -/
def watch (p : TokenBucket × Bool) (call : ℤ × ℚ) : TokenBucket × Bool :=
  ((p.1.serve call).1, decide (p.1.Refuses call) && (p.2 || decide (p.1.Refills call.1)))

/-- A call does not come within a fraction of a microsecond of a refill that a refused call has
made. -/
def InTime (p : TokenBucket × Bool) (call : ℤ × ℚ) : Prop :=
  p.2 = true → p.1.Refills call.1 ∨ call.1 = p.1.lastRefill

instance (p : TokenBucket × Bool) (call : ℤ × ℚ) : Decidable (InTime p call) :=
  inferInstanceAs (Decidable (_ → _))

/-- A refused call that refills the bucket drops nothing: it comes a whole number of microseconds
after the last refill, or it leaves the bucket full. -/
def Lossless (p : TokenBucket × Bool) (call : ℤ × ℚ) : Prop :=
  p.1.Refuses call → p.1.Refills call.1 →
    1000 ∣ call.1 - p.1.lastRefill ∨ (p.1.refill call.1).tokens = p.1.capacity

instance (p : TokenBucket × Bool) (call : ℤ × ℚ) : Decidable (Lossless p call) :=
  inferInstanceAs (Decidable (_ → _ → _))

/-- The calls of a transcript that were granted. -/
def survivors (entries : List ((ℤ × ℚ) × Bool)) : List (ℤ × ℚ) :=
  (entries.filter fun entry => entry.2).map Prod.fst

/-- Some entries of a transcript, without some of the refused ones. -/
inductive Thinned {α : Type*} : List (α × Bool) → List (α × Bool) → Prop where
  | nil : Thinned [] []
  | keep {entries entries' : List (α × Bool)} (entry : α × Bool) :
      Thinned entries entries' → Thinned (entry :: entries) (entry :: entries')
  | delete {entries entries' : List (α × Bool)} (call : α) :
      Thinned entries entries' → Thinned ((call, false) :: entries) entries'

variable {b b' : TokenBucket} {now now' : ℤ} {call : ℤ × ℚ} {calls : List (ℤ × ℚ)}

/-! ## A refill -/

/-- **What a refill does.** -/
theorem refill_eq (h : b.lastRefill ≤ now) :
    b.refill now = if b.Refills now then
      { b with tokens := min b.capacity (b.tokens + b.credit now), lastRefill := now } else b := by
  have hduration : (now - b.lastRefill).tdiv 1000 = (now - b.lastRefill) / 1000 :=
    Int.tdiv_eq_ediv_of_nonneg (sub_nonneg.mpr h)
  -- tokens are added exactly when the rate is positive and a whole microsecond has passed
  have hpos : 0 < b.credit now ↔ b.Refills now := by
    have hcast : (0 : ℚ) ≤ ((now - b.lastRefill) / 1000 : ℤ) := by
      exact_mod_cast Int.ediv_nonneg (sub_nonneg.mpr h) (by decide)
    rw [credit, Refills, div_pos_iff_of_pos_right (by norm_num)]
    constructor
    · intro hmul
      have hne : (0 : ℚ) < ((now - b.lastRefill) / 1000 : ℤ) := by
        rcases hcast.eq_or_lt with hzero | hlt
        · rw [← hzero, zero_mul] at hmul
          exact absurd hmul (lt_irrefl 0)
        · exact hlt
      refine ⟨(pos_iff_pos_of_mul_pos hmul).mp hne, ?_⟩
      have hone : 0 < (now - b.lastRefill) / 1000 := by exact_mod_cast hne
      omega
    · rintro ⟨hrate, helapsed⟩
      have hone : (0 : ℚ) < ((now - b.lastRefill) / 1000 : ℤ) := by
        have hint : 0 < (now - b.lastRefill) / 1000 := by omega
        exact_mod_cast hint
      exact mul_pos hone hrate
  simp only [refill, hduration]
  change (if 0 < b.credit now then _ else b) = _
  by_cases hrefills : b.Refills now
  · rw [if_pos (hpos.mpr hrefills), if_pos hrefills]
    rfl
  · rw [if_neg (fun ht => hrefills (hpos.mp ht)), if_neg hrefills]

/-- A refill adds the credit, up to the capacity. -/
theorem refill_of_refills (h : b.Refills now) :
    b.refill now =
      { b with tokens := min b.capacity (b.tokens + b.credit now), lastRefill := now } := by
  have hle : b.lastRefill ≤ now := by
    have := h.2
    omega
  rw [refill_eq hle, if_pos h]

/-- Too early a refill adds nothing. -/
theorem refill_of_not_refills (hle : b.lastRefill ≤ now) (h : ¬ b.Refills now) :
    b.refill now = b := by
  rw [refill_eq hle, if_neg h]

/-- What is credited up to `now` is no less than what is credited up to a refill between, and from
then on; and no more, if the refill comes after whole microseconds. -/
theorem credit_add_le (hrate : 0 ≤ b.rate) (now now' : ℤ) :
    b.credit now + credit { b with lastRefill := now } now' ≤ b.credit now' ∧
      (1000 ∣ now - b.lastRefill →
        b.credit now + credit { b with lastRefill := now } now' = b.credit now') := by
  have hsum : b.credit now + credit { b with lastRefill := now } now'
      = (((now - b.lastRefill) / 1000 + (now' - now) / 1000 : ℤ) : ℚ) * (b.rate / 1000000) := by
    rw [credit, credit]
    push_cast
    ring
  have hall : b.credit now' = (((now' - b.lastRefill) / 1000 : ℤ) : ℚ) * (b.rate / 1000000) := by
    rw [credit]
    ring
  rw [hsum, hall]
  constructor
  · apply mul_le_mul_of_nonneg_right _ (by positivity)
    exact_mod_cast (by omega :
      (now - b.lastRefill) / 1000 + (now' - now) / 1000 ≤ (now' - b.lastRefill) / 1000)
  · intro hwhole
    congr 2
    omega

/-- A bucket with no more in it than another that is the same otherwise. -/
structure Poorer (b b' : TokenBucket) : Prop where
  rate : b.rate = b'.rate
  capacity : b.capacity = b'.capacity
  lastRefill : b.lastRefill = b'.lastRefill
  tokens : b.tokens ≤ b'.tokens

/-- A bucket poorer than a poorer one. -/
theorem Poorer.trans {b'' : TokenBucket} (h : b.Poorer b') (h' : b'.Poorer b'') : b.Poorer b'' :=
  ⟨h.rate.trans h'.rate, h.capacity.trans h'.capacity, h.lastRefill.trans h'.lastRefill,
    h.tokens.trans h'.tokens⟩

/-- A refill keeps the order. -/
theorem Poorer.refill (h : b.Poorer b') (hle : b.lastRefill ≤ now) :
    (b.refill now).Poorer (b'.refill now) := by
  have hcredit : b.credit now = b'.credit now := by rw [credit, credit, h.rate, h.lastRefill]
  have hiff : b.Refills now ↔ b'.Refills now := by rw [Refills, Refills, h.rate, h.lastRefill]
  by_cases hrefills : b.Refills now
  · rw [refill_of_refills hrefills, refill_of_refills (hiff.mp hrefills)]
    refine ⟨h.rate, h.capacity, rfl, ?_⟩
    rw [h.capacity, hcredit]
    exact min_le_min_left _ (add_le_add_left h.tokens _)
  · rw [refill_of_not_refills hle hrefills,
      refill_of_not_refills (h.lastRefill ▸ hle) (fun ht => hrefills (hiff.mpr ht))]
    exact h

/-- No time takes credit away. -/
theorem credit_nonneg (hrate : 0 ≤ b.rate) (h : b.lastRefill ≤ now) : 0 ≤ b.credit now := by
  have hint : (0 : ℚ) ≤ ((now - b.lastRefill) / 1000 : ℤ) := by
    exact_mod_cast Int.ediv_nonneg (sub_nonneg.mpr h) (by decide)
  rw [credit]
  positivity

/-- What has been cut to the capacity before it is added to, and is cut again, may be cut once. -/
theorem min_min_add {capacity x c : ℚ} (hc : 0 ≤ c) :
    min capacity (min capacity x + c) = min capacity (x + c) := by
  rcases le_total x capacity with h | h
  · rw [min_eq_right h]
  · rw [min_eq_left h, min_eq_left (le_add_of_nonneg_right hc),
      min_eq_left (h.trans (le_add_of_nonneg_right hc))]

/-- A refill just after a refill does nothing. -/
theorem refill_refill_self (h : b.Refills now) : (b.refill now).refill now = b.refill now := by
  have hlast : (b.refill now).lastRefill = now := by rw [refill_of_refills h]
  apply refill_of_not_refills hlast.le
  intro hagain
  have helapsed := hagain.2
  rw [hlast] at helapsed
  omega

/-- **A refill between two others takes nothing off the bucket's time but what it drops.** -/
theorem refill_refill (h : b.Refills now) (hlater : (b.refill now).Refills now') :
    ((b.refill now).refill now').Poorer (b.refill now') ∧
      (1000 ∣ now - b.lastRefill ∨ (b.refill now).tokens = b.capacity →
        (b.refill now).refill now' = b.refill now') := by
  have hfirst := refill_of_refills h
  have helapsed : 1000 ≤ now' - now := by
    have hlong := hlater.2
    rw [hfirst] at hlong
    exact hlong
  have hall : b.Refills now' := ⟨h.1, by have := h.2; omega⟩
  obtain ⟨hadd, hexact⟩ := credit_add_le h.1.le now now'
  have hmore : 0 ≤ credit { b with lastRefill := now } now' :=
    credit_nonneg (b := { b with lastRefill := now }) h.1.le (by change now ≤ now'; omega)
  -- the second credit does not depend on the tokens
  have hcredit : (b.refill now).credit now' = credit { b with lastRefill := now } now' := by
    rw [hfirst]
    rfl
  have htokens : (b.refill now).tokens = min b.capacity (b.tokens + b.credit now) := by rw [hfirst]
  have hsecond : (b.refill now).refill now' = { b with
      tokens := min b.capacity (b.tokens + b.credit now + credit { b with lastRefill := now } now')
      lastRefill := now' } := by
    rw [refill_of_refills hlater, hcredit, htokens, hfirst, min_min_add hmore]
  rw [hsecond, refill_of_refills hall]
  refine ⟨⟨rfl, rfl, rfl, min_le_min_left _ (by linarith)⟩, ?_⟩
  rintro (hwhole | hfull)
  · rw [add_assoc, hexact hwhole]
  · rw [htokens, min_eq_left_iff] at hfull
    rw [min_eq_left (by linarith), min_eq_left (by linarith)]

/-! ## A call -/

/-- A refused call takes no tokens. -/
theorem serve_of_refuses (h : b.Refuses call) : b.serve call = (b.refill call.1, false) :=
  if_neg (not_le.mpr h)

/-- Another call takes what it asks for. -/
theorem serve_of_not_refuses (h : ¬ b.Refuses call) :
    b.serve call =
      ({ b.refill call.1 with tokens := (b.refill call.1).tokens - call.2 }, true) :=
  if_pos (not_lt.mp h)

/-- What a richer bucket does with a call that the poorer one grants. -/
theorem Poorer.serve (h : (b.refill call.1).Poorer (b'.refill call.1)) (hgrant : ¬ b.Refuses call) :
    ¬ b'.Refuses call ∧ (b.serve call).1.Poorer (b'.serve call).1 := by
  have hgrant' : ¬ b'.Refuses call := fun ht => hgrant (h.tokens.trans_lt ht)
  refine ⟨hgrant', ?_⟩
  rw [serve_of_not_refuses hgrant, serve_of_not_refuses hgrant']
  exact ⟨h.rate, h.capacity, h.lastRefill, sub_le_sub_right h.tokens _⟩

/-- No call takes the last refill past its own time. -/
theorem serve_lastRefill_le (h : b.lastRefill ≤ call.1) : (b.serve call).1.lastRefill ≤ call.1 := by
  have hrefill : (b.refill call.1).lastRefill ≤ call.1 := by
    rw [refill_eq h]
    split
    · exact le_rfl
    · exact h
  by_cases hrefuse : b.Refuses call
  · rw [serve_of_refuses hrefuse]
    exact hrefill
  · rw [serve_of_not_refuses hrefuse]
    exact hrefill

/-! ## A bucket without the refused calls -/

/-- **How a watched bucket stands to one that has not had its refused calls**: it has no more in it,
and its last refill, if a refused call has made it, the other has still to make. -/
structure Ahead (p : TokenBucket × Bool) (b' : TokenBucket) : Prop where
  same : p.2 = false → p.1.Poorer b'
  polled : p.2 = true → b'.Refills p.1.lastRefill ∧ p.1.Poorer (b'.refill p.1.lastRefill)

variable {p : TokenBucket × Bool}

/-- A call in time finds the watched bucket with no more in it than the other. -/
theorem Ahead.refill (h : Ahead p b') (hle : p.1.lastRefill ≤ now)
    (hnow : p.2 = true → p.1.Refills now ∨ now = p.1.lastRefill) :
    (p.1.refill now).Poorer (b'.refill now) := by
  cases hp : p.2 with
  | false => exact (h.same hp).refill hle
  | true =>
      obtain ⟨hrefills, hpoorer⟩ := h.polled hp
      apply (hpoorer.refill hle).trans
      rcases hnow hp with hlater | hself
      · have hagain : (b'.refill p.1.lastRefill).Refills now := by
          rw [Refills, ← hpoorer.rate, ← hpoorer.lastRefill]
          exact hlater
        exact (refill_refill hrefills hagain).1
      · rw [hself, refill_refill_self hrefills]
        exact ⟨rfl, rfl, rfl, le_rfl⟩

/-- A refused call leaves the bucket ahead of the other, which does not have it. -/
theorem Ahead.refused (h : Ahead p b') (hle : p.1.lastRefill ≤ call.1) (hrefuse : p.1.Refuses call) :
    Ahead (watch p call) b' := by
  by_cases hrefills : p.1.Refills call.1
  · have hwatch : watch p call = (p.1.refill call.1, true) := by
      rw [watch, serve_of_refuses hrefuse, decide_eq_true hrefuse, decide_eq_true hrefills,
        Bool.or_true, Bool.and_true]
    have hlast : (p.1.refill call.1).lastRefill = call.1 := by rw [refill_of_refills hrefills]
    rw [hwatch]
    refine ⟨fun hfalse => Bool.noConfusion hfalse, fun _ => ?_⟩
    rw [hlast]
    refine ⟨?_, h.refill hle fun _ => .inl hrefills⟩
    -- the other bucket was refilled no later
    cases hp : p.2 with
    | false =>
        have hpoorer := h.same hp
        rw [Refills, ← hpoorer.rate, ← hpoorer.lastRefill]
        exact hrefills
    | true =>
        have hlong := (h.polled hp).1
        exact ⟨hlong.1, by have := hlong.2; have := hrefills.2; omega⟩
  · have hwatch : watch p call = p := by
      rw [watch, serve_of_refuses hrefuse, refill_of_not_refills hle hrefills,
        decide_eq_true hrefuse, decide_eq_false hrefills, Bool.or_false, Bool.true_and]
    rw [hwatch]
    exact h

/-- A granted call in time is granted by both. -/
theorem Ahead.granted (h : Ahead p b') (hle : p.1.lastRefill ≤ call.1) (htime : InTime p call)
    (hgrant : ¬ p.1.Refuses call) :
    ¬ b'.Refuses call ∧ Ahead (watch p call) (b'.serve call).1 := by
  obtain ⟨hgrant', hpoorer⟩ := Poorer.serve (h.refill hle htime) hgrant
  refine ⟨hgrant', ⟨fun _ => hpoorer, fun htrue => ?_⟩⟩
  rw [watch, decide_eq_false hgrant, Bool.false_and] at htrue
  cases htrue

/-- **Without the refused calls the others are granted.** -/
theorem transcript_survivors (h : Ahead p b') (hafter : ∀ call ∈ calls, p.1.lastRefill ≤ call.1)
    (hsorted : (calls.map Prod.fst).Pairwise (· ≤ ·))
    (htime : Trace.Always watch (fun p call => ¬ p.1.Refuses call → InTime p call) p calls) :
    Keyed.transcript serve b' (survivors (Keyed.transcript serve p.1 calls))
      = (Keyed.transcript serve p.1 calls).filter fun entry => entry.2 := by
  induction calls generalizing p b' with
  | nil => rfl
  | cons call calls ih =>
      have hle := hafter call List.mem_cons_self
      have hafter' : ∀ call' ∈ calls, (watch p call).1.lastRefill ≤ call'.1 := by
        intro call' hcall'
        exact (serve_lastRefill_le hle).trans
          (List.rel_of_pairwise_cons hsorted (List.mem_map_of_mem hcall'))
      have hrest := (List.pairwise_cons.mp hsorted).2
      by_cases hrefuse : p.1.Refuses call
      · have hanswer : (p.1.serve call).2 = false := by rw [serve_of_refuses hrefuse]
        rw [Keyed.transcript_cons, survivors, List.filter_cons, hanswer]
        exact ih (p := watch p call) (h.refused hle hrefuse) hafter' hrest htime.2
      · obtain ⟨hgrant', hnext⟩ := h.granted hle (htime.1 hrefuse) hrefuse
        have hanswer : (p.1.serve call).2 = true := by rw [serve_of_not_refuses hrefuse]
        have hanswer' : (b'.serve call).2 = true := by rw [serve_of_not_refuses hgrant']
        rw [Keyed.transcript_cons, survivors, List.filter_cons, hanswer]
        change (call, (b'.serve call).2) :: Keyed.transcript serve (b'.serve call).1 _ = _
        rw [hanswer']
        exact congrArg ((call, true) :: ·) (ih (p := watch p call) hnext hafter' hrest htime.2)

/-- **How a watched bucket stands to one that has not had some of its refused calls**, when those
drop nothing: they are the same, or they are so once the other has made the refill that a refused
call has made. -/
def Level (p : TokenBucket × Bool) (b' : TokenBucket) : Prop :=
  p.1 = b' ∨ p.2 = true ∧ ∃ now, b'.Refills now ∧ p.1 = b'.refill now ∧
    (1000 ∣ now - b'.lastRefill ∨ (b'.refill now).tokens = b'.capacity)

/-- A call in time finds the two buckets the same. -/
theorem Level.refill (h : Level p b') (htime : InTime p call) :
    p.1.refill call.1 = b'.refill call.1 := by
  rcases h with hsame | ⟨hp, now, hrefills, hsame, hwhole⟩
  · rw [hsame]
  · have hlast : p.1.lastRefill = now := by rw [hsame, refill_of_refills hrefills]
    rcases htime hp with hlater | hself
    · rw [hsame] at hlater ⊢
      exact (refill_refill hrefills hlater).2 hwhole
    · rw [hself, hlast, hsame, refill_refill_self hrefills]

/-- A refused call that drops nothing leaves the bucket level with the other, which does not have
it. -/
theorem Level.refused (h : Level p b') (hle : p.1.lastRefill ≤ call.1) (hrefuse : p.1.Refuses call)
    (hlossless : Lossless p call) : Level (watch p call) b' := by
  -- A refused call moves the bucket only if it refills.
  by_cases hrefills : p.1.Refills call.1
  · have hwatch : watch p call = (p.1.refill call.1, true) := by
      rw [watch, serve_of_refuses hrefuse, decide_eq_true hrefuse, decide_eq_true hrefills,
        Bool.or_true, Bool.and_true]
    have hwhole' := hlossless hrefuse hrefills
    rw [hwatch]
    rcases h with hsame | ⟨-, now, hbefore, hsame, hwhole⟩
    · rw [hsame] at hrefills hwhole' ⊢
      exact .inr ⟨rfl, call.1, hrefills, rfl, hwhole'⟩
    · -- two refills by refused calls are one that the other bucket has to make
      have hlast : p.1.lastRefill = now := by rw [hsame, refill_of_refills hbefore]
      have hcapacity : p.1.capacity = b'.capacity := by rw [hsame, refill_of_refills hbefore]
      have hrate : p.1.rate = b'.rate := by rw [hsame, refill_of_refills hbefore]
      have hlong := hbefore.2
      have hlonger := hrefills.2
      have hlater := hrefills
      rw [hsame] at hlater
      have hmerged : p.1.refill call.1 = b'.refill call.1 := by
        rw [hsame]
        exact (refill_refill hbefore hlater).2 hwhole
      refine .inr ⟨rfl, call.1, ⟨hbefore.1, by omega⟩, hmerged, ?_⟩
      rcases hwhole' with hwhole' | hfull
      · rcases hwhole with hwhole | hfull
        · left
          rw [hlast] at hwhole'
          have hsum := Int.dvd_add hwhole hwhole'
          rwa [add_comm, sub_add_sub_cancel] at hsum
        · right
          have htokens : p.1.tokens = p.1.capacity := by rw [hcapacity, ← hfull, hsame]
          have hmore := credit_nonneg (b := p.1) hrefills.1.le hle
          rw [← hmerged, refill_of_refills hrefills, ← hcapacity]
          exact min_eq_left (by linarith)
      · right
        rw [← hmerged, hfull, hcapacity]
  · have hwatch : watch p call = p := by
      rw [watch, serve_of_refuses hrefuse, refill_of_not_refills hle hrefills,
        decide_eq_true hrefuse, decide_eq_false hrefills, Bool.or_false, Bool.true_and]
    rw [hwatch]
    exact h

/-- Buckets that a refill makes the same serve a call in the same way. -/
theorem serve_eq_of_refill (h : b.refill call.1 = b'.refill call.1) : b.serve call = b'.serve call := by
  simp only [serve, consume, h]

/-- **Without any of the refused calls all others are answered as before.** -/
theorem transcript_thinned (h : Level p b') (hafter : ∀ call ∈ calls, p.1.lastRefill ≤ call.1)
    (hsorted : (calls.map Prod.fst).Pairwise (· ≤ ·))
    (hmeets : Trace.Always watch (fun p call => InTime p call ∧ Lossless p call) p calls)
    {entries : List ((ℤ × ℚ) × Bool)}
    (hthinned : Thinned (Keyed.transcript serve p.1 calls) entries) :
    Keyed.transcript serve b' (entries.map Prod.fst) = entries := by
  -- Induction on the calls: one that is kept brings both buckets together, one that is left out
  -- moves only the first.
  induction calls generalizing p b' entries with
  | nil =>
      cases hthinned
      rfl
  | cons call calls ih =>
      have hle := hafter call List.mem_cons_self
      have hafter' : ∀ call' ∈ calls, (watch p call).1.lastRefill ≤ call'.1 := by
        intro call' hcall'
        exact (serve_lastRefill_le hle).trans
          (List.rel_of_pairwise_cons hsorted (List.mem_map_of_mem hcall'))
      have hrest := (List.pairwise_cons.mp hsorted).2
      obtain ⟨⟨htime, hlossless⟩, hmeets'⟩ := hmeets
      rw [Keyed.transcript_cons] at hthinned
      generalize hanswer : (p.1.serve call).2 = answer at hthinned
      cases hthinned with
      | keep entry hthinned =>
          have hserve := serve_eq_of_refill (h.refill htime)
          rw [List.map_cons, Keyed.transcript_cons, ← hserve, hanswer]
          exact congrArg ((call, answer) :: ·)
            (ih (p := watch p call) (.inl rfl) hafter' hrest hmeets' hthinned)
      | delete _ hthinned =>
          have hrefuse : p.1.Refuses call := by
            by_contra hgrant
            rw [serve_of_not_refuses hgrant] at hanswer
            cases hanswer
          exact ih (p := watch p call) (h.refused hle hrefuse hlossless) hafter' hrest hmeets' hthinned

/-- **What deleting refused calls does to the others.** Where no granted call comes within a
fraction of a microsecond of a refill that a refused call has made, the granted calls are still
granted when all refused ones are deleted. Where that holds of all calls, and the refused ones that
refill the bucket drop nothing, any of the refused calls can be deleted, and all that are left are
answered as before. -/
theorem refused_calls_harmless (rate capacity : ℚ) (created : ℤ) (calls : List (ℤ × ℚ))
    (hsorted : (created :: calls.map Prod.fst).Pairwise (· ≤ ·)) :
    (Trace.Always watch (fun p call => ¬ p.1.Refuses call → InTime p call)
        (create rate capacity created, false) calls →
      Keyed.transcript serve (create rate capacity created)
          (survivors (Keyed.transcript serve (create rate capacity created) calls))
        = (Keyed.transcript serve (create rate capacity created) calls).filter fun entry => entry.2) ∧
    (Trace.Always watch (fun p call => InTime p call ∧ Lossless p call)
        (create rate capacity created, false) calls →
      ∀ entries, Thinned (Keyed.transcript serve (create rate capacity created) calls) entries →
        Keyed.transcript serve (create rate capacity created) (entries.map Prod.fst) = entries) := by
  obtain ⟨hcreated, hsorted⟩ := List.pairwise_cons.mp hsorted
  have hafter : ∀ call ∈ calls, (create rate capacity created).lastRefill ≤ call.1 := by
    intro call hcall
    exact hcreated call.1 (List.mem_map_of_mem hcall)
  constructor
  · intro htime
    refine transcript_survivors (p := (create rate capacity created, false)) ?_ hafter hsorted htime
    exact ⟨fun _ => ⟨rfl, rfl, rfl, le_rfl⟩, fun htrue => Bool.noConfusion htrue⟩
  · intro hmeets entries hthinned
    exact transcript_thinned (p := (create rate capacity created, false)) (.inl rfl) hafter hsorted
      hmeets hthinned

/-- A token per second: the call after half a second is refused, and the one after a second granted,
whether or not the refused one has been made. -/
theorem refused_calls_harmless_half_second :
    survivors (Keyed.transcript serve (create 1 1 0) [(0, 1), (500000000, 1), (1000000000, 1)])
        = [(0, 1), (1000000000, 1)] ∧
      Keyed.transcript serve (create 1 1 0) [(0, 1), (1000000000, 1)]
        = [((0, 1), true), ((1000000000, 1), true)] := by
  have hsurvivors : survivors (Keyed.transcript serve (create 1 1 0)
      [(0, 1), (500000000, 1), (1000000000, 1)]) = [(0, 1), (1000000000, 1)] := by decide +kernel
  have hmeets : Trace.Always watch (fun p call => InTime p call ∧ Lossless p call)
      (create 1 1 0, false) [(0, 1), (500000000, 1), (1000000000, 1)] := by
    refine ⟨?_, ?_, ?_, trivial⟩
    all_goals decide +kernel
  have hall := refused_calls_harmless 1 1 0 [(0, 1), (500000000, 1), (1000000000, 1)] (by decide)
  have hrun : Keyed.transcript serve (create 1 1 0) [(0, 1), (500000000, 1), (1000000000, 1)]
      = [((0, 1), true), ((500000000, 1), false), ((1000000000, 1), true)] := by decide +kernel
  rw [hrun] at hall
  exact ⟨hsurvivors, hall.2 hmeets [((0, 1), true), ((1000000000, 1), true)]
    (((Thinned.nil.keep _).delete _).keep _)⟩

/-- **Refused calls do matter.** At a token per microsecond a refused call after one microsecond has
the bucket refilled on time; without it the call after 1.9 microseconds drops the 0.9, and the last
one, which was granted, is refused. At a token per second a refused call after 1.999 microseconds
drops the 0.999, and the call after a second, which would be granted without it, is refused. -/
theorem refused_call_matters :
    Keyed.transcript serve (create 1000000 5 0)
        (survivors (Keyed.transcript serve (create 1000000 5 0)
          [(0, 5), (1000, 5), (1900, 1), (2000, 1)]))
      ≠ (Keyed.transcript serve (create 1000000 5 0)
          [(0, 5), (1000, 5), (1900, 1), (2000, 1)]).filter (fun entry => entry.2) ∧
    (Keyed.transcript serve (create 1 1 0) [(0, 1), (1999, 1), (1000000000, 1)]).map Prod.snd
      = [true, false, false] ∧
    (Keyed.transcript serve (create 1 1 0) [(0, 1), (1000000000, 1)]).map Prod.snd
      = [true, true] := by
  refine ⟨?_, ?_, ?_⟩
  all_goals decide +kernel

end NetworkLib.TokenBucket
