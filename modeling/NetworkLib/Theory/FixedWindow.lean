import NetworkLib.Theory.Keyed
import Mathlib.Tactic

/-! # Counting in fixed windows

A counter that admits no more than `limit` requests, and that starts again from zero, at the time of
the request, with the first request that comes `w` or more after it has last started. The times are
those of any ordered group.

Within a half-open interval of length `w` the counter starts again at most once, and it admits no
more than `limit` requests before and after that (`admitted_le`). -/

namespace NetworkLib.FixedWindow

variable {T : Type*} [AddCommGroup T] [LinearOrder T]

/-- The requests admitted since the counter last started, and when that was. -/
structure Counter (T : Type*) where
  count : ℤ := 0
  start : T

/-- The counter is to start again. -/
def Due (w : T) (c : Counter T) (now : T) : Prop := w ≤ now - c.start

instance (w : T) (c : Counter T) (now : T) : Decidable (Due w c now) :=
  inferInstanceAs (Decidable (_ ≤ _))

/-- The counter admits a request if the limit has not been reached. -/
def offer (limit : ℤ) (c : Counter T) : Counter T × Bool :=
  if limit ≤ c.count then (c, false) else ({ c with count := c.count + 1 }, true)

/-- The counter as it serves a request: started again if that is due. -/
def current (w : T) (c : Counter T) (now : T) : Counter T :=
  if Due w c now then { count := 0, start := now } else c

/-- The answer to a request. -/
structure Answer where
  admitted : Bool
  /-- The counter has started again for it. -/
  restarted : Bool
  deriving DecidableEq

/-- The counter serves a request. -/
def serve (w : T) (limit : ℤ) (c : Counter T) (now : T) : Counter T × Answer :=
  ((offer limit (current w c now)).1,
    ⟨(offer limit (current w c now)).2, decide (Due w c now)⟩)

/-- The time is in the half-open interval of length `w` from `s` on. -/
def Within (w s t : T) : Prop := s ≤ t ∧ t < s + w

instance (w s t : T) : Decidable (Within w s t) := inferInstanceAs (Decidable (_ ∧ _))

/-- How many of the requests in an interval have an answer that `p` holds of. -/
def countIn (p : Answer → Bool) (w s : T) (entries : List (T × Answer)) : ℕ :=
  entries.countP fun entry => decide (Within w s entry.1) && p entry.2

variable {w s now : T} {limit : ℤ} {c : Counter T} {calls : List T} {p : Answer → Bool}

/-! ## One request -/

omit [AddCommGroup T] [LinearOrder T] in
/-- An offer leaves the start of the window. -/
theorem offer_start (limit : ℤ) (c : Counter T) : (offer limit c).1.start = c.start := by
  rw [offer]
  split <;> rfl

omit [AddCommGroup T] [LinearOrder T] in
/-- What is admitted is counted. -/
theorem offer_count (limit : ℤ) (c : Counter T) :
    (offer limit c).1.count = c.count + (offer limit c).2.toNat := by
  rw [offer]
  split
  · exact (add_zero _).symm
  · rfl

omit [AddCommGroup T] [LinearOrder T] in
/-- An offer keeps the count within the limit. -/
theorem offer_count_le (h : c.count ≤ limit) : (offer limit c).1.count ≤ limit := by
  rw [offer]
  split
  · exact h
  · next hfull => exact Int.add_one_le_of_lt (not_le.mp hfull)

/-- So does the start of a new window. -/
theorem current_count_le (hlimit : 0 ≤ limit) (h : c.count ≤ limit) :
    (current w c now).count ≤ limit := by
  rw [current]
  split
  · exact hlimit
  · exact h

/-- A window that is over is replaced by an empty one. -/
theorem current_of_due (h : Due w c now) : current w c now = { count := 0, start := now } := if_pos h

/-- One that is not stays. -/
theorem current_of_not_due (h : ¬ Due w c now) : current w c now = c := if_neg h

/-! ## Runs -/

/-- An entry counts if it stands in the window and has the property. -/
theorem countIn_cons (p : Answer → Bool) (entry : T × Answer) (entries : List (T × Answer)) :
    countIn p w s (entry :: entries)
      = countIn p w s entries + if Within w s entry.1 then (p entry.2).toNat else 0 := by
  rw [countIn, List.countP_cons, ← countIn]
  by_cases h : Within w s entry.1
  · rw [if_pos h, decide_eq_true h, Bool.true_and]
    cases p entry.2 <;> rfl
  · rw [if_neg h, decide_eq_false h, Bool.false_and]
    rfl

/-- Nothing is counted in an interval that is over. -/
theorem countIn_of_over (h : ∀ t ∈ calls, s + w ≤ t) :
    countIn p w s (Keyed.transcript (serve w limit) c calls) = 0 := by
  induction calls generalizing c with
  | nil => rfl
  | cons t calls ih =>
      have hover : ¬ Within w s t := by
        intro hin
        exact absurd hin.2 (not_lt.mpr (h t List.mem_cons_self))
      rw [Keyed.transcript_cons, countIn_cons, if_neg hover]
      exact ih fun t' ht' => h t' (List.mem_cons_of_mem t ht')

/-- Sorted requests that begin behind an interval are all behind it. -/
theorem over_of_sorted {t : T} (hsorted : (t :: calls).Pairwise (· ≤ ·)) (h : s + w ≤ t) :
    ∀ t' ∈ t :: calls, s + w ≤ t' := by
  intro t' ht'
  rcases List.mem_cons.mp ht' with rfl | ht'
  · exact h
  · exact h.trans (List.rel_of_pairwise_cons hsorted ht')

variable [IsOrderedAddMonoid T]

/-- **A counter that has started within the interval** does not start again in it, and admits what
is left of the limit. -/
theorem admitted_add_count_le (hcount : c.count ≤ limit) (hstart : s ≤ c.start)
    (hsorted : calls.Pairwise (· ≤ ·)) :
    countIn Answer.admitted w s (Keyed.transcript (serve w limit) c calls) + c.count ≤ limit ∧
      countIn Answer.restarted w s (Keyed.transcript (serve w limit) c calls) = 0 := by
  -- Induction on the calls: while the span lasts no new window starts.
  induction calls generalizing c with
  | nil => exact ⟨by simpa [countIn] using hcount, rfl⟩
  | cons t calls ih =>
      by_cases hover : s + w ≤ t
      · have hall := over_of_sorted hsorted hover
        rw [countIn_of_over hall, countIn_of_over hall]
        exact ⟨by simpa using hcount, rfl⟩
      -- a window begun in the span is not over before the span is
      · have hsoon : ¬ Due w c t := by
          intro hdue
          apply hover
          calc s + w ≤ c.start + (t - c.start) := add_le_add hstart hdue
            _ = t := add_sub_cancel _ _
        have hserved : (serve w limit c t).1 = (offer limit c).1 := by
          rw [serve, current_of_not_due hsoon]
        have hanswer : (serve w limit c t).2 = ⟨(offer limit c).2, false⟩ := by
          rw [serve, current_of_not_due hsoon, decide_eq_false hsoon]
        have hcounted := offer_count limit c
        obtain ⟨hrest, hnone⟩ := ih (c := (offer limit c).1) (offer_count_le hcount)
          (hstart.trans (offer_start limit c).ge) hsorted.of_cons
        rw [Keyed.transcript_cons, countIn_cons, countIn_cons, hserved, hanswer]
        refine ⟨?_, ?_⟩
        · split
          · push_cast
            omega
          · omega
        · rw [hnone]
          split <;> rfl

/-- **A counter in an interval that has begun** starts again at most once, and admits no more than
the limit before and after that. -/
theorem admitted_add_count_le_of_begun (hlimit : 0 ≤ limit) (hcount : c.count ≤ limit)
    (hsorted : calls.Pairwise (· ≤ ·)) (hbegun : ∀ t ∈ calls, s ≤ t) :
    countIn Answer.admitted w s (Keyed.transcript (serve w limit) c calls) + c.count
        ≤ limit * (1 + countIn Answer.restarted w s (Keyed.transcript (serve w limit) c calls)) ∧
      countIn Answer.restarted w s (Keyed.transcript (serve w limit) c calls) ≤ 1 := by
  -- Induction on the calls: one counter covers them until the first that starts a new one.
  induction calls generalizing c with
  | nil => exact ⟨by simpa [countIn] using hcount, Nat.zero_le _⟩
  | cons t calls ih =>
      by_cases hover : s + w ≤ t
      -- all further calls come after the span
      · have hall := over_of_sorted hsorted hover
        rw [countIn_of_over hall, countIn_of_over hall]
        exact ⟨by simpa using hcount, Nat.zero_le _⟩
      · have hin : Within w s t := ⟨hbegun t List.mem_cons_self, not_le.mp hover⟩
        have hcounted := offer_count limit (current w c t)
        have hle : (offer limit (current w c t)).1.count ≤ limit :=
          offer_count_le (current_count_le hlimit hcount)
        rw [Keyed.transcript_cons, countIn_cons, countIn_cons, if_pos hin, if_pos hin]
        by_cases hdue : Due w c t
        · -- what follows belongs to the counter that starts here
          have hstart : s ≤ (offer limit (current w c t)).1.start := by
            rw [offer_start, current_of_due hdue]
            exact hin.1
          obtain ⟨hrest, hnone⟩ := admitted_add_count_le (w := w) hle hstart hsorted.of_cons
          have hzero : (current w c t).count = 0 := by rw [current_of_due hdue]
          have hanswer : (serve w limit c t).2 = ⟨(offer limit (current w c t)).2, true⟩ := by
            rw [serve, decide_eq_true hdue]
          have honce : countIn Answer.restarted w s
              (Keyed.transcript (serve w limit) (serve w limit c t).1 calls) + true.toNat = 1 :=
            congrArg (· + 1) hnone
          rw [hanswer, honce]
          refine ⟨?_, Nat.le_refl 1⟩
          rw [serve]
          push_cast
          linarith
        · obtain ⟨hrest, hone⟩ := ih (c := (offer limit (current w c t)).1) hle hsorted.of_cons
            fun t' ht' => hbegun t' (List.mem_cons_of_mem t ht')
          have hsame : (current w c t).count = c.count := by rw [current_of_not_due hdue]
          have hanswer : (serve w limit c t).2 = ⟨(offer limit (current w c t)).2, false⟩ := by
            rw [serve, decide_eq_false hdue]
          have hmore : countIn Answer.restarted w s
              (Keyed.transcript (serve w limit) (serve w limit c t).1 calls) + false.toNat
                = countIn Answer.restarted w s
                  (Keyed.transcript (serve w limit) (serve w limit c t).1 calls) := Nat.add_zero _
          rw [hanswer, hmore]
          refine ⟨?_, hone⟩
          rw [serve]
          push_cast
          linarith

/-- **What a fixed window promises for every interval of its length**: the counter starts again at
most once within the interval, and the requests admitted in it are no more than the limit for each
of the windows that the interval meets. -/
theorem admitted_le (hlimit : 0 ≤ limit) (hcount : 0 ≤ c.count ∧ c.count ≤ limit)
    (hsorted : calls.Pairwise (· ≤ ·)) (s : T) :
    (countIn Answer.admitted w s (Keyed.transcript (serve w limit) c calls) : ℤ)
        ≤ limit * (1 + countIn Answer.restarted w s (Keyed.transcript (serve w limit) c calls)) ∧
      countIn Answer.restarted w s (Keyed.transcript (serve w limit) c calls) ≤ 1 := by
  induction calls generalizing c with
  | nil => exact ⟨by simpa [countIn] using hlimit, Nat.zero_le _⟩
  | cons t calls ih =>
      by_cases hbegun : s ≤ t
      · have hall : ∀ t' ∈ t :: calls, s ≤ t' := by
          intro t' ht'
          rcases List.mem_cons.mp ht' with rfl | ht'
          · exact hbegun
          · exact hbegun.trans (List.rel_of_pairwise_cons hsorted ht')
        obtain ⟨hadmitted, hone⟩ :=
          admitted_add_count_le_of_begun (w := w) hlimit hcount.2 hsorted hall
        exact ⟨by linarith [hcount.1], hone⟩
      · -- before the interval
        have hout : ¬ Within w s t := fun hin => hbegun hin.1
        have hnonneg : 0 ≤ (current w c t).count := by
          rw [current]
          split
          · exact le_rfl
          · exact hcount.1
        have hcounted := offer_count limit (current w c t)
        rw [Keyed.transcript_cons, countIn_cons, countIn_cons, if_neg hout, if_neg hout]
        exact ih ⟨by simp only [serve]; omega,
          offer_count_le (current_count_le hlimit hcount.2)⟩ hsorted.of_cons

end NetworkLib.FixedWindow
