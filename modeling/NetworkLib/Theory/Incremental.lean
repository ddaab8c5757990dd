import NetworkLib.Theory.Loop

/-! # Incremental consumers of a growing buffer

A **consumer** takes items off the front of a buffer while it recognises a whole one, and waits
otherwise. Its one law is that recognition is *stable*: an item recognised at the front of a buffer
is recognised in the same way when more bytes follow. From it, feeding a stream in any cutting gives
the state and the unread bytes of feeding it whole, so the cutting is unobservable
(`feedAll_eq_drain`). -/

namespace NetworkLib

open Loop

/-- A **consumer** with state `σ` over a buffer of `α`s. -/
structure Consumer (σ α : Type*) where
  /-- Take one item off the front of the buffer, or wait for more. -/
  next : σ × List α → Option (σ × List α)
  /-- Every item taken lowers the rank. -/
  rank : σ × List α → ℕ
  rank_lt : ∀ {p q}, next p = some q → rank q < rank p
  /-- Recognition does not depend on what follows the item. -/
  next_append : ∀ {s b s' b'} (c : List α), next (s, b) = some (s', b') →
    next (s, b ++ c) = some (s', b' ++ c)

namespace Consumer

variable {σ α : Type*} (C : Consumer σ α)

/-- One turn of the draining loop. -/
def turn (p : σ × List α) : Turn (σ × List α) :=
  match C.next p with
  | none => .leave p
  | some q => .again q

/-- Take items until the consumer waits. -/
def drain (p : σ × List α) : σ × List α := run C.turn C.rank p

variable {C} {p q : σ × List α}

/-- Where nothing can be taken the loop is left. -/
theorem turn_eq_leave (h : C.next p = none) : C.turn p = .leave p := by rw [turn, h]

/-- Where something can it turns once more. -/
theorem turn_eq_again (h : C.next p = some q) : C.turn p = .again q := by rw [turn, h]

/-- It turns once more only where something was taken. -/
theorem next_of_turn_again (h : C.turn p = .again q) : C.next p = some q := by
  unfold turn at h
  split at h
  · cases h
  · cases h; assumption

/-- Each turn brings the end nearer. -/
theorem turn_rank (p q : σ × List α) (h : C.turn p = .again q) : C.rank q < C.rank p :=
  C.rank_lt (next_of_turn_again h)

/-- Where nothing can be taken draining does nothing. -/
theorem drain_of_none (h : C.next p = none) : C.drain p = p :=
  run_of_leave C.rank (turn_eq_leave h)

/-- Draining may take one step first. -/
theorem drain_of_some (h : C.next p = some q) : C.drain p = C.drain q :=
  run_of_again C.rank turn_rank (turn_eq_again h)

/-- **A drained consumer waits.** -/
@[simp] theorem next_drain (p : σ × List α) : C.next (C.drain p) = none := by
  refine run_induction (Q := fun q => C.next q = none) C.rank turn_rank (P := fun _ => True)
    (fun _ _ _ _ => trivial) (fun q r _ hr => ?_) p trivial
  unfold turn at hr
  split at hr
  · cases hr; assumption
  · cases hr

@[simp] theorem drain_drain (p : σ × List α) : C.drain (C.drain p) = C.drain p :=
  drain_of_none (next_drain p)

/-- **Rule of invariants for draining.** -/
theorem drain_induction {P : σ × List α → Prop} (hstep : ∀ p q, P p → C.next p = some q → P q)
    (hp : P p) : P (C.drain p) := by
  refine run_induction (Q := P) C.rank turn_rank (P := P)
    (fun q r hq hr => hstep q r hq (next_of_turn_again hr)) (fun q r hq hr => ?_) p hp
  unfold turn at hr
  split at hr
  · cases hr; exact hq
  · cases hr

/-- **Draining commutes with appending.** Draining `b` and then `c` behind what is left of it is
draining `b ++ c` at once. -/
theorem drain_append (s : σ) (b c : List α) :
    C.drain (s, b ++ c) = C.drain ((C.drain (s, b)).1, (C.drain (s, b)).2 ++ c) := by
  induction hn : C.rank (s, b) using Nat.strongRecOn generalizing s b with
  | _ n ih =>
      cases hnext : C.next (s, b) with
      | none => rw [drain_of_none hnext]
      | some q =>
          obtain ⟨s', b'⟩ := q
          rw [drain_of_some (C.next_append c hnext), drain_of_some hnext]
          exact ih _ (hn ▸ C.rank_lt hnext) s' b' rfl

/-- Receive one more chunk behind the unread bytes, and drain. -/
def feed (C : Consumer σ α) (p : σ × List α) (chunk : List α) : σ × List α :=
  C.drain (p.1, p.2 ++ chunk)

/-- Receive the chunks of a cutting one after another. -/
def feedAll (C : Consumer σ α) (p : σ × List α) (chunks : List (List α)) : σ × List α :=
  chunks.foldl C.feed p

@[simp] theorem feedAll_nil (p : σ × List α) : C.feedAll p [] = p := rfl

@[simp] theorem feedAll_cons (p : σ × List α) (chunk : List α) (chunks : List (List α)) :
    C.feedAll p (chunk :: chunks) = C.feedAll (C.feed p chunk) chunks := rfl

/-- **Feeding is cutting-independent.** From a waiting consumer, feeding the chunks of a stream is
draining the whole stream. -/
theorem feedAll_eq_drain (hp : C.next p = none) (chunks : List (List α)) :
    C.feedAll p chunks = C.drain (p.1, p.2 ++ chunks.flatten) := by
  induction chunks generalizing p with
  | nil => rw [feedAll_nil, List.flatten_nil, List.append_nil, drain_of_none hp]
  | cons chunk chunks ih =>
      rw [feedAll_cons, ih (p := C.feed p chunk) (next_drain _), List.flatten_cons,
        ← List.append_assoc, drain_append p.1 (p.2 ++ chunk)]
      rfl

/-- **A loop that simulates a consumer computes its drain.** While an invariant `P` holds, every
item the consumer takes is a turn of the loop, and at the drained state the loop leaves without a
change. -/
theorem run_eq_drain {body : σ × List α → Turn (σ × List α)} {rank : σ × List α → ℕ}
    {P : σ × List α → Prop} (hrank : ∀ p q, body p = .again q → rank q < rank p)
    (hstep : ∀ p q, P p → C.next p = some q → body p = .again q ∧ P q) (hp : P p)
    (hleave : P (C.drain p) → body (C.drain p) = .leave (C.drain p)) :
    run body rank p = C.drain p := by
  induction hn : C.rank p using Nat.strongRecOn generalizing p with
  | _ n ih =>
      cases hnext : C.next p with
      | none =>
          rw [drain_of_none hnext] at hleave ⊢
          exact run_of_leave rank (hleave hp)
      | some q =>
          obtain ⟨hbody, hq⟩ := hstep p q hp hnext
          rw [drain_of_some hnext] at hleave ⊢
          rw [run_of_again rank hrank hbody]
          exact ih _ (hn ▸ C.rank_lt hnext) hq hleave rfl

end Consumer

end NetworkLib
