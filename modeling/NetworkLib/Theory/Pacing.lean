import Mathlib.Tactic

/-! # Items taken one per read

A reader that takes at most one item off the front of its buffer after each read. The items of a
list are those taken off its front one after another (`items`); a reader paced by the reads has
taken the first few of them (`paced_eq`), namely `due`, and `le_due_iff` says how the reads have to
come for it to get as far as `n`. -/

namespace NetworkLib

/-- How one item is taken off the front of a list. -/
structure Splitter (α β : Type*) where
  /-- The first item and what follows it, or `none` while it is not there whole. -/
  first : List α → Option (β × List α)
  length_lt : ∀ {s x rest}, first s = some (x, rest) → rest.length < s.length
  /-- An item does not depend on what follows it. -/
  first_append : ∀ {s x rest} (c : List α), first s = some (x, rest) →
    first (s ++ c) = some (x, rest ++ c)

namespace Splitter

variable {α β : Type*} (S : Splitter α β)

/-- The items of a list. -/
def items (s : List α) : List β :=
  match _h : S.first s with
  | none => []
  | some (x, rest) => x :: items rest
termination_by s.length
decreasing_by exact S.length_lt ‹_›

/-- What is left of a list behind its first `n` items. -/
def behind : ℕ → List α → List α
  | 0, s => s
  | n + 1, s =>
      match S.first s with
      | none => s
      | some (_, rest) => behind n rest

variable {S} {s : List α} {x : β} {rest : List α} {n : ℕ}

/-- Where no item is complete there is none. -/
theorem items_of_none (h : S.first s = none) : S.items s = [] := by
  rw [items]
  split
  · rfl
  · next h' => rw [h] at h'; cases h'

/-- A complete item stands in front of the others. -/
theorem items_of_some (h : S.first s = some (x, rest)) : S.items s = x :: S.items rest := by
  rw [items]
  split
  · next h' => rw [h] at h'; cases h'
  · next h' => rw [h] at h'; cases h'; rfl

/-- What is behind one item more. -/
theorem behind_succ_of_some (h : S.first s = some (x, rest)) (n : ℕ) :
    S.behind (n + 1) s = S.behind n rest := by rw [behind, h]

/-- **Items stay when the list grows.** -/
theorem items_prefix_append (s c : List α) : S.items s <+: S.items (s ++ c) := by
  induction hn : s.length using Nat.strongRecOn generalizing s with
  | ind n ih =>
      cases h : S.first s with
      | none => exact items_of_none h ▸ List.nil_prefix
      | some p =>
          obtain ⟨x, rest⟩ := p
          rw [items_of_some h, items_of_some (S.first_append c h), List.prefix_cons_inj]
          exact ih rest.length (hn ▸ S.length_lt h) rest rfl

/-- What is left behind items grows with the list. -/
theorem behind_append (h : n ≤ (S.items s).length) (c : List α) :
    S.behind n (s ++ c) = S.behind n s ++ c := by
  induction n generalizing s with
  | zero => rfl
  | succ n ih =>
      cases hs : S.first s with
      | none =>
          rw [items_of_none hs] at h
          exact absurd h (by simp)
      | some p =>
          obtain ⟨x, rest⟩ := p
          rw [items_of_some hs, List.length_cons, Nat.succ_le_succ_iff] at h
          rw [behind_succ_of_some hs, behind_succ_of_some (S.first_append c hs), ih h]

/-- Behind all items there is none. -/
theorem first_behind_length (s : List α) : S.first (S.behind (S.items s).length s) = none := by
  induction hn : s.length using Nat.strongRecOn generalizing s with
  | ind n ih =>
      cases h : S.first s with
      | none => rwa [items_of_none h]
      | some p =>
          obtain ⟨x, rest⟩ := p
          rw [items_of_some h, List.length_cons, behind_succ_of_some h]
          exact ih rest.length (hn ▸ S.length_lt h) rest rfl

/-- Behind `n` items the next one stands. -/
theorem first_behind (h : n < (S.items s).length) :
    S.first (S.behind n s) = some ((S.items s)[n], S.behind (n + 1) s) := by
  induction n generalizing s with
  | zero =>
      cases hs : S.first s with
      | none =>
          rw [items_of_none hs] at h
          exact absurd h (by simp)
      | some p =>
          obtain ⟨x, rest⟩ := p
          simp only [items_of_some hs, behind_succ_of_some hs]
          exact hs
  | succ n ih =>
      cases hs : S.first s with
      | none =>
          rw [items_of_none hs] at h
          exact absurd h (by simp)
      | some p =>
          obtain ⟨x, rest⟩ := p
          have hlt : n < (S.items rest).length := by
            rw [items_of_some hs, List.length_cons] at h
            omega
          rw [behind_succ_of_some hs, behind_succ_of_some hs, ih hlt]
          simp only [items_of_some hs, List.getElem_cons_succ]

variable (S) in
/-- What is left of a list behind all its items. -/
def remainder (s : List α) : List α := S.behind (S.items s).length s

/-- Where no item is complete everything remains. -/
theorem remainder_of_none (h : S.first s = none) : S.remainder s = s := by
  rw [remainder, items_of_none h]
  rfl

/-- What remains is behind the first item. -/
theorem remainder_of_some (h : S.first s = some (x, rest)) : S.remainder s = S.remainder rest := by
  rw [remainder, items_of_some h, List.length_cons, behind_succ_of_some h, remainder]

/-! ## One item per read -/

variable (S)

/-- One item at most is taken after each read: those taken, and what is left in the buffer. -/
def paced (reads : List (List α)) : List β × List α :=
  reads.foldl (fun p read =>
    match S.first (p.2 ++ read) with
    | none => (p.1, p.2 ++ read)
    | some (x, rest) => (p.1 ++ [x], rest)) ([], [])

/-- The number of items that get taken. -/
def due (reads : List (List α)) : ℕ :=
  (reads.foldl (fun p read => (min (p.1 + 1) (S.items (p.2 ++ read)).length, p.2 ++ read))
    (0, [])).1

/-- The reads come in time for `n` items: after each of them, the items that are not there yet are
no more than the reads to come. -/
def InTime (n : ℕ) (reads : List (List α)) : Prop :=
  ∀ i ≤ reads.length, n ≤ (S.items (reads.take i).flatten).length + (reads.length - i)

variable {S} {reads : List (List α)}

/-- A read makes one item more due, as far as there are any. -/
theorem due_snoc (reads : List (List α)) (read : List α) :
    S.due (reads ++ [read])
      = min (S.due reads + 1) (S.items (reads ++ [read]).flatten).length := by
  have hbytes : (reads.foldl (fun p read =>
      (min (p.1 + 1) (S.items (p.2 ++ read)).length, p.2 ++ read)) ((0, []) : ℕ × List α)).2
        = reads.flatten := by
    induction reads using List.reverseRecOn with
    | nil => rfl
    | append_singleton reads read ih =>
        rw [List.foldl_append, List.flatten_append, ← ih]
        simp
  rw [due, List.foldl_append, List.foldl_cons, List.foldl_nil, hbytes, ← due,
    List.flatten_append, List.flatten_singleton]

/-- **What a paced reader has taken.** -/
theorem paced_eq (reads : List (List α)) :
    S.due reads ≤ (S.items reads.flatten).length ∧
      S.paced reads = ((S.items reads.flatten).take (S.due reads),
        S.behind (S.due reads) reads.flatten) := by
  induction reads using List.reverseRecOn with
  | nil => exact ⟨Nat.zero_le _, rfl⟩
  | append_singleton reads read ih =>
      obtain ⟨hle, hpaced⟩ := ih
      have hflatten : (reads ++ [read]).flatten = reads.flatten ++ read := by
        rw [List.flatten_append, List.flatten_singleton]
      have hbegin := S.items_prefix_append reads.flatten read
      have hbehind := behind_append hle read
      have hle' : S.due reads ≤ (S.items (reads.flatten ++ read)).length :=
        hle.trans hbegin.length_le
      have htake : (S.items reads.flatten).take (S.due reads)
          = (S.items (reads.flatten ++ read)).take (S.due reads) := by
        obtain ⟨more, hmore⟩ := hbegin
        rw [← hmore, List.take_append_of_le_length hle]
      rw [due_snoc, paced, List.foldl_append, List.foldl_cons, List.foldl_nil, ← paced, hpaced,
        hflatten]
      simp only [← hbehind, htake]
      refine ⟨min_le_right _ _, ?_⟩
      rcases Nat.lt_or_eq_of_le hle' with hlt | heq
      · -- one more item is there, and it is taken
        rw [first_behind hlt, min_eq_left hlt, List.take_succ_eq_append_getElem hlt]
      · have hnone := S.first_behind_length (reads.flatten ++ read)
        rw [← heq] at hnone
        rw [hnone, ← heq, min_eq_right (Nat.le_succ _)]

/-- A read hands over one item at most. -/
theorem paced_snoc (reads : List (List α)) (read : List α) :
    S.paced (reads ++ [read]) =
      match S.first ((S.paced reads).2 ++ read) with
      | none => ((S.paced reads).1, (S.paced reads).2 ++ read)
      | some (x, rest) => ((S.paced reads).1 ++ [x], rest) := by
  rw [paced, List.foldl_append]
  rfl

/-- Nothing holds no item. -/
theorem items_nil : S.items [] = [] := by
  refine items_of_none ?_
  cases h : S.first [] with
  | none => rfl
  | some p => exact absurd (S.length_lt h) (Nat.not_lt_zero _)

/-- **When a paced reader gets as far as `n`.** -/
theorem le_due_iff (n : ℕ) (reads : List (List α)) : n ≤ S.due reads ↔ S.InTime n reads := by
  -- Induction on the reads from the end: the last one makes one item more due.
  induction reads using List.reverseRecOn generalizing n with
  | nil =>
      have hdue : S.due [] = 0 := rfl
      rw [hdue, InTime]
      simp [items_nil]
  | append_singleton reads read ih =>
      rw [due_snoc, le_min_iff]
      have hbefore : n ≤ S.due reads + 1 ↔ S.InTime (n - 1) reads := by
        rw [← ih]
        omega
      rw [hbefore]
      constructor
      · rintro ⟨hreads, hall⟩ i hi
        rw [List.length_append, List.length_singleton] at hi ⊢
        rcases Nat.lt_or_eq_of_le hi with hlt | rfl
        · have hi := hreads i (Nat.le_of_lt_succ hlt)
          rw [List.take_append_of_le_length (Nat.le_of_lt_succ hlt)]
          omega
        · rw [List.take_of_length_le (by simp)]
          omega
      -- back: the fronts of the earlier reads, and all of them together
      · intro h
        refine ⟨fun i hi => ?_, ?_⟩
        · have hread := h i (by rw [List.length_append]; omega)
          rw [List.take_append_of_le_length hi, List.length_append, List.length_singleton] at hread
          omega
        · have hlast := h (reads ++ [read]).length le_rfl
          rw [List.take_length, Nat.sub_self] at hlast
          exact hlast

/-- **When a paced reader takes certain items**: the list begins with them, and the reads come in
time for them and for no other. -/
theorem paced_eq_iff {xs : List β} {reads : List (List α)} :
    (S.paced reads).1 = xs ↔
      xs <+: S.items reads.flatten ∧ S.InTime xs.length reads ∧ ¬ S.InTime (xs.length + 1) reads := by
  obtain ⟨hle, hpaced⟩ := S.paced_eq reads
  have hlength : S.due reads = xs.length ↔
      S.InTime xs.length reads ∧ ¬ S.InTime (xs.length + 1) reads := by
    rw [← le_due_iff, ← le_due_iff]
    omega
  rw [← hlength, hpaced]
  constructor
  · rintro rfl
    exact ⟨List.take_prefix _ _, (List.length_take_of_le hle).symm⟩
  · rintro ⟨⟨rest, hrest⟩, hdue⟩
    rw [← hrest, hdue, List.take_left]

end Splitter

end NetworkLib
