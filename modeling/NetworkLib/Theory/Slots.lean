import Mathlib.Tactic

/-! # Numbered slots

Slots 1, 2, 3, …, each of which is free or holds a value. What the first `n` of them hold, read from
slot 1 on, does not change when a value moves to the next slot and that is free (`listing_move`),
and loses its last value when slot `n` is freed (`listing_free`). When every value moves to the next
slot, the first `n + 1` slots hold what the first `n` did (`listing_shift`). -/

namespace NetworkLib.Slots

variable {α : Type*} {g g' : ℕ → Option α}

/-- The values in the first `n` slots. -/
def listing (g : ℕ → Option α) : ℕ → List α
  | 0 => []
  | n + 1 => listing g n ++ (g (n + 1)).toList

@[simp] theorem listing_zero (g : ℕ → Option α) : listing g 0 = [] := rfl

theorem listing_succ (g : ℕ → Option α) (n : ℕ) :
    listing g (n + 1) = listing g n ++ (g (n + 1)).toList := rfl

/-- What is read beyond some slot, as many values as there are slots in use there. -/
theorem listing_beyond (g : ℕ → Option α) {m n : ℕ} (hmn : m ≤ n) :
    ∃ rest, listing g n = listing g m ++ rest ∧
      rest.length = (List.range' (m + 1) (n - m)).countP fun i => (g i).isSome := by
  induction n, hmn using Nat.le_induction with
  | base =>
      refine ⟨[], (List.append_nil _).symm, ?_⟩
      rw [Nat.sub_self]
      rfl
  | succ n hn ih =>
      obtain ⟨rest, hrest, hlength⟩ := ih
      refine ⟨rest ++ (g (n + 1)).toList, ?_, ?_⟩
      · rw [listing_succ, hrest, List.append_assoc]
      · have hlast : m + 1 + (n - m) = n + 1 := by omega
        rw [Nat.succ_sub hn, List.range'_1_concat, List.countP_append, List.length_append, hlength,
          hlast]
        cases hslot : g (n + 1) <;> simp [hslot]

/-- Slots that hold the same are read the same. -/
theorem listing_congr {n : ℕ} (h : ∀ i, 1 ≤ i → i ≤ n → g' i = g i) : listing g' n = listing g n := by
  induction n with
  | zero => rfl
  | succ n ih =>
      rw [listing_succ, listing_succ, ih fun i hi hin => h i hi (by omega), h (n + 1) (by omega) le_rfl]

/-- What is read the same up to some slot, and is the same from there on. -/
theorem listing_congr_from {m n : ℕ} (hmn : m ≤ n) (hm : listing g' m = listing g m)
    (h : ∀ i, m < i → i ≤ n → g' i = g i) : listing g' n = listing g n := by
  induction n, hmn using Nat.le_induction with
  | base => exact hm
  | succ n hn ih =>
      rw [listing_succ, listing_succ, ih fun i hi hin => h i hi (by omega), h (n + 1) (by omega) le_rfl]

/-- **A value moves to the next slot, which is free.** -/
theorem listing_move {i n : ℕ} (hi : 1 ≤ i) (hin : i + 1 ≤ n) (hfree : g (i + 1) = none)
    (hto : g' (i + 1) = g i) (hfrom : g' i = none)
    (hothers : ∀ j, 1 ≤ j → j ≠ i → j ≠ i + 1 → g' j = g j) : listing g' n = listing g n := by
  obtain ⟨k, rfl⟩ : ∃ k, i = k + 1 := ⟨i - 1, by omega⟩
  apply listing_congr_from hin
  · have hbefore : listing g' k = listing g k :=
      listing_congr fun j hj hjk => hothers j hj (by omega) (by omega)
    rw [listing_succ, listing_succ, listing_succ, listing_succ, hbefore, hto, hfrom, hfree]
    simp only [Option.toList_none, List.append_nil]
  · intro j hj _
    exact hothers j (by omega) (by omega) (by omega)

/-- **The last of the slots is freed.** -/
theorem listing_free {n : ℕ} (hlast : g' (n + 1) = none) (hothers : ∀ j, 1 ≤ j → j ≤ n → g' j = g j) :
    listing g (n + 1) = listing g' (n + 1) ++ (g (n + 1)).toList := by
  rw [listing_succ, listing_succ, hlast, listing_congr hothers]
  simp only [Option.toList_none, List.append_nil]

/-- **Every value moves to the next slot.** -/
theorem listing_shift {n : ℕ} (hfirst : g' 1 = none) (h : ∀ i, 1 ≤ i → i ≤ n → g' (i + 1) = g i) :
    listing g' (n + 1) = listing g n := by
  induction n with
  | zero => rw [listing_succ, listing_zero, hfirst, Option.toList_none, List.append_nil, listing_zero]
  | succ n ih =>
      rw [listing_succ g' (n + 1), ih fun i hi hin => h i hi (by omega), h (n + 1) (by omega) le_rfl,
        listing_succ]

end NetworkLib.Slots
