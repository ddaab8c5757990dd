import Mathlib.Tactic

/-! # First occurrence of a pattern

`search pat s` is the offset of the first occurrence of `pat` lying wholly inside `s`, or `none`.
An occurrence found in `s` is found at the same offset when `s` grows (`search_append`), which is
what makes a reader of delimited items indifferent to how its input arrives. `delimited pat s` lists
the items of `s` that end at an occurrence of `pat`. -/

namespace NetworkLib

variable {α : Type*} [DecidableEq α]

/-- The offset of the first occurrence of `pat` in a list. -/
def search (pat : List α) : List α → Option ℕ
  | [] => if pat = [] then some 0 else none
  | a :: s => if pat <+: a :: s then some 0 else (search pat s).map (· + 1)

variable {pat s : List α} {i : ℕ}

/-- A pattern that stands in front is found there. -/
theorem search_eq_zero (h : pat <+: s) : search pat s = some 0 := by
  cases s with
  | nil => rw [search, if_pos (List.prefix_nil.mp h)]
  | cons a s => rw [search, if_pos h]

/-- One that does not is searched behind the first element. -/
theorem search_cons_of_not (a : α) (h : ¬ pat <+: a :: s) :
    search pat (a :: s) = (search pat s).map (· + 1) := by
  rw [search, if_neg h]

/-- The pattern stands at the offset found. -/
theorem prefix_drop_of_search (h : search pat s = some i) : pat <+: s.drop i := by
  induction s generalizing i with
  | nil =>
      rw [search] at h
      split at h
      · next hp => rw [hp]; exact List.nil_prefix
      · cases h
  | cons a s ih =>
      by_cases hp : pat <+: a :: s
      · rw [search_eq_zero hp] at h
        cases h
        simpa using hp
      · rw [search_cons_of_not a hp, Option.map_eq_some_iff] at h
        obtain ⟨j, hj, rfl⟩ := h
        simpa using ih hj

/-- The occurrence found lies wholly inside the list. -/
theorem search_add_length_le (h : search pat s = some i) : i + pat.length ≤ s.length := by
  have hlen := (prefix_drop_of_search h).length_le
  rw [List.length_drop] at hlen
  by_cases hi : i ≤ s.length
  · omega
  · -- an offset past the end can only be that of the empty pattern, found at the front
    have hpat : pat = [] := List.eq_nil_of_length_eq_zero (by omega)
    rw [hpat, search_eq_zero List.nil_prefix] at h
    cases h
    omega

/-- **An occurrence found stays the first one when the list grows.** -/
theorem search_append (c : List α) (h : search pat s = some i) : search pat (s ++ c) = some i := by
  induction s generalizing i with
  | nil =>
      rw [search] at h
      split at h
      · next hp =>
          cases h
          rw [hp]
          exact search_eq_zero List.nil_prefix
      · cases h
  | cons a s ih =>
      by_cases hp : pat <+: a :: s
      · rw [search_eq_zero hp] at h
        cases h
        exact search_eq_zero (hp.trans (List.prefix_append _ _))
      · have h' := h
        rw [search_cons_of_not a hp, Option.map_eq_some_iff] at h'
        obtain ⟨j, hj, rfl⟩ := h'
        have hlen := search_add_length_le hj
        have hnot : ¬ pat <+: a :: (s ++ c) := fun hpc =>
          hp (List.prefix_of_prefix_length_le hpc (List.prefix_append (a :: s) c)
            (by rw [List.length_cons]; omega))
        rw [List.cons_append, search_cons_of_not a hnot, ih hj]
        rfl

/-- Where the pattern stands, it is found there or before. -/
theorem search_of_prefix_drop {j : ℕ} (h : pat <+: s.drop j) (hpat : pat ≠ []) :
    ∃ i ≤ j, search pat s = some i := by
  induction s generalizing j with
  | nil =>
      rw [List.drop_nil, List.prefix_nil] at h
      exact absurd h hpat
  | cons a s ih =>
      by_cases hp : pat <+: a :: s
      · exact ⟨0, Nat.zero_le j, search_eq_zero hp⟩
      · cases j with
        | zero => exact absurd h hp
        | succ j =>
            obtain ⟨i, hi, hs⟩ := ih h
            refine ⟨i + 1, Nat.succ_le_succ hi, ?_⟩
            rw [search_cons_of_not a hp, hs, Option.map_some]

/-- An occurrence is found in any list that goes on up to its end. -/
theorem search_take {n : ℕ} (h : search pat s = some i) (hn : i + pat.length ≤ n) :
    search pat (s.take n) = some i := by
  induction s generalizing i n with
  | nil => rwa [List.take_nil]
  | cons a s ih =>
      by_cases hp : pat <+: a :: s
      · rw [search_eq_zero hp] at h
        cases h
        exact search_eq_zero (List.prefix_take_iff.mpr ⟨hp, by omega⟩)
      · rw [search_cons_of_not a hp, Option.map_eq_some_iff] at h
        obtain ⟨j, hj, rfl⟩ := h
        cases n with
        | zero => omega
        | succ n =>
            have hnot : ¬ pat <+: a :: s.take n := fun hpn =>
              hp (hpn.trans (List.cons_prefix_cons.mpr ⟨rfl, List.take_prefix n s⟩))
            rw [List.take_succ_cons, search_cons_of_not a hnot, ih hj (by omega)]
            rfl

/-- **A line without the first byte of its delimiter ends at its delimiter.** -/
theorem search_line {a : α} {pat : List α} (line rest : List α) (h : a ∉ line) :
    search (a :: pat) (line ++ a :: pat ++ rest) = some line.length := by
  induction line with
  | nil => exact search_eq_zero (by rw [List.nil_append]; exact List.prefix_append _ _)
  | cons b line ih =>
      rw [List.mem_cons, not_or] at h
      have hnot : ¬ a :: pat <+: b :: (line ++ a :: pat ++ rest) := fun hp =>
        h.1 (List.cons_prefix_cons.mp hp).1
      rw [List.cons_append, List.cons_append, search_cons_of_not b hnot, ih h.2]
      rfl

/-- Nothing is found exactly in the lists the pattern is no part of. -/
theorem search_eq_none_iff : search pat s = none ↔ ¬ pat <:+: s := by
  constructor
  · rintro h ⟨front, rest, rfl⟩
    by_cases hpat : pat = []
    · rw [hpat, search_eq_zero List.nil_prefix] at h
      cases h
    · have hstands : pat <+: (front ++ pat ++ rest).drop front.length := by
        rw [List.append_assoc, List.drop_left]
        exact List.prefix_append pat rest
      obtain ⟨i, -, hi⟩ := search_of_prefix_drop hstands hpat
      rw [hi] at h
      cases h
  · intro h
    by_contra hsome
    obtain ⟨i, hi⟩ := Option.ne_none_iff_exists'.mp hsome
    exact h ((prefix_drop_of_search hi).isInfix.trans (List.drop_suffix i s).isInfix)

/-- Before its first occurrence the pattern is no part of the list. -/
theorem search_take_self (h : search pat s = some i) (hpat : pat ≠ []) :
    search pat (s.take i) = none := by
  by_contra hsome
  obtain ⟨j, hj⟩ := Option.ne_none_iff_exists'.mp hsome
  have hle := search_add_length_le hj
  have hpos := List.length_pos_iff.mpr hpat
  have hj' := search_append (s.drop i) hj
  rw [List.take_append_drop, h, Option.some_inj] at hj'
  rw [List.length_take] at hle
  omega

/-- **A line without its delimiter ends at its delimiter**, when that is two different symbols. -/
theorem search_line_pair {a b : α} (hab : a ≠ b) {line : List α} (h : search [a, b] line = none)
    (rest : List α) : search [a, b] (line ++ [a, b] ++ rest) = some line.length := by
  induction line with
  | nil => exact search_eq_zero (by rw [List.nil_append]; exact List.prefix_append _ _)
  | cons c line ih =>
      have hfront : ¬ [a, b] <+: c :: line := fun hp => by
        rw [search_eq_zero hp] at h
        cases h
      rw [search_cons_of_not c hfront, Option.map_eq_none_iff] at h
      have hnot : ¬ [a, b] <+: c :: (line ++ [a, b] ++ rest) := by
        intro hp
        obtain ⟨rfl, htail⟩ := List.cons_prefix_cons.mp hp
        cases line with
        | nil => exact hab (List.cons_prefix_cons.mp htail).1.symm
        | cons d line =>
            refine hfront (List.cons_prefix_cons.mpr ⟨rfl, ?_⟩)
            exact List.cons_prefix_cons.mpr
              ⟨(List.cons_prefix_cons.mp htail).1, List.nil_prefix⟩
      rw [List.cons_append, List.cons_append, search_cons_of_not c hnot, ih h]
      rfl

omit [DecidableEq α] in
/-- A pattern does not stretch over a symbol it has not. -/
theorem infix_append_cons {x : α} {front back : List α} (hx : x ∉ pat)
    (h : pat <:+: front ++ x :: back) : pat <:+: front ∨ pat <:+: back := by
  obtain ⟨before, after, h⟩ := h
  rcases List.append_eq_append_iff.mp h with ⟨rest, rfl, -⟩ | ⟨rest, hfront, hback⟩
  · exact .inl ⟨before, rest, rfl⟩
  · cases rest with
    | nil =>
        rw [List.append_nil] at hfront
        exact .inl ⟨before, [], by rw [List.append_nil, hfront]⟩
    | cons y rest =>
        obtain ⟨rfl, rfl⟩ := List.cons.inj hback
        rcases List.append_eq_append_iff.mp hfront with ⟨part, -, rfl⟩ | ⟨part, -, hpart⟩
        · exact absurd (List.mem_append_right part List.mem_cons_self) hx
        · cases part with
          | nil =>
              rw [List.nil_append] at hpart
              exact absurd (hpart ▸ List.mem_cons_self) hx
          | cons z part =>
              obtain ⟨-, rfl⟩ := List.cons.inj hpart
              exact .inr ⟨part, after, rfl⟩

omit [DecidableEq α] in
/-- What holds of the front of a list that goes on with itself holds of all of it. -/
theorem forall_mem_of_prefix_append {P : α → Prop} {front rest : List α} (hne : front ≠ [])
    (hP : ∀ a ∈ front, P a) (h : s <+: front ++ s ++ rest) : ∀ a ∈ s, P a := by
  have hall : ∀ i (hi : i < s.length), P s[i] := by
    intro i
    induction i using Nat.strongRecOn with
    | ind i ih =>
        intro hi
        rw [h.getElem hi]
        by_cases hfront : i < front.length
        · rw [List.getElem_append_left (by rw [List.length_append]; omega),
            List.getElem_append_left hfront]
          exact hP _ (List.getElem_mem hfront)
        · have hpos := List.length_pos_iff.mpr hne
          have hlt : i - front.length < s.length := by omega
          rw [List.getElem_append_left (by rw [List.length_append]; omega),
            List.getElem_append_right (by omega)]
          exact ih (i - front.length) (by omega) hlt
  intro a ha
  obtain ⟨i, hi, rfl⟩ := List.mem_iff_getElem.mp ha
  exact hall i hi

/-! ## Delimited items -/

/-- The items ended by the delimiter `a :: pat`, without it. What follows the last one is left
out. -/
def delimited (a : α) (pat s : List α) : List (List α) :=
  match h : search (a :: pat) s with
  | none => []
  | some i => s.take i :: delimited a pat (s.drop (i + pat.length + 1))
termination_by s.length
decreasing_by
  have hlen := search_add_length_le h
  rw [List.length_cons] at hlen
  rw [List.length_drop]
  omega

variable {a : α}

/-- Without a delimiter there is no part. -/
theorem delimited_of_none (h : search (a :: pat) s = none) : delimited a pat s = [] := by
  rw [delimited]
  split
  · rfl
  · next hi => rw [h] at hi; cases hi

/-- The first part ends at the first delimiter. -/
theorem delimited_of_some (h : search (a :: pat) s = some i) :
    delimited a pat s = s.take i :: delimited a pat (s.drop (i + pat.length + 1)) := by
  rw [delimited]
  split
  · next hi => rw [h] at hi; cases hi
  · next hi => rw [h] at hi; cases hi; rfl

end NetworkLib
