import Mathlib.Tactic

/-! # A log cut into segments

A list to which elements are added at the end, cut into segments: when the newest segment is full,
the next element starts a new one. The segments are kept newest first. `cut_flatten` says that they
are the list again, and `take_flatten` what the newest of them hold: what comes after one of the
`cuts`. -/

namespace NetworkLib.Segments

variable {α : Type*} (full : List α → Prop) [DecidablePred full]

/-- Add an element, to the newest segment or, if that is full, to a new one. -/
def add (segments : List (List α)) (a : α) : List (List α) :=
  match segments with
  | [] => [[a]]
  | newest :: older =>
      if full newest then [a] :: newest :: older else (newest ++ [a]) :: older

/-- The segments of a list, newest first. -/
def cut (l : List α) : List (List α) := l.foldl (add full) [[]]

/-- Where the segments but the oldest begin, newest first. -/
def cuts : List (List α) → List ℕ
  | [] => []
  | _ :: older => if older = [] then [] else older.flatten.length :: cuts older

variable {full} {l : List α} {segments : List (List α)}

theorem add_cons (newest : List α) (older : List (List α)) (a : α) :
    add full (newest :: older) a =
      if full newest then [a] :: newest :: older else (newest ++ [a]) :: older := rfl

@[simp] theorem cut_nil : cut full [] = [[]] := rfl

/-- The last element is added to what the others were cut into. -/
theorem cut_concat (l : List α) (a : α) : cut full (l ++ [a]) = add full (cut full l) a := by
  rw [cut, List.foldl_append]
  rfl

/-- There is a segment after an element was added. -/
theorem add_ne_nil (segments : List (List α)) (a : α) : add full segments a ≠ [] := by
  cases segments with
  | nil => exact List.cons_ne_nil _ _
  | cons newest older =>
      rw [add_cons]
      split <;> exact List.cons_ne_nil _ _

/-- There is always a segment. -/
theorem cut_ne_nil (l : List α) : cut full l ≠ [] := by
  induction l using List.reverseRecOn with
  | nil => exact List.cons_ne_nil _ _
  | append_singleton l a _ =>
      rw [cut_concat]
      exact add_ne_nil _ a

/-- The segments hold what they held and the new element. -/
theorem add_flatten (segments : List (List α)) (a : α) :
    (add full segments a).reverse.flatten = segments.reverse.flatten ++ [a] := by
  cases segments with
  | nil => rfl
  | cons newest older =>
      rw [add_cons]
      split
      · simp
      · simp

variable (full) in
/-- **The segments together are the list.** -/
theorem cut_flatten (l : List α) : (cut full l).reverse.flatten = l := by
  induction l using List.reverseRecOn with
  | nil => rfl
  | append_singleton l a ih => rw [cut_concat, add_flatten, ih]

variable (full) in
/-- What holds of the empty segment, of one new element, and of one more element behind what is not
full, holds of every segment. -/
theorem forall_mem_cut {P : List α → Prop} (hnil : P []) {l : List α}
    (hone : ∀ a ∈ l, P [a]) (hmore : ∀ s, ∀ a ∈ l, ¬ full s → P (s ++ [a])) :
    ∀ s ∈ cut full l, P s := by
  induction l using List.reverseRecOn with
  | nil =>
      intro s hs
      rw [cut_nil, List.mem_singleton] at hs
      rwa [hs]
  | append_singleton l a ih =>
      have hall := ih (fun b hb => hone b (List.mem_append_left _ hb))
        (fun s b hb => hmore s b (List.mem_append_left _ hb))
      have ha : a ∈ l ++ [a] := List.mem_append_right _ (List.mem_singleton_self a)
      intro s hs
      rw [cut_concat] at hs
      cases hcut : cut full l with
      | nil => exact absurd hcut (cut_ne_nil l)
      | cons newest older =>
          rw [hcut, add_cons] at hs
          rw [hcut] at hall
          split at hs
          · rcases List.mem_cons.mp hs with rfl | hs
            · exact hone a ha
            · exact hall s hs
          · next hfull =>
              rcases List.mem_cons.mp hs with rfl | hs
              · exact hmore newest a ha hfull
              · exact hall s (List.mem_cons_of_mem _ hs)

/-! ## The cuts -/

/-- A new segment begins where the older ones end. -/
theorem cuts_cons (newest : List α) {older : List (List α)} (h : older ≠ []) :
    cuts (newest :: older) = older.flatten.length :: cuts older := if_neg h

/-- A new segment is one more cut. -/
theorem cuts_add (segments : List (List α)) (hne : segments ≠ []) (a : α) :
    cuts (add full segments a) =
      if full (segments.headD []) then segments.flatten.length :: cuts segments
      else cuts segments := by
  cases segments with
  | nil => exact absurd rfl hne
  | cons newest older =>
      rw [add_cons, List.headD_cons]
      split
      · exact cuts_cons [a] (List.cons_ne_nil _ _)
      · rfl

/-- **Where the segment after the newest `n` ends.** -/
theorem cuts_getElem? (segments : List (List α)) (n : ℕ) :
    ((cuts segments)[n]?).getD 0 = (segments.drop (n + 1)).flatten.length := by
  induction segments generalizing n with
  | nil => rfl
  | cons newest older ih =>
      by_cases h : older = []
      · subst h
        simp [cuts]
      · rw [cuts_cons newest h]
        cases n with
        | zero => rfl
        | succ n => exact ih n

/-- **What the newest segments hold**: the list from one of its cuts on. -/
theorem take_flatten (l : List α) (n : ℕ) :
    ((cut full l).take (n + 1)).reverse.flatten = l.drop (((cuts (cut full l))[n]?).getD 0) := by
  have hsplit : ((cut full l).drop (n + 1)).reverse.flatten
      ++ ((cut full l).take (n + 1)).reverse.flatten = l := by
    rw [← List.flatten_append, ← List.reverse_append, List.take_append_drop, cut_flatten]
  have hlength : ((cut full l).drop (n + 1)).reverse.flatten.length
      = ((cut full l).drop (n + 1)).flatten.length := by
    rw [List.length_flatten, List.length_flatten, List.map_reverse, List.sum_reverse]
  have hdrop := congrArg (List.drop ((cut full l).drop (n + 1)).reverse.flatten.length) hsplit
  rwa [List.drop_left, hlength, ← cuts_getElem?] at hdrop

end NetworkLib.Segments
