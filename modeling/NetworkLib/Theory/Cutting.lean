import Mathlib.Tactic

/-! # Cutting a concatenation

A part of a stream received so far is a front of the concatenation of the items sent. It consists of
some items received whole and a **tail**, a proper front of the next item (`exists_whole_tail`). -/

namespace NetworkLib

variable {α : Type*}

/-- `tail` is what has arrived of the item after the first `k`: a proper front of it, and nothing
when there is no such item. -/
def IsTail (items : List (List α)) (k : ℕ) (tail : List α) : Prop :=
  match items[k]? with
  | some item => tail <+: item ∧ tail ≠ item
  | none => tail = []

/-- A tail at the start is a proper part of the first item. -/
theorem isTail_zero_cons (item : List α) (items : List (List α)) (tail : List α) :
    IsTail (item :: items) 0 tail ↔ tail <+: item ∧ tail ≠ item := Iff.rfl

@[simp] theorem isTail_succ_cons (item : List α) (items : List (List α)) (k : ℕ)
    (tail : List α) : IsTail (item :: items) (k + 1) tail ↔ IsTail items k tail := Iff.rfl

/-- **What has arrived is a number of whole items and a tail.** -/
theorem exists_whole_tail {bs : List α} {items : List (List α)} (h : bs <+: items.flatten) :
    ∃ k tail, k ≤ items.length ∧ bs = (items.take k).flatten ++ tail ∧ IsTail items k tail := by
  induction items generalizing bs with
  | nil => exact ⟨0, [], le_rfl, by simpa using h, rfl⟩
  | cons item items ih =>
      rw [List.flatten_cons] at h
      by_cases hlen : item.length ≤ bs.length
      · obtain ⟨bs', rfl⟩ : item <+: bs :=
          List.prefix_of_prefix_length_le (List.prefix_append _ _) h hlen
        obtain ⟨k, tail, hk, rfl, htail⟩ := ih ((List.prefix_append_right_inj item).mp h)
        refine ⟨k + 1, tail, Nat.succ_le_succ hk, ?_, htail⟩
        rw [List.take_succ_cons, List.flatten_cons, List.append_assoc]
      · refine ⟨0, bs, Nat.zero_le _, by simp, ?_⟩
        refine (isTail_zero_cons ..).mpr ⟨?_, fun hb => hlen (hb ▸ le_rfl)⟩
        exact List.prefix_of_prefix_length_le h (List.prefix_append _ _) (by omega)

/-- A tail is shorter than the item it is a front of. -/
theorem IsTail.length_lt {items : List (List α)} {k : ℕ} {tail : List α} (h : IsTail items k tail)
    (hk : k < items.length) : tail.length < (items[k]).length := by
  unfold IsTail at h
  rw [List.getElem?_eq_getElem hk] at h
  obtain ⟨hp, hne⟩ := h
  rcases Nat.lt_or_ge tail.length (items[k]).length with hlt | hge
  · exact hlt
  · exact absurd (hp.eq_of_length_le hge) hne

/-- One item more is as long as that item. -/
theorem length_flatten_take_succ {items : List (List α)} {k : ℕ} (hk : k < items.length) :
    (items.take (k + 1)).flatten.length = (items.take k).flatten.length + (items[k]).length := by
  rw [List.take_succ_eq_append_getElem hk, List.flatten_append, List.length_append,
    List.flatten_singleton]

/-- More items are no shorter. -/
theorem length_flatten_take_mono (items : List (List α)) {j k : ℕ} (h : j ≤ k) :
    (items.take j).flatten.length ≤ (items.take k).flatten.length := by
  obtain ⟨d, rfl⟩ := Nat.exists_eq_add_of_le h
  rw [List.take_add, List.flatten_append, List.length_append]
  exact Nat.le_add_right _ _

/-- No more items than those before the tail have arrived whole. -/
theorem IsTail.le {items : List (List α)} {j k : ℕ} {tail : List α} (h : IsTail items k tail)
    (hj : j ≤ items.length)
    (hlen : (items.take j).flatten.length ≤ (items.take k).flatten.length + tail.length) :
    j ≤ k := by
  by_contra hlt
  have hk : k < items.length := by omega
  have hsucc := length_flatten_take_succ hk
  have hmono := length_flatten_take_mono items (show k + 1 ≤ j by omega)
  have := h.length_lt hk
  omega

/-- What follows the first `j` items is the other items that have arrived whole, and the tail. -/
theorem IsTail.split {items : List (List α)} {j k : ℕ} {tail rest : List α}
    (h : IsTail items k tail) (hj : j ≤ items.length)
    (heq : (items.take j).flatten ++ rest = (items.take k).flatten ++ tail) :
    ∃ d, k = j + d ∧ rest = ((items.drop j).take d).flatten ++ tail := by
  have hlen := congrArg List.length heq
  rw [List.length_append, List.length_append] at hlen
  obtain ⟨d, rfl⟩ := Nat.exists_eq_add_of_le (h.le hj (by omega))
  refine ⟨d, rfl, ?_⟩
  rw [List.take_add, List.flatten_append, List.append_assoc] at heq
  exact List.append_cancel_left heq

/-! ## One item from each piece

A reader that takes at most one item from each piece of a cutting, and nothing from the rest of the
piece, gets all items exactly if each piece that is not empty is one item. -/

section OneEach

variable {β : Type*} {enc : β → List α} {dec : List α → Option β}

/-- The items taken are no longer than the pieces; if they are as long, each piece is as long as the
item taken from it. -/
theorem length_filterMap_le (hnil : dec [] = none)
    (hlen : ∀ p x, dec p = some x → (enc x).length ≤ p.length) (ps : List (List α)) :
    ((ps.filterMap dec).map enc).flatten.length ≤ ps.flatten.length ∧
      (((ps.filterMap dec).map enc).flatten.length = ps.flatten.length →
        (ps.filter (· ≠ [])).map List.length = ((ps.filterMap dec).map enc).map List.length) := by
  -- Induction on the parts: one that decodes to nothing only makes the left side longer.
  induction ps with
  | nil => simp
  | cons p ps ih =>
      obtain ⟨hle, heq⟩ := ih
      cases hdec : dec p with
      | none =>
          rw [List.filterMap_cons_none hdec, List.flatten_cons, List.length_append]
          refine ⟨by omega, fun h => ?_⟩
          have hp : p = [] := List.length_eq_zero_iff.mp (by omega)
          rw [List.filter_cons_of_neg (by simpa using hp), heq (by omega)]
      | some x =>
          have hx := hlen p x hdec
          have hp : p ≠ [] := by
            rintro rfl
            rw [hnil] at hdec
            cases hdec
          rw [List.filterMap_cons_some hdec, List.map_cons, List.flatten_cons, List.flatten_cons,
            List.length_append, List.length_append]
          refine ⟨by omega, fun h => ?_⟩
          rw [List.filter_cons_of_pos (by simpa using hp), List.map_cons, List.map_cons,
            heq (by omega), show p.length = (enc x).length by omega]

/-- **A reader that gets items of the right lengths has got one from each piece.** -/
theorem filter_eq_of_lengths (hnil : dec [] = none)
    (hlen : ∀ p x, dec p = some x → (enc x).length ≤ p.length) {ps : List (List α)} {xs : List β}
    (hflatten : ps.flatten = (xs.map enc).flatten)
    (h : (ps.filterMap dec).map (fun x => (enc x).length) = xs.map fun x => (enc x).length) :
    ps.filter (· ≠ []) = xs.map enc := by
  have hlengths : ((ps.filterMap dec).map enc).map List.length = (xs.map enc).map List.length := by
    rw [List.map_map, List.map_map]
    exact h
  have htotal : ((ps.filterMap dec).map enc).flatten.length = ps.flatten.length := by
    rw [hflatten, List.length_flatten, List.length_flatten, hlengths]
  rw [List.eq_iff_flatten_eq, List.flatten_filter_ne_nil, hflatten,
    (length_filterMap_le hnil hlen ps).2 htotal, hlengths]
  exact ⟨rfl, rfl⟩

/-- Where each piece that is not empty is one item, the reader gets the items. -/
theorem filterMap_of_filter_eq (hnil : dec [] = none) {ps : List (List α)} {xs : List β}
    (h : ps.filter (· ≠ []) = xs.map enc) (hdec : ∀ x ∈ xs, enc x ∈ ps → dec (enc x) = some x) :
    ps.filterMap dec = xs := by
  have hdrop : ps.filterMap dec = (ps.filter (· ≠ [])).filterMap dec := by
    rw [List.filterMap_filter]
    refine List.filterMap_congr fun p _ => ?_
    by_cases hp : p = []
    · simp [hp, hnil]
    · simp [hp]
  have hmem : ∀ x ∈ xs, enc x ∈ ps := fun x hx =>
    List.mem_of_mem_filter (h ▸ List.mem_map_of_mem hx)
  rw [hdrop, h, List.filterMap_map]
  calc xs.filterMap (dec ∘ enc) = xs.filterMap some :=
        List.filterMap_congr fun x hx => hdec x hx (hmem x hx)
    _ = xs := List.filterMap_some

end OneEach

end NetworkLib
