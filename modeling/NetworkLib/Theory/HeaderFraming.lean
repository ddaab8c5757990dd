import NetworkLib.Theory.NetworkOrder
import NetworkLib.Theory.Incremental

/-! # Framing by headers of a fixed size

A **header format** has headers of one size, each of which announces the length of the payload
behind it. `split` reads a byte string as messages at one go, down to a tail without a whole
message. The two readers of a growing buffer, `consumer`, which takes a message when it is there
whole, and `staged`, which takes the header before the payload has arrived, pass exactly these
messages to a step function, until it asks to stop (`drain_spec`, `staged_drain_spec`). -/

namespace NetworkLib

/-- Headers of `size` bytes that announce the length of a payload. -/
structure HeaderFormat where
  size : ℕ
  size_pos : 0 < size
  announced : Bytes → ℕ

namespace HeaderFormat

variable (F : HeaderFormat)

/-- There is no whole message at the front of `bs`. -/
def Incomplete (bs : Bytes) : Prop :=
  bs.length < F.size ∨ bs.length < F.size + F.announced (bs.take F.size)

instance (bs : Bytes) : Decidable (F.Incomplete bs) := inferInstanceAs (Decidable (_ ∨ _))

/-- A message: a header and the payload it announces. -/
def IsMessage (m : Bytes × Bytes) : Prop := m.1.length = F.size ∧ F.announced m.1 = m.2.length

instance (m : Bytes × Bytes) : Decidable (F.IsMessage m) := inferInstanceAs (Decidable (_ ∧ _))

/-- The bytes of some messages. -/
def wire (ms : List (Bytes × Bytes)) : Bytes := ms.flatMap fun m => m.1 ++ m.2

/-- The message at the front of `bs`. -/
def first (bs : Bytes) : Bytes × Bytes :=
  (bs.take F.size, (bs.drop F.size).take (F.announced (bs.take F.size)))

/-- What follows the message at the front of `bs`. -/
def rest (bs : Bytes) : Bytes := bs.drop (F.size + F.announced (bs.take F.size))

/-- **The messages of a byte string**, and its tail. -/
def split (bs : Bytes) : List (Bytes × Bytes) × Bytes :=
  if F.Incomplete bs then ([], bs)
  else (F.first bs :: (split (F.rest bs)).1, (split (F.rest bs)).2)
termination_by bs.length
decreasing_by all_goals
  rename_i h
  have hpos := F.size_pos
  simp only [Incomplete, not_or, not_lt] at h
  simp only [rest, List.length_drop]
  omega

variable {F}

@[simp] theorem wire_nil : wire [] = [] := rfl

@[simp] theorem wire_cons (m : Bytes × Bytes) (ms : List (Bytes × Bytes)) :
    wire (m :: ms) = m.1 ++ m.2 ++ wire ms := rfl

@[simp] theorem wire_append (ms ms' : List (Bytes × Bytes)) :
    wire (ms ++ ms') = wire ms ++ wire ms' := List.flatMap_append

/-- The length of some messages: their headers and their payloads. -/
theorem length_wire {ms : List (Bytes × Bytes)} (hms : ∀ m ∈ ms, F.IsMessage m) :
    (wire ms).length = F.size * ms.length + (ms.flatMap Prod.snd).length := by
  induction ms with
  | nil => rfl
  | cons m ms ih =>
      have hsize : m.1.length = F.size := (hms m List.mem_cons_self).1
      rw [wire_cons, List.length_append, List.length_append, hsize,
        ih fun m' hm' => hms m' (List.mem_cons_of_mem _ hm'), List.flatMap_cons, List.length_append,
        List.length_cons, Nat.mul_succ]
      omega

/-- Bytes that hold no whole frame are all left over. -/
theorem split_of_incomplete {bs : Bytes} (h : F.Incomplete bs) : F.split bs = ([], bs) := by
  rw [split, if_pos h]

/-- Bytes that hold one are its frame and what the rest splits into. -/
theorem split_of_complete {bs : Bytes} (h : ¬ F.Incomplete bs) :
    F.split bs = (F.first bs :: (F.split (F.rest bs)).1, (F.split (F.rest bs)).2) := by
  rw [split, if_neg h]

/-- A frame taken makes the bytes fewer. -/
theorem length_rest_lt {bs : Bytes} (h : ¬ F.Incomplete bs) : (F.rest bs).length < bs.length := by
  have hpos := F.size_pos
  simp only [Incomplete, not_or, not_lt] at h
  simp only [rest, List.length_drop]
  omega

/-- A whole message at the front is what the header there says. -/
theorem first_append {m : Bytes × Bytes} (hm : F.IsMessage m) (bs : Bytes) :
    ¬ F.Incomplete (m.1 ++ m.2 ++ bs) ∧ F.first (m.1 ++ m.2 ++ bs) = m ∧
      F.rest (m.1 ++ m.2 ++ bs) = bs := by
  obtain ⟨hsize, hlen⟩ := hm
  have htake : (m.1 ++ m.2 ++ bs).take F.size = m.1 := by
    rw [List.append_assoc, ← hsize, List.take_left]
  refine ⟨?_, ?_, ?_⟩
  · simp only [Incomplete, htake, hlen, List.length_append, not_or, not_lt]
    omega
  · have hdrop : (m.1 ++ m.2 ++ bs).drop F.size = m.2 ++ bs := by
      rw [List.append_assoc, ← hsize, List.drop_left]
    rw [first, htake, hdrop, hlen, List.take_left]
  · rw [rest, htake, hlen, ← hsize, ← List.length_append, List.drop_left]

/-- **Messages are read back**, whatever tail without a whole message follows them. -/
theorem split_wire {ms : List (Bytes × Bytes)} (hms : ∀ m ∈ ms, F.IsMessage m) {tail : Bytes}
    (htail : F.Incomplete tail) : F.split (wire ms ++ tail) = (ms, tail) := by
  induction ms with
  | nil => exact split_of_incomplete htail
  | cons m ms ih =>
      obtain ⟨hwhole, hfirst, hrest⟩ :=
        first_append (hms m List.mem_cons_self) (wire ms ++ tail)
      rw [wire_cons, List.append_assoc _ (wire ms), split_of_complete hwhole, hfirst, hrest,
        ih fun m' hm' => hms m' (List.mem_cons_of_mem _ hm')]

/-- The message at the front of a byte string, and what follows it, are that string. -/
theorem first_rest {bs : Bytes} (h : ¬ F.Incomplete bs) :
    F.IsMessage (F.first bs) ∧ (F.first bs).1 ++ (F.first bs).2 ++ F.rest bs = bs := by
  simp only [Incomplete, not_or, not_lt] at h
  refine ⟨⟨?_, ?_⟩, ?_⟩
  · rw [first, List.length_take]
    omega
  · simp only [first, List.length_take, List.length_drop]
    omega
  · rw [first, rest, List.append_assoc, ← List.drop_drop, List.take_append_drop,
      List.take_append_drop]

/-- **What `split` returns**: the byte string, as messages and a tail without a whole one. -/
theorem split_spec (bs : Bytes) : wire (F.split bs).1 ++ (F.split bs).2 = bs ∧
    (∀ m ∈ (F.split bs).1, F.IsMessage m) ∧ F.Incomplete (F.split bs).2 := by
  induction hn : bs.length using Nat.strongRecOn generalizing bs with
  | _ n ih =>
      by_cases h : F.Incomplete bs
      · rw [split_of_incomplete h]
        exact ⟨rfl, by simp, h⟩
      · obtain ⟨hmessage, heq⟩ := first_rest h
        obtain ⟨hwire, hmessages, htail⟩ := ih _ (hn ▸ length_rest_lt h) (F.rest bs) rfl
        rw [split_of_complete h]
        refine ⟨?_, ?_, htail⟩
        · rw [wire_cons, List.append_assoc, hwire, heq]
        · intro m hm
          obtain rfl | hm := List.mem_cons.mp hm
          · exact hmessage
          · exact hmessages m hm

/-- **Splitting goes on in the tail** when more bytes follow. -/
theorem split_append (bs c : Bytes) : F.split (bs ++ c)
    = ((F.split bs).1 ++ (F.split ((F.split bs).2 ++ c)).1, (F.split ((F.split bs).2 ++ c)).2) := by
  obtain ⟨hwire, hmessages, -⟩ := split_spec (F := F) bs
  obtain ⟨hwire', hmessages', htail'⟩ := split_spec (F := F) ((F.split bs).2 ++ c)
  have heq : bs ++ c = wire ((F.split bs).1 ++ (F.split ((F.split bs).2 ++ c)).1)
      ++ (F.split ((F.split bs).2 ++ c)).2 := by
    rw [wire_append, List.append_assoc, hwire', ← List.append_assoc, hwire]
  nth_rewrite 1 [heq]
  refine split_wire (fun m hm => ?_) htail'
  exact (List.mem_append.mp hm).elim (hmessages m) (hmessages' m)

/-! ## Taking whole messages -/

variable {σ : Type*} (stop : σ → Bool) (step : σ → Bytes × Bytes → σ)

/-- Take the message at the front, unless the state asks to stop. -/
def next (F : HeaderFormat) : σ × Bytes → Option (σ × Bytes)
  | (s, bs) =>
      if stop s ∨ F.Incomplete bs then none else some (step s (F.first bs), F.rest bs)

/-- More bytes behind a whole frame change neither it nor the order. -/
theorem incomplete_append {bs : Bytes} (h : ¬ F.Incomplete bs) (c : Bytes) :
    ¬ F.Incomplete (bs ++ c) ∧ F.first (bs ++ c) = F.first bs ∧
      F.rest (bs ++ c) = F.rest bs ++ c := by
  obtain ⟨hmessage, heq⟩ := first_rest h
  have hwhole := first_append hmessage (F.rest bs ++ c)
  rwa [← List.append_assoc, heq] at hwhole

/-- The reader that takes a message when it is there whole. -/
def consumer (F : HeaderFormat) : Consumer σ UInt8 where
  next := F.next stop step
  rank p := p.2.length
  rank_lt := by
    rintro ⟨s, b⟩ q h
    rw [next] at h
    split at h
    · cases h
    · next hc =>
        cases h
        exact length_rest_lt (not_or.mp hc).2
  next_append := by
    intro s b s' b' c h
    rw [next] at h ⊢
    split at h
    · cases h
    · next hc =>
        cases h
        obtain ⟨hstop, hwhole⟩ := not_or.mp hc
        obtain ⟨hwhole', hfirst, hrest⟩ := incomplete_append hwhole c
        rw [if_neg (not_or.mpr ⟨hstop, hwhole'⟩), hfirst, hrest]

variable (F) in
/-- **Draining passes the messages on in order**, all of them or up to the one that asks to stop. -/
theorem drain_spec (s : σ) (bs : Bytes) : ∃ done todo, (F.split bs).1 = done ++ todo ∧
    (F.consumer stop step).drain (s, bs)
      = (done.foldl step s, wire todo ++ (F.split bs).2) ∧
    (todo = [] ∨ stop (done.foldl step s) = true) := by
  induction hn : bs.length using Nat.strongRecOn generalizing s bs with
  | _ n ih =>
      by_cases hstop : stop s = true
      · refine ⟨[], (F.split bs).1, rfl, ?_, .inr hstop⟩
        rw [(split_spec bs).1]
        exact Consumer.drain_of_none (if_pos (.inl hstop))
      · by_cases h : F.Incomplete bs
        · refine ⟨[], [], by rw [split_of_incomplete h]; rfl, ?_, .inl rfl⟩
          rw [split_of_incomplete h]
          exact Consumer.drain_of_none (if_pos (.inr h))
        · have hnext : (F.consumer stop step).next (s, bs) = some (step s (F.first bs), F.rest bs) :=
            if_neg (not_or.mpr ⟨hstop, h⟩)
          obtain ⟨done, todo, hsplit, hdrain, hend⟩ :=
            ih _ (hn ▸ length_rest_lt h) (step s (F.first bs)) (F.rest bs) rfl
          refine ⟨F.first bs :: done, todo, ?_, ?_, hend⟩
          · rw [split_of_complete h, hsplit]
            rfl
          · rw [Consumer.drain_of_some hnext, hdrain, split_of_complete h]
            rfl

/-- Draining passes all messages on when none asks to stop. -/
theorem drain_eq (hstop : ∀ s, stop s = false) (s : σ) (bs : Bytes) :
    (F.consumer stop step).drain (s, bs) = ((F.split bs).1.foldl step s, (F.split bs).2) := by
  obtain ⟨done, todo, hsplit, hdrain, hend⟩ := F.drain_spec stop step s bs
  obtain rfl := hend.resolve_right (by simp [hstop])
  rw [hdrain, hsplit, List.append_nil]
  rfl

/-! ## Taking the header first -/

/-- Take the header at the front, or the payload of the header taken. -/
def stagedNext (F : HeaderFormat) :
    (σ × Option Bytes) × Bytes → Option ((σ × Option Bytes) × Bytes)
  | ((s, none), bs) =>
      if stop s ∨ bs.length < F.size then none
      else some ((s, some (bs.take F.size)), bs.drop F.size)
  | ((s, some header), bs) =>
      if stop s ∨ bs.length < F.announced header then none
      else some ((step s (header, bs.take (F.announced header)), none),
        bs.drop (F.announced header))

/-- The reader that takes the header before the payload has arrived. -/
def staged (F : HeaderFormat) : Consumer (σ × Option Bytes) UInt8 where
  next := F.stagedNext stop step
  rank p := 2 * p.2.length + if p.1.2.isSome then 1 else 0
  rank_lt := by
    rintro ⟨⟨s, header⟩, bs⟩ q h
    have hpos := F.size_pos
    cases header with
    | none =>
        rw [stagedNext] at h
        split at h
        · cases h
        · next hc =>
            cases h
            simp only [not_or, not_lt] at hc
            simp only [List.length_drop, Option.isSome_some, if_true, Option.isSome_none,
              Bool.false_eq_true, if_false]
            omega
    | some header =>
        rw [stagedNext] at h
        split at h
        · cases h
        · next hc =>
            cases h
            simp only [not_or, not_lt] at hc
            simp only [List.length_drop, Option.isSome_some, if_true, Option.isSome_none,
              Bool.false_eq_true, if_false]
            omega
  next_append := by
    rintro ⟨s, header⟩ bs p bs' c h
    cases header with
    | none =>
        rw [stagedNext] at h ⊢
        split at h
        · cases h
        · next hc =>
            cases h
            simp only [not_or, not_lt] at hc
            rw [if_neg (by simp only [not_or, not_lt, List.length_append]; exact ⟨hc.1, by omega⟩),
              List.take_append_of_le_length hc.2, List.drop_append_of_le_length hc.2]
    | some header =>
        rw [stagedNext] at h ⊢
        split at h
        · cases h
        · next hc =>
            cases h
            simp only [not_or, not_lt] at hc
            rw [if_neg (by simp only [not_or, not_lt, List.length_append]; exact ⟨hc.1, by omega⟩),
              List.take_append_of_le_length hc.2, List.drop_append_of_le_length hc.2]

variable (F) in
/-- **The staged reader passes the same messages on**, whole or up to the one that asks to stop. -/
theorem staged_drain_spec (s : σ) (bs : Bytes) : ∃ done todo, (F.split bs).1 = done ++ todo ∧
    ((F.staged stop step).drain ((s, none), bs)).1.1 = done.foldl step s ∧
    (todo = [] ∨ stop (done.foldl step s) = true) := by
  -- Induction on the bytes: a frame is taken in two steps, its header and then its payload.
  induction hn : bs.length using Nat.strongRecOn generalizing s bs with
  | _ n ih =>
      by_cases hstop : stop s = true
      · -- stopped: whatever is left is not looked at
        refine ⟨[], (F.split bs).1, rfl, ?_, .inr hstop⟩
        rw [Consumer.drain_of_none (if_pos (.inl hstop))]
        rfl
      · by_cases hheader : bs.length < F.size
        -- the header is not complete
        · refine ⟨[], [], by rw [split_of_incomplete (.inl hheader)]; rfl, ?_, .inl rfl⟩
          rw [Consumer.drain_of_none (if_pos (.inr hheader))]
          rfl
        · have hnext : (F.staged stop step).next ((s, none), bs)
              = some ((s, some (bs.take F.size)), bs.drop F.size) :=
            if_neg (not_or.mpr ⟨hstop, hheader⟩)
          rw [Consumer.drain_of_some hnext]
          by_cases h : F.Incomplete bs
          -- the header is taken, the payload is not complete
          · have hshort : (bs.drop F.size).length < F.announced (bs.take F.size) := by
              rw [List.length_drop]
              have := h.resolve_left hheader
              omega
            refine ⟨[], [], by rw [split_of_incomplete h]; rfl, ?_, .inl rfl⟩
            rw [Consumer.drain_of_none (if_pos (.inr hshort))]
            rfl
          -- header and payload are taken, and the rest is shorter
          · have hlong : ¬ (bs.drop F.size).length < F.announced (bs.take F.size) := by
              simp only [Incomplete, not_or, not_lt] at h
              rw [List.length_drop]
              omega
            have hnext' : (F.staged stop step).next ((s, some (bs.take F.size)), bs.drop F.size)
                = some ((step s (F.first bs), none), F.rest bs) := by
              rw [rest, ← List.drop_drop]
              exact if_neg (not_or.mpr ⟨hstop, hlong⟩)
            obtain ⟨done, todo, hsplit, hdrain, hend⟩ :=
              ih _ (hn ▸ length_rest_lt h) (step s (F.first bs)) (F.rest bs) rfl
            refine ⟨F.first bs :: done, todo, ?_, ?_, hend⟩
            · rw [split_of_complete h, hsplit]
              rfl
            · rw [Consumer.drain_of_some hnext', hdrain]
              rfl

end HeaderFormat

end NetworkLib
