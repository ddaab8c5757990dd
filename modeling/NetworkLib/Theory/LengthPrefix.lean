import NetworkLib.Theory.NetworkOrder
import NetworkLib.Theory.Incremental
import NetworkLib.Theory.Cutting
import NetworkLib.Theory.Pacing

/-! # Length-prefixed framing

A frame is a 32-bit big-endian length followed by that many payload bytes. The reader `consumer`
hands each whole payload of at most `limit` bytes to a step function; on a stream of frames, in any
cutting, it processes exactly the payloads received whole and keeps the tail
(`drain_front`), and so does every `while` loop that reads frames (`ReadsFrames.foldl_frames`). -/

namespace NetworkLib.LengthPrefix

/-- The frame carrying `payload`. -/
def frame (payload : Bytes) : Bytes := htonl (UInt32.ofNat payload.length) ++ payload

/-- The frames carrying `payloads`, one after another. -/
def frames (payloads : List Bytes) : Bytes := (payloads.map frame).flatten

theorem frames_cons (payload : Bytes) (payloads : List Bytes) :
    frames (payload :: payloads) = frame payload ++ frames payloads := rfl

/-- The frames of two lists stand one behind the other. -/
theorem frames_append (payloads payloads' : List Bytes) :
    frames (payloads ++ payloads') = frames payloads ++ frames payloads' := by
  rw [frames, List.map_append, List.flatten_append]
  rfl

/-- The payload length announced at the front of `bs`. -/
def announced (bs : Bytes) : ℕ := ofBigEndian (bs.take 4)

/-- There is no whole frame at the front of `bs`. -/
def Incomplete (bs : Bytes) : Prop := bs.length < 4 + announced bs

instance (bs : Bytes) : Decidable (Incomplete bs) := inferInstanceAs (Decidable (_ < _))

@[simp] theorem length_frame (payload : Bytes) : (frame payload).length = 4 + payload.length := by
  rw [frame, List.length_append, length_htonl]

/-- No bytes are no frame. -/
theorem incomplete_nil : Incomplete [] := by decide

/-- The announced length is in the first four bytes. -/
theorem announced_append {bs : Bytes} (h : 4 ≤ bs.length) (rest : Bytes) :
    announced (bs ++ rest) = announced bs := by
  rw [announced, announced, List.take_append_of_le_length h]

/-- The code's 32-bit length is the announced one. -/
theorem toNat_ntohl_take (bs : Bytes) : (ntohl (bs.take 4)).toNat = announced bs :=
  toNat_ntohl (by rw [List.length_take]; omega)

/-- A frame announces the length of its payload. -/
theorem announced_frame {payload : Bytes} (h : payload.length < 2 ^ 32) (rest : Bytes) :
    announced (frame payload ++ rest) = payload.length := by
  rw [announced_append (by rw [length_frame]; omega), announced, frame,
    List.take_append_of_le_length (by simp), List.take_of_length_le (by simp), htonl,
    ofBigEndian_bigEndian (UInt32.toNat_lt _), UInt32.toNat_ofNat_of_lt' h]

/-- The payload stands behind the length. -/
theorem drop_four_frame (payload rest : Bytes) :
    (frame payload ++ rest).drop 4 = payload ++ rest := by
  rw [frame, List.append_assoc, List.drop_left' (length_htonl _)]

/-- **A proper front of a frame is incomplete.** -/
theorem incomplete_of_proper {payload tail : Bytes} (h : payload.length < 2 ^ 32)
    (ht : tail <+: frame payload) (hne : tail ≠ frame payload) : Incomplete tail := by
  obtain ⟨rest, hrest⟩ := ht
  have hlen : tail.length + rest.length = 4 + payload.length := by
    rw [← List.length_append, hrest, length_frame]
  have hpos : rest ≠ [] := fun hr => hne (by rw [← hrest, hr, List.append_nil])
  have := List.length_pos_iff.mpr hpos
  unfold Incomplete
  by_cases h4 : 4 ≤ tail.length
  · have hann := announced_frame h []
    rw [List.append_nil, ← hrest, announced_append h4] at hann
    omega
  · omega

/-- The tail of a stream of frames is incomplete. -/
theorem incomplete_of_isTail {payloads : List Bytes} (h : ∀ p ∈ payloads, p.length < 2 ^ 32)
    {k : ℕ} {tail : Bytes} (ht : IsTail (payloads.map frame) k tail) : Incomplete tail := by
  unfold IsTail at ht
  rw [List.getElem?_map] at ht
  cases hk : payloads[k]? with
  | none =>
      rw [hk] at ht
      rw [show tail = [] from ht]
      exact incomplete_nil
  | some payload =>
      rw [hk] at ht
      exact incomplete_of_proper (h payload (List.mem_of_getElem? hk)) ht.1 ht.2

variable {σ : Type*}

/-- Take a whole frame of at most `limit` payload bytes off the front, and let `step` process its
payload. -/
def next (limit : ℕ) (step : σ → Bytes → σ) : σ × Bytes → Option (σ × Bytes)
  | (s, bs) =>
      if Incomplete bs ∨ limit < announced bs then none
      else some (step s ((bs.drop 4).take (announced bs)), bs.drop (4 + announced bs))

/-- From incomplete bytes nothing is taken. -/
theorem next_eq_none_of_incomplete {limit : ℕ} {step : σ → Bytes → σ} {s : σ} {bs : Bytes}
    (h : Incomplete bs) : next limit step (s, bs) = none := by
  rw [next, if_pos (Or.inl h)]

/-- The length-prefixed reader. -/
def consumer (limit : ℕ) (step : σ → Bytes → σ) : Consumer σ UInt8 where
  next := next limit step
  rank p := p.2.length
  rank_lt := by
    rintro ⟨s, b⟩ q h
    rw [next] at h
    split at h
    · cases h
    · next hc =>
        cases h
        rw [not_or, Incomplete] at hc
        show (b.drop _).length < b.length
        rw [List.length_drop]
        omega
  next_append := by
    intro s b s' b' c h
    rw [next] at h ⊢
    split at h
    · cases h
    · next hc =>
        cases h
        rw [not_or, Incomplete, Nat.not_lt] at hc
        have hann := @announced_append b (by omega) c
        have hc' : ¬ (Incomplete (b ++ c) ∨ limit < announced (b ++ c)) := by
          rw [not_or, Incomplete, hann, List.length_append]
          omega
        rw [if_neg hc', hann, List.drop_append_of_le_length (by omega),
          List.drop_append_of_le_length hc.1,
          List.take_append_of_le_length (by rw [List.length_drop]; omega)]

variable {limit : ℕ} {step : σ → Bytes → σ}

theorem consumer_next (p : σ × Bytes) : (consumer limit step).next p = next limit step p := rfl

/-- **A frame within the limit is processed whole**, whatever follows it. -/
theorem next_frame (hlimit : limit < 2 ^ 32) {payload : Bytes} (h : payload.length ≤ limit) (s : σ)
    (rest : Bytes) : next limit step (s, frame payload ++ rest) = some (step s payload, rest) := by
  have hann := announced_frame (h.trans_lt hlimit) rest
  have hc : ¬ (Incomplete (frame payload ++ rest) ∨ limit < announced (frame payload ++ rest)) := by
    rw [not_or, Incomplete, hann, List.length_append, length_frame]
    omega
  rw [next, if_neg hc, hann, ← List.drop_drop, drop_four_frame, List.take_left, List.drop_left]

/-- Draining whole frames and a tail processes the frames in order and keeps the tail. -/
theorem drain_frames (hlimit : limit < 2 ^ 32) {payloads : List Bytes}
    (h : ∀ p ∈ payloads, p.length ≤ limit) {tail : Bytes} (ht : Incomplete tail) (s : σ) :
    (consumer limit step).drain (s, frames payloads ++ tail) = (payloads.foldl step s, tail) := by
  induction payloads generalizing s with
  | nil =>
      have hnext : (consumer limit step).next (s, tail) = none := by
        rw [consumer_next]
        exact next_eq_none_of_incomplete ht
      exact Consumer.drain_of_none hnext
  | cons payload payloads ih =>
      have hnext : (consumer limit step).next (s, frames (payload :: payloads) ++ tail)
          = some (step s payload, frames payloads ++ tail) := by
        rw [consumer_next, frames_cons, List.append_assoc]
        exact next_frame hlimit (h payload List.mem_cons_self) s _
      rw [Consumer.drain_of_some hnext, ih fun p hp => h p (List.mem_cons_of_mem _ hp),
        List.foldl_cons]

/-- From no bytes nothing is taken. -/
theorem consumer_waits_nil (s : σ) : (consumer limit step).next (s, []) = none := by
  rw [consumer_next]
  exact next_eq_none_of_incomplete incomplete_nil

/-- Draining a front of a stream of frames processes the payloads received whole and keeps the
tail. -/
theorem drain_front (hlimit : limit < 2 ^ 32) (step : σ → Bytes → σ) {payloads : List Bytes}
    (h : ∀ p ∈ payloads, p.length ≤ limit) {bs : Bytes} (hbs : bs <+: frames payloads) :
    ∃ k tail, k ≤ payloads.length ∧ bs = frames (payloads.take k) ++ tail ∧
      IsTail (payloads.map frame) k tail ∧
      ∀ s : σ, (consumer limit step).drain (s, bs) = ((payloads.take k).foldl step s, tail) := by
  obtain ⟨k, tail, hk, heq, htail⟩ := exists_whole_tail hbs
  rw [← List.map_take] at heq
  have hinc := incomplete_of_isTail (fun p hp => (h p hp).trans_lt hlimit) htail
  refine ⟨k, tail, by simpa using hk, heq, htail, fun s => ?_⟩
  rw [heq]
  exact drain_frames hlimit (fun p hp => h p (List.mem_of_mem_take hp)) hinc s

/-! ## The payloads of a stream -/

/-- Whole frames of at most `limit` payload bytes, taken for their payloads. -/
def splitter (limit : ℕ) : Splitter UInt8 Bytes where
  first bs := (consumer limit fun _ payload => payload).next ([], bs)
  length_lt h := (consumer limit fun _ payload => payload).rank_lt h
  first_append c h := (consumer limit fun _ payload => payload).next_append c h

theorem splitter_first (limit : ℕ) (bs : Bytes) :
    (splitter limit).first bs =
      if Incomplete bs ∨ limit < announced bs then none
      else some ((bs.drop 4).take (announced bs), bs.drop (4 + announced bs)) := rfl

/-- The reader's step in terms of the first payload. -/
theorem next_eq_map_first (s : σ) (bs : Bytes) :
    (consumer limit step).next (s, bs)
      = ((splitter limit).first bs).map fun p => (step s p.1, p.2) := by
  rw [consumer_next, next, splitter_first]
  split <;> rfl

/-- **Draining a stream processes its payloads** and keeps what is left behind them. -/
theorem drain_eq_items (s : σ) (bs : Bytes) :
    (consumer limit step).drain (s, bs)
      = (((splitter limit).items bs).foldl step s, (splitter limit).remainder bs) := by
  induction hn : bs.length using Nat.strongRecOn generalizing s bs with
  | ind n ih =>
      have hnext := @next_eq_map_first _ limit step s bs
      cases hfirst : (splitter limit).first bs with
      | none =>
          rw [hfirst] at hnext
          rw [Consumer.drain_of_none hnext, Splitter.items_of_none hfirst,
            Splitter.remainder_of_none hfirst, List.foldl_nil]
      | some p =>
          obtain ⟨payload, rest⟩ := p
          rw [hfirst] at hnext
          rw [Consumer.drain_of_some hnext, Splitter.items_of_some hfirst,
            Splitter.remainder_of_some hfirst, List.foldl_cons]
          exact ih rest.length (hn ▸ (splitter limit).length_lt hfirst) _ rest rfl

/-- A whole frame is taken off whatever follows it. -/
theorem splitter_first_take {limit : ℕ} {bs payload rest : Bytes}
    (h : (splitter limit).first bs = some (payload, rest)) :
    ∃ whole, bs = whole ++ rest ∧ (splitter limit).first whole = some (payload, []) := by
  rw [splitter_first] at h
  split at h
  · cases h
  · next hc =>
      cases h
      obtain ⟨hinc, hlimit⟩ := not_or.mp hc
      rw [Incomplete, Nat.not_lt] at hinc
      refine ⟨bs.take (4 + announced bs), (List.take_append_drop _ _).symm, ?_⟩
      have hlen : (bs.take (4 + announced bs)).length = 4 + announced bs :=
        List.length_take_of_le hinc
      have hann : announced (bs.take (4 + announced bs)) = announced bs := by
        rw [announced, List.take_take, min_eq_left (by omega), ← announced]
      have hc' : ¬ (Incomplete (bs.take (4 + announced bs)) ∨
          limit < announced (bs.take (4 + announced bs))) := by
        rw [not_or, Incomplete, hann, hlen]
        exact ⟨Nat.lt_irrefl _, hlimit⟩
      rw [splitter_first, if_neg hc', hann, List.drop_take, Nat.add_sub_cancel_left, List.take_take,
        min_self, List.drop_of_length_le hlen.le]

/-- **The frames of a stream end where what is left begins**, whatever follows there. -/
theorem exists_taken (limit : ℕ) (bs : Bytes) :
    ∃ taken, bs = taken ++ (splitter limit).remainder bs ∧
      ∀ w, (splitter limit).items (taken ++ w)
          = (splitter limit).items bs ++ (splitter limit).items w ∧
        (splitter limit).remainder (taken ++ w) = (splitter limit).remainder w := by
  induction hn : bs.length using Nat.strongRecOn generalizing bs with
  | ind n ih =>
      cases hfirst : (splitter limit).first bs with
      | none =>
          refine ⟨[], (Splitter.remainder_of_none hfirst).symm, fun w => ?_⟩
          rw [Splitter.items_of_none hfirst]
          exact ⟨rfl, rfl⟩
      | some p =>
          obtain ⟨payload, rest⟩ := p
          obtain ⟨taken, hrest, htaken⟩ :=
            ih rest.length (hn ▸ (splitter limit).length_lt hfirst) rest rfl
          -- the first frame alone, and the frames behind it
          obtain ⟨whole, hbs, hwhole⟩ := splitter_first_take hfirst
          refine ⟨whole ++ taken, ?_, fun w => ?_⟩
          · rw [Splitter.remainder_of_some hfirst, List.append_assoc, ← hrest, ← hbs]
          · obtain ⟨hitems, hremainder⟩ := htaken w
            have hfront := (splitter limit).first_append (taken ++ w) hwhole
            rw [List.append_assoc, Splitter.items_of_some hfront, Splitter.remainder_of_some hfront,
              Splitter.items_of_some hfirst, List.nil_append, hitems, hremainder]
            exact ⟨rfl, rfl⟩

/-! ## Loops that read length-prefixed frames

A `while` loop reads frames when, in the states satisfying `P`, each turn takes a whole frame within
the limit through `step`, and it leaves without a change at an incomplete one. `receive` is one call
of it. -/

/-- The loop `body` of the function `receive` reads length-prefixed frames through `step`. -/
structure ReadsFrames (limit : ℕ) (step : σ → Bytes → σ) (P : σ → Prop)
    (body : σ × Bytes → Loop.Turn (σ × Bytes)) (receive : σ × Bytes → σ × Bytes) : Prop where
  again : ∀ s bs, P s → ¬ Incomplete bs → announced bs ≤ limit →
    body (s, bs) = .again (step s ((bs.drop 4).take (announced bs)), bs.drop (4 + announced bs))
  leave : ∀ s bs, P s → Incomplete bs → bs.length < 4 ∨ announced bs ≤ limit →
    body (s, bs) = .leave (s, bs)
  shorter : ∀ p q, body p = .again q → q.2.length < p.2.length
  invariant : ∀ s payload, P s → P (step s payload)
  receive_eq : ∀ p, P p.1 → receive p = Loop.run body (fun p => p.2.length) p

variable {P : σ → Prop} {body : σ × Bytes → Loop.Turn (σ × Bytes)}
  {receive : σ × Bytes → σ × Bytes}

/-- One turn of a loop that waits for a whole frame and lets `step` process its payload; it leaves
the loop where `stops` says so, and through `refuse` at a length above the limit. -/
def frameTurn (limit : ℕ) (step : σ → Bytes → σ) (stops : σ → Bytes → Bool)
    (refuse : σ × Bytes → σ × Bytes) : σ × Bytes → Loop.Turn (σ × Bytes)
  | (s, bs) =>
      if bs.length < 4 then .leave (s, bs)
      else if limit < announced bs then .leave (refuse (s, bs))
      else if 4 + announced bs ≤ bs.length then
        let payload := (bs.drop 4).take (announced bs)
        if stops s payload then .leave (step s payload, bs.drop (4 + announced bs))
        else .again (step s payload, bs.drop (4 + announced bs))
      else .leave (s, bs)

section FrameTurn

variable {stops : σ → Bytes → Bool} {refuse : σ × Bytes → σ × Bytes} {s : σ} {bs : Bytes}

/-- Past a complete header within the limit, a turn processes a whole frame or waits. -/
theorem frameTurn_of_header (h4 : 4 ≤ bs.length) (hmax : announced bs ≤ limit) :
    frameTurn limit step stops refuse (s, bs) =
      if 4 + announced bs ≤ bs.length then
        if stops s ((bs.drop 4).take (announced bs)) then
          .leave (step s ((bs.drop 4).take (announced bs)), bs.drop (4 + announced bs))
        else .again (step s ((bs.drop 4).take (announced bs)), bs.drop (4 + announced bs))
      else .leave (s, bs) := by
  rw [frameTurn, if_neg (Nat.not_lt.mpr h4), if_neg (Nat.not_lt.mpr hmax)]

/-- At a length above the limit, it gives up. -/
theorem frameTurn_of_oversized (h4 : 4 ≤ bs.length) (hmax : limit < announced bs) :
    frameTurn limit step stops refuse (s, bs) = .leave (refuse (s, bs)) := by
  rw [frameTurn, if_neg (Nat.not_lt.mpr h4), if_pos hmax]

/-- Before the header is there, it waits. -/
theorem frameTurn_of_short (h4 : bs.length < 4) :
    frameTurn limit step stops refuse (s, bs) = .leave (s, bs) := by
  rw [frameTurn, if_pos h4]

/-- **In front of a whole frame it processes the payload**, where it does not stop there. -/
theorem frameTurn_frame (hlimit : limit < 2 ^ 32) {payload : Bytes} (h : payload.length ≤ limit)
    (hstops : stops s payload = false) (rest : Bytes) :
    frameTurn limit step stops refuse (s, frame payload ++ rest) = .again (step s payload, rest) := by
  have hann := announced_frame (h.trans_lt hlimit) rest
  have hlen : (frame payload ++ rest).length = 4 + payload.length + rest.length := by
    rw [List.length_append, length_frame]
  rw [frameTurn_of_header (by omega) (by rw [hann]; exact h), hann, if_pos (by omega),
    ← List.drop_drop, drop_four_frame, List.take_left, List.drop_left, hstops]
  rfl

/-- **At a part of a frame it waits.** -/
theorem frameTurn_part (hlimit : limit < 2 ^ 32) {payload : Bytes} (h : payload.length ≤ limit)
    (hbs : bs <+: frame payload) (hne : bs ≠ frame payload) :
    frameTurn limit step stops refuse (s, bs) = .leave (s, bs) := by
  have hinc := incomplete_of_proper (h.trans_lt hlimit) hbs hne
  rcases Nat.lt_or_ge bs.length 4 with h4 | h4
  · exact frameTurn_of_short h4
  · -- the header is there, and announces the length of the payload
    obtain ⟨rest, hrest⟩ := hbs
    have hann := announced_frame (h.trans_lt hlimit) []
    rw [List.append_nil, ← hrest, announced_append h4] at hann
    rw [Incomplete] at hinc
    rw [frameTurn_of_header h4 (by rw [hann]; exact h), if_neg (by omega)]

/-- A turn that goes round takes a frame. -/
theorem frameTurn_rank (p q : σ × Bytes) (h : frameTurn limit step stops refuse p = .again q) :
    q.2.length < p.2.length := by
  obtain ⟨s, bs⟩ := p
  by_cases h4 : bs.length < 4
  · rw [frameTurn_of_short h4] at h
    cases h
  · rw [Nat.not_lt] at h4
    by_cases hmax : announced bs ≤ limit
    · rw [frameTurn_of_header h4 hmax] at h
      split at h
      · split at h
        · cases h
        · cases h
          simp only [List.length_drop]
          omega
      · cases h
    · rw [frameTurn_of_oversized h4 (Nat.lt_of_not_le hmax)] at h
      cases h

/-- **A loop of such turns reads frames**, in the states in which it does not stop. -/
theorem frameTurn_readsFrames (hinvariant : ∀ s payload, P s → P (step s payload))
    (hstops : ∀ s payload, P s → stops s payload = false)
    (hreceive : ∀ p, P p.1 →
      receive p = Loop.run (frameTurn limit step stops refuse) (fun p => p.2.length) p) :
    ReadsFrames limit step P (frameTurn limit step stops refuse) receive where
  again s bs hs hinc hmax := by
    rw [Incomplete, Nat.not_lt] at hinc
    rw [frameTurn_of_header (by omega) hmax, if_pos hinc, hstops s _ hs]
    rfl
  leave s bs hs hinc hmax := by
    rw [Incomplete] at hinc
    rcases Nat.lt_or_ge bs.length 4 with h4 | h4
    · exact frameTurn_of_short h4
    · rw [frameTurn_of_header h4 (hmax.resolve_left (Nat.not_lt.mpr h4)), if_neg (by omega)]
  shorter := frameTurn_rank
  invariant := hinvariant
  receive_eq := hreceive

end FrameTurn

/-- The announced length at the tail of a stream of frames is within the limit, once it is
complete. -/
theorem announced_le_of_isTail {payloads : List Bytes} (hlimit : limit < 2 ^ 32)
    (h : ∀ p ∈ payloads, p.length ≤ limit) {k : ℕ} {tail : Bytes}
    (ht : IsTail (payloads.map frame) k tail) : tail.length < 4 ∨ announced tail ≤ limit := by
  unfold IsTail at ht
  rw [List.getElem?_map] at ht
  cases hk : payloads[k]? with
  | none =>
      rw [hk] at ht
      rw [show tail = [] from ht]
      exact Or.inl (by decide)
  | some payload =>
      rw [hk] at ht
      obtain ⟨rest, hrest⟩ : tail <+: frame payload := ht.1
      have hp := h payload (List.mem_of_getElem? hk)
      have hann := announced_frame (hp.trans_lt hlimit) []
      rw [List.append_nil, ← hrest] at hann
      by_cases h4 : 4 ≤ tail.length
      · rw [announced_append h4] at hann
        exact Or.inr (hann ▸ hp)
      · exact Or.inl (by omega)

/-- On a front of a stream of frames, one call drains the consumer. -/
theorem ReadsFrames.receive_eq_drain (hr : ReadsFrames limit step P body receive)
    (hlimit : limit < 2 ^ 32) {payloads : List Bytes} (h : ∀ p ∈ payloads, p.length ≤ limit)
    {s : σ} (hs : P s) {bs : Bytes} (hbs : bs <+: frames payloads) :
    receive (s, bs) = (consumer limit step).drain (s, bs) := by
  obtain ⟨k, tail, -, -, htail, hdrain⟩ := drain_front hlimit step h hbs
  rw [hr.receive_eq _ hs]
  refine Consumer.run_eq_drain (P := fun p => P p.1) hr.shorter ?_ hs ?_
  · rintro ⟨s, bs⟩ q hp hnext
    rw [consumer_next, next] at hnext
    split at hnext
    · cases hnext
    · next hc =>
        cases hnext
        rw [not_or, Nat.not_lt] at hc
        exact ⟨hr.again s bs hp hc.1 hc.2, hr.invariant s _ hp⟩
  · intro hp
    rw [hdrain] at hp ⊢
    exact hr.leave _ tail hp
      (incomplete_of_isTail (fun p hp => (h p hp).trans_lt hlimit) htail)
      (announced_le_of_isTail hlimit h htail)

/-- On a stream of frames in any cutting, the calls after each read feed the consumer. -/
theorem ReadsFrames.foldl_eq_feedAll (hr : ReadsFrames limit step P body receive)
    (hlimit : limit < 2 ^ 32) {payloads : List Bytes} (h : ∀ p ∈ payloads, p.length ≤ limit)
    {s : σ} (hs : P s) {bs : Bytes} {chunks : List Bytes}
    (hbs : bs ++ chunks.flatten <+: frames payloads) :
    chunks.foldl (fun p chunk => receive (p.1, p.2 ++ chunk)) (s, bs)
      = (consumer limit step).feedAll (s, bs) chunks := by
  induction chunks generalizing s bs payloads with
  | nil => rfl
  | cons chunk chunks ih =>
      rw [List.flatten_cons, ← List.append_assoc] at hbs
      have hfront : bs ++ chunk <+: frames payloads := (List.prefix_append _ _).trans hbs
      rw [List.foldl_cons, Consumer.feedAll_cons, Consumer.feed,
        hr.receive_eq_drain hlimit h hs hfront]
      -- the unread tail goes on with the frames not yet received whole
      obtain ⟨k, tail, -, heq, -, hdrain⟩ := drain_front hlimit step h hfront
      have hsplit : frames payloads = frames (payloads.take k) ++ frames (payloads.drop k) := by
        rw [← frames_append, List.take_append_drop]
      rw [heq, hsplit, List.append_assoc] at hbs
      rw [hdrain]
      refine ih (fun p hp => h p (List.mem_of_mem_drop hp)) ?_
        ((List.prefix_append_right_inj _).mp hbs)
      exact List.foldlRecOn _ _ hs fun s hs p _ => hr.invariant s p hs

/-- **A loop that reads frames is exact on whole frames**, in any cutting. -/
theorem ReadsFrames.foldl_whole (hr : ReadsFrames limit step P body receive)
    (hlimit : limit < 2 ^ 32) {payloads : List Bytes} (h : ∀ p ∈ payloads, p.length ≤ limit)
    {s : σ} (hs : P s) {chunks : List Bytes} (hchunks : chunks.flatten = frames payloads) :
    chunks.foldl (fun p chunk => receive (p.1, p.2 ++ chunk)) (s, [])
      = (payloads.foldl step s, []) := by
  have hdrain : (consumer limit step).drain (s, frames payloads ++ [])
      = (payloads.foldl step s, []) :=
    drain_frames hlimit h incomplete_nil s
  rw [List.append_nil] at hdrain
  rw [hr.foldl_eq_feedAll hlimit h hs (by rw [List.nil_append, hchunks]),
    Consumer.feedAll_eq_drain (consumer_waits_nil s), List.nil_append, hchunks, hdrain]

/-- **A loop that reads frames is exact on every front of a stream of frames**, in any cutting:
exactly the payloads received whole go through `step`, in order, and the unread bytes are the
tail. -/
theorem ReadsFrames.foldl_frames (hr : ReadsFrames limit step P body receive)
    (hlimit : limit < 2 ^ 32) {payloads : List Bytes} (h : ∀ p ∈ payloads, p.length ≤ limit)
    {s : σ} (hs : P s) {bs : Bytes} (hbs : bs <+: frames payloads) :
    ∃ k tail, k ≤ payloads.length ∧ bs = frames (payloads.take k) ++ tail ∧
      IsTail (payloads.map frame) k tail ∧ ∀ chunks : List Bytes, chunks.flatten = bs →
        chunks.foldl (fun p chunk => receive (p.1, p.2 ++ chunk)) (s, [])
          = ((payloads.take k).foldl step s, tail) := by
  obtain ⟨k, tail, hk, heq, htail, hdrain⟩ := drain_front hlimit step h hbs
  refine ⟨k, tail, hk, heq, htail, fun chunks hchunks => ?_⟩
  rw [hr.foldl_eq_feedAll hlimit h hs (by rwa [List.nil_append, hchunks]),
    Consumer.feedAll_eq_drain (consumer_waits_nil s), List.nil_append, hchunks, hdrain]

end NetworkLib.LengthPrefix
